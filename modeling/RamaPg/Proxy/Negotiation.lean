import RamaPg.Pool.Connector
import RamaPg.Proxy.Direct
import RamaPg.Protocol.Identity
import RamaPg.Scram.Agreement

/-!
# Who negotiates the protocol version

A terminating session answers a newer minor version and `_pq_.` options itself, and then replays the
startup frame as it came. A backend that reads it negotiates again when the minor version is too new
for it or it does not know an option. `OneAuthority` is what the client and the start-up of the
backend should see of that second negotiation: nothing. It holds exactly of the backends that do not
negotiate: the pool's connector and the SCRAM client take the message for an error, and the relay
passes it on.
-/

namespace RamaPg.Proxy

open RamaPg.Lib RamaPg.Codec RamaPg.Startup RamaPg.Scram RamaPg.Pool

/-! ## Backends -/

/-- The newest minor version a backend supports and the protocol options it knows. -/
structure PgBackend where
  maxMinor : Nat
  knows : Bytes → Bool

namespace PgBackend

def unknown (b : PgBackend) (m : StartupMessage) : List Bytes :=
  m.pqOptions.filter fun option => !b.knows option

/-- The backend negotiates on this startup message. -/
def negotiates (b : PgBackend) (m : StartupMessage) : Bool :=
  (b.maxMinor : Int) < m.protocolMinor || !(b.unknown m).isEmpty

/-- The version the backend will use: the requested one, as far as it supports it. -/
def version (b : PgBackend) (m : StartupMessage) : ProtocolVersion :=
  ⟨3 * 2 ^ 16 + min m.protocolMinor b.maxMinor⟩

/-- What the backend sends before its authentication request on a startup frame. -/
def opening (b : PgBackend) (frame : Bytes) : List RawMessage :=
  match StartupRequest.parse frame with
  | .ok (.startup m) =>
    if b.negotiates m then
      [RawMessage.build Tag.negotiateProtocolVersion
        (Message.negotiateBody (b.version m) (b.unknown m))]
    else []
  | _ => []

end PgBackend

/-! ## Start-up paths -/

/-- What does not depend on the client: the primitives, the nonces drawn and the cancel keys. -/
structure Environment where
  b64 : Base64
  sha256 : Bytes → Key
  draw : Nat → Vector UInt8 18
  clientKey : Option CancelKey
  throwawayKey : CancelKey

/-- How a backend connection is started. -/
inductive Path where
  | pool (credentials : BackendCredentials)
  | scram (keys : ScramKeys)
  | trust

namespace Path

/-- Startup is relayed, then the rest of the stream is copied. -/
def copied (r : Relayed) : List Bytes × Option (Except BoxError Unit) :=
  match r.result with
  | some (.ok ()) => (r.toClient ++ r.backend.map RawMessage.asBytes, r.result)
  | _ => (r.toClient, r.result)

/-- The start-up on the backend's messages: what the client receives, frames relayed later included,
and how it ends. -/
def run (env : Environment) (client : PgClient) (backend : List RawMessage) :
    Path → List Bytes × Option (Except BoxError Unit)
  | pool credentials =>
    let identity := proxyIdentity client.startup
    match (PgConnector.serve env.b64 env.sha256 credentials env.draw
      ⟨client.startup.frame, identity.1, identity.2⟩ backend).result with
    | none => ([], none)
    | some (.error e) => ([Message.fatalError (ascii "08006")
        (ascii "rama-pg: could not establish a backend connection")], some (.error e))
    | some (.ok e) => (synthesizeStartup e.params (env.clientKey.getD env.throwawayKey).bytes ++
        e.rest.map RawMessage.asBytes, some (.ok ()))
  | scram keys => copied (reauthThenRelay env.b64 env.sha256 (env.draw 0) env.clientKey keys backend [])
  | trust => copied (relayStartup env.clientKey false backend [])

/-- The start-up succeeds. -/
def Completes (env : Environment) (client : PgClient) (backend : List RawMessage) (p : Path) : Prop :=
  (p.run env client backend).2 = some (.ok ())

end Path

/-! ## One authority -/

/-- The frame is a `NegotiateProtocolVersion`. -/
def isNpv (bs : Bytes) : Bool := bs.head? == some Tag.negotiateProtocolVersion

/-- The frame is another message. -/
def NotNpv (bs : Bytes) : Prop := isNpv bs = false

/-- None of the messages is a `NegotiateProtocolVersion`. -/
def NoNpv (ms : List RawMessage) : Prop := ∀ m ∈ ms, m.tag ≠ Tag.negotiateProtocolVersion

/-- At most one negotiation, before anything else, with the proxy's version and the client's
options. -/
def SeesOne (m : StartupMessage) (seen : List Bytes) : Prop :=
  seen.filter isNpv = [] ∨ ∃ tail,
    seen = Message.negotiateProtocolVersion m.negotiatedVersion m.pqOptions :: tail ∧
      tail.filter isNpv = []

/-- For every continuation of the backend's dialogue without a further negotiation, the start-up
completes as it does without the backend's opening, and the client, told `told` so far, sees one
negotiation. -/
def OneAuthority (env : Environment) (p : Path) (b : PgBackend) (client : PgClient)
    (told : List Bytes) : Prop :=
  ∀ rest : List RawMessage, NoNpv rest →
    (p.Completes env client (b.opening client.startup.frame ++ rest) ↔ p.Completes env client rest) ∧
    SeesOne client.startup (told ++ (p.run env client (b.opening client.startup.frame ++ rest)).1)

theorem isNpv_asBytes (m : RawMessage) :
    isNpv m.asBytes = (m.tag == Tag.negotiateProtocolVersion) := by
  obtain ⟨fr, wf⟩ := m
  cases fr with
  | nil => simp at wf
  | cons t rest => rfl

theorem isNpv_frame (t : UInt8) (body : Bytes) :
    isNpv (frame t body) = (t == Tag.negotiateProtocolVersion) := rfl

theorem filter_isNpv_asBytes {ms : List RawMessage} (h : NoNpv ms) :
    (ms.map RawMessage.asBytes).filter isNpv = [] := by
  rw [List.filter_eq_nil_iff]
  intro bs hbs
  obtain ⟨m, hm, rfl⟩ := List.mem_map.mp hbs
  rw [isNpv_asBytes]
  simpa using h m hm

/-! ## Without a second negotiation -/

theorem NoNpv.of_suffix {ms rest : List RawMessage} (h : NoNpv ms) (hs : rest <:+ ms) : NoNpv rest :=
  fun m hm => h m (hs.subset hm)

theorem filter_isNpv_relay {clientKey : Option CancelKey} {ms : List RawMessage} (h : NoNpv ms)
    (client : List RawMessage) :
    (relayStartup clientKey false ms client).toClient.filter isNpv = [] := by
  rw [List.filter_eq_nil_iff]
  intro bs hbs
  rcases mem_toClient_relayStartup hbs with ⟨m, hm, rfl⟩ | ⟨key, rfl⟩
  · rw [isNpv_asBytes]; simpa using h m hm
  · rw [Message.backendKeyDataRaw, isNpv_frame]; decide

theorem filter_isNpv_copied {r : Relayed} (hc : r.toClient.filter isNpv = [])
    (hb : NoNpv r.backend) : (Path.copied r).1.filter isNpv = [] := by
  unfold Path.copied
  split
  · rw [List.filter_append, hc, filter_isNpv_asBytes hb]; rfl
  · exact hc

theorem filter_isNpv_synthesize {params : List Bytes} (key : Bytes)
    (h : ∀ bs ∈ params, ∃ m : RawMessage, m.tag = Tag.parameterStatus ∧ bs = m.asBytes) :
    (synthesizeStartup params key).filter isNpv = [] := by
  rw [List.filter_eq_nil_iff]
  intro bs hbs
  simp only [synthesizeStartup, List.mem_cons, List.mem_append, List.not_mem_nil, or_false] at hbs
  rcases hbs with (rfl | hbs) | rfl | rfl
  · decide
  · obtain ⟨m, hm, rfl⟩ := h bs hbs
    rw [isNpv_asBytes, hm]; decide
  · rw [Message.backendKeyDataRaw, isNpv_frame]; decide
  · decide

/-- A dialogue without a negotiation shows the client none. -/
theorem filter_isNpv_run (env : Environment) (p : Path) (client : PgClient) {ms : List RawMessage}
    (h : NoNpv ms) : (p.run env client ms).1.filter isNpv = [] := by
  cases p with
  | pool credentials =>
    unfold Path.run
    simp only
    split
    · rfl
    · rw [List.filter_cons, Message.fatalError, Message.errorResponse, isNpv_frame]; rfl
    · rename_i e he
      obtain ⟨hp, hrest⟩ := PgConnector.serve_ok he
      rw [List.filter_append, filter_isNpv_synthesize _ hp, filter_isNpv_asBytes (h.of_suffix hrest)]
      rfl
  | scram keys =>
    have hs := Prog.feed_suffix (reauthUpstream env.b64 env.sha256 keys (env.draw 0)) ms
    refine filter_isNpv_copied ?_ ?_
    · unfold reauthThenRelay
      split
      · rename_i hf
        rw [hf] at hs
        exact filter_isNpv_relay (h.of_suffix hs) []
      · rfl
      · rfl
    · unfold reauthThenRelay
      split
      · rename_i hf
        rw [hf] at hs
        exact (h.of_suffix hs).of_suffix (relayStartup_suffix _ _)
      · rename_i hf
        rw [hf] at hs
        exact h.of_suffix hs
      · rename_i hf
        rw [hf] at hs
        exact h.of_suffix hs
  | trust =>
    exact filter_isNpv_copied (filter_isNpv_relay h []) (h.of_suffix (relayStartup_suffix _ _))

/-! ## With one -/

/-- The connector takes the second negotiation for an error. -/
theorem pool_negotiated (env : Environment) (credentials : BackendCredentials) (client : PgClient)
    {m : RawMessage} (hm : m.tag = Tag.negotiateProtocolVersion) (rest : List RawMessage) :
    ¬ (Path.pool credentials).Completes env client (m :: rest) := by
  have ha : (authPhase env.b64 env.sha256 (backendPassword credentials ⟨client.startup.frame,
      (proxyIdentity client.startup).1, (proxyIdentity client.startup).2⟩) env.draw 0
      (m :: rest)).result = some (.error (.text
        s!"unexpected backend message during auth: tag {charDebug m.tag}")) := by
    rw [authPhase.eq_def]; simp only [hm]; rfl
  simp only [Path.Completes, Path.run, PgConnector.serve, ha]
  rintro ⟨⟩

/-- The SCRAM client takes it for an error. -/
theorem scram_negotiated (env : Environment) (keys : ScramKeys) (client : PgClient)
    {m : RawMessage} (hm : m.tag = Tag.negotiateProtocolVersion) (rest : List RawMessage) :
    ¬ (Path.scram keys).Completes env client (m :: rest) := by
  obtain ⟨e, he⟩ : ∃ e, expectAuth m Auth.sasl "AuthenticationSASL" = .error e :=
    ⟨_, by rw [expectAuth, hm]; rfl⟩
  have hf : (reauthUpstream env.b64 env.sha256 keys (env.draw 0)).feed (m :: rest) =
      ([.received maxMessageLen m], some (.error e), rest) := by
    simp only [reauthUpstream, runScram, ioRead, ioReadCapped, Prog.recv_bind, Prog.feed, he,
      Prog.lift_error_bind]
  simp only [Path.Completes, Path.run, reauthThenRelay, hf, Path.copied, Relayed.stop]
  rintro ⟨⟩

/-- `AuthenticationOk` and `ReadyForQuery`. -/
def startupDone : List RawMessage :=
  [RawMessage.build Tag.authentication (i32ToBe Auth.ok), RawMessage.build Tag.readyForQuery [73]]

theorem noNpv_startupDone : NoNpv startupDone := by
  intro m hm
  rcases List.mem_cons.mp hm with rfl | hm
  · decide
  · obtain rfl := List.mem_singleton.mp hm
    decide

theorem pool_completes (env : Environment) (credentials : BackendCredentials) (client : PgClient) :
    (Path.pool credentials).Completes env client startupDone := by
  have ha : (authPhase env.b64 env.sha256 (backendPassword credentials ⟨client.startup.frame,
      (proxyIdentity client.startup).1, (proxyIdentity client.startup).2⟩) env.draw 0
      startupDone).result = some (.ok [RawMessage.build Tag.readyForQuery [73]]) := by
    rw [startupDone, authPhase.eq_def]; rfl
  simp only [Path.Completes, Path.run, PgConnector.serve, ha]
  rfl

/-- The dialogue of a backend that has the server key of these keys. -/
def scramDialogue (env : Environment) (keys : ScramKeys) : List RawMessage :=
  let nonce := randomNonce env.b64 (env.draw 0)
  serverMessages env.b64 env.sha256 none ⟨1, [], keys.storedKey, keys.serverKey⟩ keys.serverKey
    nonce (nonce ++ []) ++ startupDone

theorem noNpv_scramDialogue (env : Environment) (keys : ScramKeys) :
    NoNpv (scramDialogue env keys) := by
  intro m hm
  rcases List.mem_append.mp hm with hm | hm
  · simp only [serverMessages, List.mem_cons, List.not_mem_nil, or_false] at hm
    rcases hm with rfl | rfl | rfl <;> (rw [RawMessage.tag_build]; decide)
  · exact noNpv_startupDone m hm

theorem scram_completes (env : Environment) (keys : ScramKeys) (client : PgClient) :
    (Path.scram keys).Completes env client (scramDialogue env keys) := by
  have hs : Plain ([] : Bytes) := ⟨nofun, nofun⟩
  have hf := @feed_runScram env.b64 env.sha256 none ⟨1, [], keys.storedKey, keys.serverKey⟩
    (fun _ _ => keys) (env.draw 0) [] hs startupDone
  have hp : (reauthUpstream env.b64 env.sha256 keys (env.draw 0)).feed (scramDialogue env keys) =
      (((reauthUpstream env.b64 env.sha256 keys (env.draw 0)).feed (scramDialogue env keys)).1,
        some (.ok ()), startupDone) := Prod.ext rfl hf
  simp only [Path.Completes, Path.run, reauthThenRelay]
  rw [hp]
  rfl

/-! ## The two versions -/

theorem negotiatedVersion_code {m : StartupMessage} (h : m.protocolMajor = 3) :
    m.negotiatedVersion.code = 3 * 2 ^ 16 + min m.protocolMinor 2 := by
  have hmax : ProtocolVersion.max.minor = 2 := by decide
  have hmaj : m.protocolVersion.major = 3 := h
  have hlo : 0 ≤ m.protocolMinor := Int.emod_nonneg _ (by decide)
  have hhi : m.protocolMinor < 2 ^ 16 := Int.emod_lt_of_pos _ (by decide)
  show wrapI32 (m.protocolVersion.major * 2 ^ 16 + min m.protocolMinor ProtocolVersion.max.minor) = _
  rw [hmaj, hmax, wrapI32]
  omega

/-- A `NegotiateProtocolVersion` names its version. -/
theorem negotiateProtocolVersion_inj {v v' : ProtocolVersion} {os os' : List Bytes}
    (hv : 0 ≤ v.code ∧ v.code < 2 ^ 31) (hv' : 0 ≤ v'.code ∧ v'.code < 2 ^ 31)
    (h : Message.negotiateProtocolVersion v os = Message.negotiateProtocolVersion v' os') :
    v.code = v'.code := by
  obtain ⟨n, hn⟩ := Int.eq_ofNat_of_zero_le hv.1
  obtain ⟨n', hn'⟩ := Int.eq_ofNat_of_zero_le hv'.1
  have hb : Message.negotiateBody v os = Message.negotiateBody v' os' := congrArg (List.drop 5) h
  have hs := congrArg subtypeOf hb
  simp only [Message.negotiateBody, List.append_assoc, hn, hn'] at hs
  rw [subtypeOf_i32ToBe (by omega), subtypeOf_i32ToBe (by omega)] at hs
  rw [hn, hn']
  exact Option.some.inj hs

/-- When the proxy does not negotiate and the backend does, it is about the minor version, and the
backend names a lower one. -/
theorem version_ne {m : StartupMessage} (hmajor : m.protocolMajor = 3) {b : PgBackend}
    (hm : mustNegotiate m = false) (hb : b.negotiates m = true) :
    (b.version m).code ≠ m.negotiatedVersion.code := by
  have hcode := negotiatedVersion_code hmajor
  simp only [mustNegotiate, Bool.or_eq_false_iff, decide_eq_false_iff_not, not_not,
    Bool.not_eq_false', List.isEmpty_iff] at hm
  obtain ⟨hsame, hnil⟩ := hm
  have hu : b.unknown m = [] := by rw [PgBackend.unknown, hnil]; rfl
  simp only [PgBackend.negotiates, hu, List.isEmpty_nil, Bool.not_true, Bool.or_false,
    decide_eq_true_eq] at hb
  have hminor : m.protocolMinor = m.negotiatedVersion.code % 2 ^ 16 := by
    rw [hsame]; rfl
  simp only [PgBackend.version]
  omega

/-! ## What the client sees -/

/-- What a terminating session tells its client before it authenticates it. -/
def announced (m : StartupMessage) : List Bytes :=
  if mustNegotiate m then [Message.negotiateProtocolVersion m.negotiatedVersion m.pqOptions] else []

theorem told_negotiate {m : StartupMessage} {es : List (Event Int RawMessage)}
    (h : Runs (negotiate true m) es (some (.ok ()))) : es.filterMap Event.written = announced m := by
  unfold negotiate at h
  unfold announced
  cases hm : mustNegotiate m with
  | false =>
    rw [hm] at h
    obtain ⟨rfl, -⟩ := h.done_inv
    rfl
  | true =>
    rw [hm] at h
    rcases Runs.write_inv h with ⟨hu, -⟩ | ⟨es', rfl, h'⟩
    · exact (hu () rfl).elim
    · obtain ⟨rfl, -⟩ := h'.done_inv
      rfl

/-- A terminating session: the announcement, then what the authenticator wrote. -/
theorem told_session {auth : Authenticator} (hterm : auth.terminates = true)
    (hauth : ∀ ctx, (auth.authenticate ctx).Writes NotNpv) {sni : Option Bytes}
    {frame : Bytes} {es : List (Event Int RawMessage)} {client : PgClient}
    (h : Runs (PgSession.serve auth sni frame) es (some (.ok (some client)))) :
    ∃ challenge, es.filterMap Event.written = announced client.startup ++ challenge ∧
      challenge.filter isNpv = [] := by
  obtain ⟨-, -, es₁, es₂, rfl, h₁, h₂⟩ := PgSession.serve_some h
  rw [hterm] at h₁
  refine ⟨es₂.filterMap Event.written, by rw [List.filterMap_append, told_negotiate h₁], ?_⟩
  rw [List.filter_eq_nil_iff]
  intro bs hbs
  rw [h₂.writes (hauth _) bs hbs]
  exact Bool.false_ne_true

theorem seesOne_announced (m : StartupMessage) {later : List Bytes} (h : later.filter isNpv = []) :
    SeesOne m (announced m ++ later) := by
  unfold announced
  split
  · exact .inr ⟨later, rfl, h⟩
  · exact .inl h

/-- A frame of the backend's own negotiation among what the client sees is one too many, or the only
one and not the proxy's. -/
theorem not_seesOne {m : StartupMessage} (hmajor : m.protocolMajor = 3) {b : PgBackend}
    (hb : b.negotiates m = true) {challenge : List Bytes} (hc : challenge.filter isNpv = []) :
    ¬ SeesOne m (announced m ++ challenge ++
      [Message.negotiateProtocolVersion (b.version m) (b.unknown m)]) := by
  have hv : isNpv (Message.negotiateProtocolVersion (b.version m) (b.unknown m)) = true := rfl
  rintro (hnil | ⟨tail, heq, htail⟩)
  · rw [List.filter_append] at hnil
    have := (List.append_eq_nil_iff.mp hnil).2
    rw [List.filter_cons, hv] at this
    cases this
  · cases hm : mustNegotiate m with
    | true =>
      simp only [announced, hm, ↓reduceIte, List.cons_append,
        List.cons.injEq, true_and] at heq
      rw [← heq, List.filter_append, List.filter_cons, hv] at htail
      cases (List.append_eq_nil_iff.mp htail).2
    | false =>
      rw [announced, hm] at heq
      cases challenge with
      | nil =>
        have hne := version_ne hmajor hm hb
        have hcode := negotiatedVersion_code hmajor
        have hlo : 0 ≤ m.protocolMinor := Int.emod_nonneg _ (by decide)
        have hhi : m.protocolMinor < 2 ^ 16 := Int.emod_lt_of_pos _ (by decide)
        refine hne (negotiateProtocolVersion_inj ?_ ?_ (List.cons.inj heq).1)
        · simp only [PgBackend.version]; omega
        · omega
      | cons c challenge =>
        have hfirst : c = Message.negotiateProtocolVersion m.negotiatedVersion m.pqOptions :=
          (List.cons.inj heq).1
        rw [hfirst, List.filter_cons] at hc
        cases hc

theorem opening_eq (b : PgBackend) {m : StartupMessage}
    (h : StartupRequest.parse m.frame = .ok (.startup m)) :
    b.opening m.frame = if b.negotiates m then
      [RawMessage.build Tag.negotiateProtocolVersion
        (Message.negotiateBody (b.version m) (b.unknown m))] else [] := by
  rw [PgBackend.opening, h]

/-- A backend that negotiates breaks the authority on every path. -/
theorem not_oneAuthority (env : Environment) (p : Path) {b : PgBackend} {client : PgClient}
    (hparse : StartupRequest.parse client.startup.frame = .ok (.startup client.startup))
    (hmajor : client.startup.protocolMajor = 3) (hb : b.negotiates client.startup = true)
    {challenge : List Bytes} (hc : challenge.filter isNpv = []) :
    ¬ OneAuthority env p b client (announced client.startup ++ challenge) := by
  intro h
  have hopen := opening_eq b hparse
  rw [hb, if_pos rfl] at hopen
  unfold OneAuthority at h
  rw [hopen] at h
  cases p with
  | pool credentials =>
    have hdone := (h startupDone noNpv_startupDone).1.mpr (pool_completes env credentials client)
    exact pool_negotiated env credentials client rfl _ hdone
  | scram keys =>
    have hdone := (h _ (noNpv_scramDialogue env keys)).1.mpr (scram_completes env keys client)
    exact scram_negotiated env keys client rfl _ hdone
  | trust => exact not_seesOne hmajor hb hc (h [] nofun).2

/-- So it does in every terminating session. -/
theorem session_not_oneAuthority (env : Environment) {auth : Authenticator}
    (hterm : auth.terminates = true)
    (hauth : ∀ ctx, (auth.authenticate ctx).Writes NotNpv) {sni : Option Bytes}
    {frame : Bytes} {es : List (Event Int RawMessage)} {client : PgClient}
    (h : Runs (PgSession.serve auth sni frame) es (some (.ok (some client)))) (p : Path)
    {b : PgBackend} (hb : b.negotiates client.startup = true) :
    ¬ OneAuthority env p b client (es.filterMap Event.written) := by
  obtain ⟨hparse, hmajor, -⟩ := PgSession.serve_some h
  obtain ⟨challenge, htold, hc⟩ := told_session hterm hauth h
  rw [htold]
  exact not_oneAuthority env p (by rw [StartupRequest.parse_raw hparse]; exact hparse) hmajor hb hc

/-! ## The authenticators -/

theorem write_not_npv {bs : Bytes} (h : isNpv bs = false) : (ioWrite bs).Writes NotNpv :=
  Prog.writes_send h

theorem CleartextPassword.no_npv (auth : CleartextPassword) (ctx : AuthContext) :
    (auth.authenticate ctx).Writes NotNpv := by
  apply Prog.Writes.bind
  · exact write_not_npv rfl
  intro _
  apply Prog.Writes.bind
  · exact Prog.writes_recv
  intro m
  split
  · exact Prog.writes_lift _
  · apply Prog.Writes.bind
    · exact Prog.writes_lift _
    intro valid
    split
    · exact Prog.writes_pure _
    · apply Prog.Writes.bind
      · exact write_not_npv rfl
      intro _
      exact Prog.writes_lift _

theorem checked_no_npv {α : Type} (c : Except Refusal α) : (checked c).Writes NotNpv := by
  cases c with
  | ok a => exact Prog.writes_pure a
  | error ref =>
    cases ref with
    | fail e => exact Prog.writes_lift _
    | deny e =>
      apply Prog.Writes.bind
      · exact write_not_npv rfl
      intro _
      exact Prog.writes_lift _

theorem ScramSha256.no_npv (b64 : Base64) (sha256 : Bytes → Key) (auth : ScramSha256)
    (ctx : AuthContext) (draws : Draws) :
    (auth.authenticate b64 sha256 ctx draws).Writes NotNpv := by
  apply Prog.Writes.bind
  · exact Prog.writes_lift _
  intro answer
  apply Prog.Writes.bind
  · exact write_not_npv rfl
  intro _
  apply Prog.Writes.bind
  · exact Prog.writes_recv
  intro initial
  apply Prog.Writes.bind
  · exact checked_no_npv _
  intro first
  apply Prog.Writes.bind
  · exact write_not_npv rfl
  intro _
  apply Prog.Writes.bind
  · exact Prog.writes_recv
  intro response
  apply Prog.Writes.bind
  · exact checked_no_npv _
  intro final
  apply Prog.Writes.bind
  · exact write_not_npv rfl
  intro _
  exact Prog.writes_pure _

/-! ## The equivalence -/

/-- **One negotiation authority, exactly for backends that do not negotiate.** For every startup
frame a terminating session accepts, every run of its authenticator, every start-up path and every
backend: the start-up completes whatever the backend opens with, and the client sees at most the
proxy's own negotiation, if and only if the backend has nothing to negotiate. -/
theorem one_authority_iff (env : Environment) {auth : Authenticator} (hterm : auth.terminates = true)
    (hauth : ∀ ctx, (auth.authenticate ctx).Writes NotNpv) {sni : Option Bytes}
    {frame : Bytes} {es : List (Event Int RawMessage)} {client : PgClient}
    (h : Runs (PgSession.serve auth sni frame) es (some (.ok (some client)))) (p : Path)
    (b : PgBackend) :
    OneAuthority env p b client (es.filterMap Event.written) ↔
      b.negotiates client.startup = false := by
  constructor
  · intro hone
    by_contra hne
    exact session_not_oneAuthority env hterm hauth h p (Bool.not_eq_false _ ▸ hne) hone
  · intro hb rest hrest
    obtain ⟨hparse, -⟩ := PgSession.serve_some h
    obtain ⟨challenge, htold, hc⟩ := told_session hterm hauth h
    have hopen := opening_eq b (by rw [StartupRequest.parse_raw hparse]; exact hparse)
    rw [hb, if_neg Bool.false_ne_true] at hopen
    rw [htold, hopen, List.nil_append, List.append_assoc]
    refine ⟨Iff.rfl, seesOne_announced _ ?_⟩
    rw [List.filter_append, hc, filter_isNpv_run env p client hrest]
    rfl

namespace Sample

def environment : Environment where
  b64 := Base64.standard
  sha256 := Sha256.hash
  draw _ := Vector.replicate 18 3
  clientKey := none
  throwawayKey := ⟨[0, 0, 0, 1, 0, 0, 0, 2]⟩

/-- A protocol 3.2 startup packet of a user without further parameters. -/
def frame : Bytes :=
  i32ToBe 20 ++ i32ToBe ProtocolVersion.v3_2.code ++ ascii "user\x00alice\x00\x00"

def startup : StartupMessage := ⟨.v3_2, [(ascii "user", ascii "alice")], frame⟩

theorem parse_frame : StartupRequest.parse frame = .ok (.startup startup) := by decide +kernel

def cleartext : Authenticator :=
  ⟨(CleartextPassword.mk fun _ password => .ok (password == ascii "secret")).authenticate, true⟩

def serve : Io (Option PgClient) := PgSession.serve cleartext none frame

def messages : List RawMessage := [RawMessage.build Tag.passwordMessage (ascii "secret\x00")]

def client : PgClient := ⟨startup, startup.negotiatedVersion, none, .terminated .trust⟩

theorem serve_ok : (serve.feed messages).2.1 = some (.ok (some client)) := by
  have hmajor : ¬ startup.protocolMajor ≠ 3 := by decide
  have hneg : mustNegotiate startup = false := by decide +kernel
  have hpw : (passwordBytes (ascii "secret\x00") == ascii "secret") = true := by decide +kernel
  rw [serve, messages, PgSession.serve, parse_frame]
  simp only [hmajor, ↓reduceIte, negotiate, hneg, Bool.and_false, Bool.false_eq_true, Prog.pure_def,
    cleartext, CleartextPassword.authenticate, ioWrite, ioReadCapped, Prog.send_bind, Prog.recv_bind,
    Prog.ok_bind, Prog.write_bind, Prog.read_bind, Prog.feed, RawMessage.tag_build, ne_eq,
    not_true_eq_false, RawMessage.payload_build, Prog.lift_ok_bind, hpw]
  rfl

theorem session : Runs serve (serve.feed messages).1 (some (.ok (some client))) :=
  Prog.runs_of_feed serve_ok

theorem not_npv (ctx : AuthContext) : (cleartext.authenticate ctx).Writes NotNpv :=
  CleartextPassword.no_npv _ ctx

/-- A backend of protocol 3.0 and one of protocol 3.2. -/
def oldBackend : PgBackend := ⟨0, fun _ => false⟩

def newBackend : PgBackend := ⟨2, fun _ => false⟩

end Sample

/-- The second backend starts up as it should. -/
theorem one_authority_of_newBackend :
    OneAuthority Sample.environment .trust Sample.newBackend Sample.client
      ((Sample.serve.feed Sample.messages).1.filterMap Event.written) :=
  (@one_authority_iff Sample.environment Sample.cleartext rfl Sample.not_npv none Sample.frame
    (Sample.serve.feed Sample.messages).1 Sample.client Sample.session .trust Sample.newBackend).mpr (by decide +kernel)

/-- The first one does not, in the pool or behind the relay. -/
theorem not_oneAuthority_of_oldBackend :
    ¬ OneAuthority Sample.environment (.pool fun _ _ => .ok none) Sample.oldBackend Sample.client
      ((Sample.serve.feed Sample.messages).1.filterMap Event.written) ∧
    ¬ OneAuthority Sample.environment .trust Sample.oldBackend Sample.client
      ((Sample.serve.feed Sample.messages).1.filterMap Event.written) := by
  have hb : Sample.oldBackend.negotiates Sample.client.startup = true := by decide +kernel
  have h := fun p => @session_not_oneAuthority Sample.environment Sample.cleartext rfl Sample.not_npv
    none Sample.frame (Sample.serve.feed Sample.messages).1 Sample.client Sample.session p Sample.oldBackend hb
  exact ⟨h _, h _⟩

end RamaPg.Proxy
