import RamaPg.Lib.Sequence
import RamaPg.Pool.Connector
import RamaPg.Protocol.RoundTrip
import RamaPg.Proxy.Custom
import RamaPg.Scram.Interop

/-!
# The connector logs in to a session

`PgConnector::serve` as a program over a stream, and what it does with the messages of a backend
agrees with the list model. Then the connector of one proxy against the client session of another:
`PgSession::serve` with a terminating authenticator, and a forwarder that synthesizes the startup
completion. The two are a net of two byte queues, so every order of their steps is covered.

A program has no endless loops; `rounds` bounds each of the connector's two.
-/

namespace RamaPg.Pool

open RamaPg.Lib RamaPg.Codec RamaPg.Startup RamaPg.Scram RamaPg.Proxy

/-! ## The connector as a program -/

/-- What the connector captures. -/
structure Captured where
  params : List Bytes
  cancelKey : Option CancelKey
  deriving DecidableEq

def outOfRounds : BoxError := .text "out of rounds"

section

variable (b64 : Base64) (sha256 : Bytes → Key)

/-- The authentication loop on one message; `again` goes round once more, with the number of SASL
exchanges so far. -/
def answerAuth (password : Except BoxError Bytes) (draw : Nat → Vector UInt8 18) (k : Nat)
    (m : RawMessage) (again : Bytes → Nat → Io Unit) : Io Unit :=
  if m.tag = Tag.authentication then
    if authSubtype m = Auth.ok then return ()
    else if authSubtype m = Auth.cleartextPassword then do
      let password ← Prog.lift password
      ioWrite (frame Tag.passwordMessage (password ++ [0]))
      again password k
    else if authSubtype m = Auth.sasl then do
      let password ← Prog.lift password
      authenticatePassword b64 sha256 m password (draw k)
      again password (k + 1)
    else if authSubtype m = Auth.md5Password then
      Prog.lift (.error (.text ("pool backend requested md5 auth; only trust, " ++
        "cleartext, and scram-sha-256 are supported")))
    else Prog.lift (.error (.text
      s!"pool backend requested unsupported authentication type {authSubtype m}"))
  else if m.tag = Tag.errorResponse then
    Prog.lift (.error (.text "pool backend rejected authentication"))
  else Prog.lift (.error (.text
    s!"unexpected backend message during auth: tag {charDebug m.tag}"))

section

variable {password : Except BoxError Bytes} {draw : Nat → Vector UInt8 18} {k : Nat}
  {m : RawMessage} {again : Bytes → Nat → Io Unit}

theorem answerAuth_ok (htag : m.tag = Tag.authentication) (hsub : authSubtype m = Auth.ok) :
    answerAuth b64 sha256 password draw k m again = return () := by
  rw [answerAuth, if_pos htag, if_pos hsub]

theorem answerAuth_cleartext (htag : m.tag = Tag.authentication)
    (hsub : authSubtype m = Auth.cleartextPassword) :
    answerAuth b64 sha256 password draw k m again = (do
      let password ← Prog.lift password
      ioWrite (frame Tag.passwordMessage (password ++ [0]))
      again password k) := by
  rw [answerAuth, if_pos htag, hsub, if_neg (by decide), if_pos rfl]

theorem answerAuth_sasl (htag : m.tag = Tag.authentication) (hsub : authSubtype m = Auth.sasl) :
    answerAuth b64 sha256 password draw k m again = (do
      let password ← Prog.lift password
      authenticatePassword b64 sha256 m password (draw k)
      again password (k + 1)) := by
  rw [answerAuth, if_pos htag, hsub, if_neg (by decide), if_neg (by decide), if_pos rfl]

theorem answerAuth_error (htag : m.tag = Tag.errorResponse) :
    answerAuth b64 sha256 password draw k m again =
      Prog.lift (.error (.text "pool backend rejected authentication")) := by
  rw [answerAuth, if_neg (by rw [htag]; decide), if_pos htag]

end

def authLoop (password : Except BoxError Bytes) (draw : Nat → Vector UInt8 18) :
    Nat → Nat → Io Unit
  | 0, _ => Prog.lift (.error outOfRounds)
  | rounds + 1, k => do
    let m ← ioRead
    answerAuth b64 sha256 password draw k m fun password k => authLoop (.ok password) draw rounds k

end

/-- The post-authentication loop. -/
def statusLoop : Nat → List Bytes → Option CancelKey → Io Captured
  | 0, _, _ => Prog.lift (.error outOfRounds)
  | rounds + 1, params, key => do
    let m ← ioRead
    if m.tag = Tag.parameterStatus then statusLoop rounds (params ++ [m.asBytes]) key
    else if m.tag = Tag.backendKeyData then statusLoop rounds params (some ⟨m.payload⟩)
    else if m.tag = Tag.readyForQuery then return ⟨params, key⟩
    else if m.tag = Tag.errorResponse then
      Prog.lift (.error (.text "pool backend rejected startup"))
    else statusLoop rounds params key

/-- `PgConnector::serve` behind its transport. -/
def PgConnector.login (b64 : Base64) (sha256 : Bytes → Key) (credentials : BackendCredentials)
    (draw : Nat → Vector UInt8 18) (req : BackendRequest) (rounds : Nat) : Io Captured := do
  ioWrite req.startup
  authLoop b64 sha256 (backendPassword credentials req) draw rounds 0
  statusLoop rounds [] none

/-! ## Agreement with the list model -/

section

variable {b64 : Base64} {sha256 : Bytes → Key} {password : Except BoxError Bytes}
  {draw : Nat → Vector UInt8 18}

theorem statusLoop_feed : ∀ {ms : List RawMessage} {rounds : Nat}, ms.length < rounds →
    ∀ (params : List Bytes) (key : Option CancelKey),
    ((statusLoop rounds params key).feed ms).1.filterMap Event.written = [] ∧
    ((statusLoop rounds params key).feed ms).2.1 = (postAuth ms).map fun r => r.map fun e =>
      ⟨params ++ e.params, e.cancelKey.or key⟩
  | [], rounds + 1, _, params, key => ⟨rfl, rfl⟩
  | m :: ms, rounds + 1, h, params, key => by
    have hlt : ms.length < rounds := Nat.lt_of_succ_lt_succ h
    rw [statusLoop, ioRead, ioReadCapped, Prog.recv_bind, Prog.feed, postAuth]
    simp only [List.filterMap_cons, Event.written]
    split
    · obtain ⟨hw, hr⟩ := statusLoop_feed hlt (params ++ [m.asBytes]) key
      refine ⟨hw, ?_⟩
      rw [hr]
      rcases postAuth ms with - | (e | e) <;> simp [Except.map]
    · split
      · obtain ⟨hw, hr⟩ := statusLoop_feed hlt params (some ⟨m.payload⟩)
        refine ⟨hw, ?_⟩
        rw [hr]
        rcases postAuth ms with - | (e | e) <;> simp [Except.map]
      · split
        · exact ⟨rfl, by simp [Prog.pure_def, Prog.feed, Except.map]⟩
        · split
          · exact ⟨rfl, rfl⟩
          · exact statusLoop_feed hlt params key

/-- What a loop over `ms` did, as the list model has it. -/
def LoopAgrees (p : Io Unit) (ms : List RawMessage) (c : Connecting (List RawMessage)) : Prop :=
  (p.feed ms).1.filterMap Event.written = c.toBackend ∧
  (p.feed ms).2.1 = c.result.map (·.map fun _ => ()) ∧
  ∀ rest, c.result = some (.ok rest) → (p.feed ms).2.2 = rest

variable {ms rest : List RawMessage} {c : Connecting (List RawMessage)}

theorem LoopAgrees.error (e : BoxError) :
    LoopAgrees (Prog.lift (.error e)) ms (.stop (some (.error e))) := by
  refine ⟨rfl, rfl, ?_⟩
  intro rest h
  cases h

theorem LoopAgrees.sent {bs : Bytes} {p : Io Unit} (h : LoopAgrees p ms c) :
    LoopAgrees (.write bs p) ms (c.after [bs]) := by
  obtain ⟨hw, hr, hrest⟩ := h
  exact ⟨congrArg (bs :: ·) hw, hr, hrest⟩

/-- The loop goes on behind a part that succeeds, and ends with one that does not. -/
theorem LoopAgrees.bind {p : Io Unit} {f : Unit → Io Unit} {es : List (Event Int RawMessage)}
    (hp : p.feed ms = (es, some (.ok ()), rest)) (h : LoopAgrees (f ()) rest c) :
    LoopAgrees (p >>= f) ms (c.after (es.filterMap Event.written)) := by
  obtain ⟨hw, hr, hrest⟩ := h
  rw [LoopAgrees, Prog.feed_bind, hp]
  refine ⟨?_, hr, hrest⟩
  rw [List.filterMap_append, hw]
  rfl

theorem LoopAgrees.bind_error {p : Io Unit} {f : Unit → Io Unit} {es : List (Event Int RawMessage)}
    {e : BoxError} (hp : p.feed ms = (es, some (.error e), rest)) :
    LoopAgrees (p >>= f) ms ((Connecting.stop (some (.error e))).after
      (es.filterMap Event.written)) := by
  rw [LoopAgrees, Prog.feed_bind, hp]
  exact ⟨(List.append_nil _).symm, rfl, by intro rest h; cases h⟩

theorem LoopAgrees.bind_none {p : Io Unit} {f : Unit → Io Unit} {es : List (Event Int RawMessage)}
    (hp : p.feed ms = (es, none, rest)) :
    LoopAgrees (p >>= f) ms ((Connecting.stop none).after (es.filterMap Event.written)) := by
  rw [LoopAgrees, Prog.feed_bind, hp]
  exact ⟨(List.append_nil _).symm, rfl, by intro rest h; cases h⟩

theorem LoopAgrees.round {k rounds : Nat} {m : RawMessage}
    (h : LoopAgrees (answerAuth b64 sha256 password draw k m fun password k =>
      authLoop b64 sha256 (.ok password) draw rounds k) ms c) :
    LoopAgrees (authLoop b64 sha256 password draw (rounds + 1) k) (m :: ms) c := h

/-- The two models of the authentication loop. -/
theorem authLoop_feed (ms : List RawMessage) (k : Nat) : ∀ {rounds : Nat}, ms.length ≤ rounds →
    LoopAgrees (authLoop b64 sha256 password draw (rounds + 1) k) ms
      (authPhase b64 sha256 password draw k ms) := by
  fun_induction authPhase b64 sha256 password draw k ms with
  | case1 password k =>
    intro rounds _
    exact ⟨rfl, rfl, by intro rest h; cases h⟩
  | case2 password k m ms htag hok =>
    intro rounds _
    apply LoopAgrees.round
    rw [answerAuth_ok _ _ htag hok]
    exact ⟨rfl, rfl, by rintro rest ⟨⟩; rfl⟩
  | case3 k m ms htag hok hclear e =>
    intro rounds _
    apply LoopAgrees.round
    rw [answerAuth_cleartext _ _ htag hclear]
    exact .error e
  | case4 k m ms htag hok hclear password ih =>
    rintro (- | rounds) hle
    · cases hle
    apply LoopAgrees.round
    rw [answerAuth_cleartext _ _ htag hclear]
    exact .sent (ih (Nat.le_of_succ_le_succ hle))
  | case5 k m ms htag hok hclear hsasl e =>
    intro rounds _
    apply LoopAgrees.round
    rw [answerAuth_sasl _ _ htag hsasl]
    exact .error e
  | case6 k m ms htag hok hclear hsasl password es u left hf ih =>
    rintro (- | rounds) hle
    · cases hle
    apply LoopAgrees.round
    rw [answerAuth_sasl _ _ htag hsasl]
    have hs := Prog.feed_suffix (authenticatePassword b64 sha256 m password (draw k)) ms
    rw [hf] at hs
    exact .bind hf (ih (hs.length_le.trans (Nat.le_of_succ_le_succ hle)))
  | case7 k m ms htag hok hclear hsasl password es e left hf =>
    intro rounds _
    apply LoopAgrees.round
    rw [answerAuth_sasl _ _ htag hsasl]
    exact .bind_error hf
  | case8 k m ms htag hok hclear hsasl password es left hf =>
    intro rounds _
    apply LoopAgrees.round
    rw [answerAuth_sasl _ _ htag hsasl]
    exact .bind_none hf
  | case9 password k m ms htag hok hclear hsasl hmd5 =>
    intro rounds _
    apply LoopAgrees.round
    rw [answerAuth, if_pos htag, if_neg hok, if_neg hclear, if_neg hsasl, if_pos hmd5]
    exact .error _
  | case10 password k m ms htag hok hclear hsasl hmd5 =>
    intro rounds _
    apply LoopAgrees.round
    rw [answerAuth, if_pos htag, if_neg hok, if_neg hclear, if_neg hsasl, if_neg hmd5]
    exact .error _
  | case11 password k m ms htag herr =>
    intro rounds _
    apply LoopAgrees.round
    rw [answerAuth_error _ _ herr]
    exact .error _
  | case12 password k m ms htag herr =>
    intro rounds _
    apply LoopAgrees.round
    rw [answerAuth, if_neg htag, if_neg herr]
    exact .error _

/-- **The connector.** As a program it writes and returns what the list model has, on all messages
of a backend. -/
theorem PgConnector.login_feed (credentials : BackendCredentials) (req : BackendRequest)
    {ms : List RawMessage} {rounds : Nat} (h : ms.length < rounds) :
    ((PgConnector.login b64 sha256 credentials draw req rounds).feed ms).1.filterMap
        Event.written = (PgConnector.serve b64 sha256 credentials draw req ms).toBackend ∧
    ((PgConnector.login b64 sha256 credentials draw req rounds).feed ms).2.1 =
      (PgConnector.serve b64 sha256 credentials draw req ms).result.map fun r =>
        r.map fun e => ⟨e.params, e.cancelKey⟩ := by
  obtain ⟨n, rfl⟩ := Nat.exists_eq_succ_of_ne_zero (Nat.ne_of_gt (Nat.zero_lt_of_lt h))
  obtain ⟨hw, hr, hrest⟩ := @authLoop_feed b64 sha256 (backendPassword credentials req) draw ms 0 n
    (Nat.le_of_lt_succ h)
  have hsuff := Prog.feed_suffix
    (authLoop b64 sha256 (backendPassword credentials req) draw (n + 1) 0) ms
  simp only [PgConnector.login, ioWrite, Prog.send_bind, Prog.feed, Prog.feed_bind,
    PgConnector.serve, List.filterMap_cons, Event.written]
  cases hf : (authLoop b64 sha256 (backendPassword credentials req) draw (n + 1) 0).feed ms with
  | mk es tail =>
    obtain ⟨r, left⟩ := tail
    rw [hf] at hw hr hrest hsuff
    simp only at hw hr hrest hsuff
    rcases hres : (authPhase b64 sha256 (backendPassword credentials req) draw 0 ms).result with
      - | (e | rest) <;> rw [hres] at hr hrest <;> obtain rfl := hr
    · exact ⟨congrArg (req.startup :: ·) hw, rfl⟩
    · exact ⟨congrArg (req.startup :: ·) hw, rfl⟩
    · obtain rfl := hrest rest rfl
      obtain ⟨hw', hr'⟩ := @statusLoop_feed left (n + 1) (hsuff.length_le.trans_lt h) [] none
      simp only [Option.map_some, Except.map, List.nil_append, Option.or_none] at hr' ⊢
      refine ⟨?_, hr'⟩
      rw [List.filterMap_append, hw, hw', List.append_nil]

end

/-! ## The session it meets -/

/-- The reads of a session: the startup frame, then messages. -/
inductive Ask where
  | startup
  | message (maxLen : Int)
  deriving DecidableEq

theorem startupPacket_wf {a b c d : UInt8} {body : Bytes} {len : Int} (h : 8 ≤ len)
    (hle : (len - 4).toNat ≤ body.length) :
    5 ≤ (a :: b :: c :: d :: body.take (len - 4).toNat).length := by
  simp only [List.length_cons, List.length_take]
  omega

/-- What `read_startup_frame` returns on the bytes that have come, `none` while it waits. -/
def receivedStartup : Bytes → Option (Except BoxError RawMessage × Bytes)
  | a :: b :: c :: d :: body =>
    let len := i32OfBe a b c d
    if h : 8 ≤ len ∧ len ≤ maxStartupPacketLen then
      if hle : (len - 4).toNat ≤ body.length then
        some (.ok ⟨a :: b :: c :: d :: body.take (len - 4).toNat, startupPacket_wf h.1 hle⟩,
          body.drop (len - 4).toNat)
      else none
    else some (.error (.io (invalid s!"invalid startup packet length: {len}")), body)
  | _ => none

/-- A stream on which a session reads its startup frame and then messages. -/
def receivedFrame : Receive Ask RawMessage BoxError
  | .startup, bs => receivedStartup bs
  | .message maxLen, bs => received maxLen bs

theorem receivedFrame_stable : receivedFrame.Stable := by
  intro q bs r rest more h
  cases q with
  | message maxLen => exact received_stable maxLen bs r rest more h
  | startup =>
    match bs, h with
    | a :: b :: c :: d :: body, h =>
      simp only [receivedFrame, receivedStartup, List.cons_append] at h ⊢
      split at h
      · rename_i hlen
        split at h
        · rename_i hle
          cases h
          rw [dif_pos hlen, dif_pos (by rw [List.length_append]; omega)]
          simp only [List.take_append_of_le_length hle, List.drop_append_of_le_length hle]
        · cases h
      · rename_i hlen
        cases h
        rw [dif_neg hlen]

/-- It is what `read_startup_frame` returns. -/
theorem receivedFrame_startup {stream frame rest : Bytes}
    (h : readStartupFrame stream = (.ok frame, rest)) :
    ∃ m : RawMessage, m.frame = frame ∧ receivedFrame .startup stream = some (.ok m, rest) := by
  unfold readStartupFrame at h
  split at h
  · rename_i a b c d body
    simp only at h
    split at h
    · rename_i hlen
      split at h
      · rename_i hle
        cases h
        refine ⟨⟨_, startupPacket_wf hlen.1 hle⟩, rfl, ?_⟩
        simp only [receivedFrame, receivedStartup]
        rw [dif_pos hlen, dif_pos hle]
      · cases h
    · cases h
  · cases h

/-- A forwarder that completes the startup itself. -/
def completeStartup (params : List Bytes) (key : Bytes) :
    Option PgClient → Io (Option PgClient)
  | none => return none
  | some client => Prog.sendAll (synthesizeStartup params key) (return some client)

/-- `PgSession::serve` and the start of its forwarder. -/
def serveSession (auth : Authenticator) (sni : Option Bytes) (params : List Bytes) (key : Bytes) :
    Prog Ask RawMessage BoxError (Option PgClient) := do
  let m ← Prog.recv .startup
  (PgSession.serve auth sni m.asBytes >>= completeStartup params key).ask .message

/-! ## Authentication -/

section

variable (b64 : Base64) (sha256 : Bytes → Key)

/-- The authenticator knows the user by this password; `draw` is the connector's nonce. -/
inductive Admits (password : Bytes) (draw : Vector UInt8 18) :
    Authenticator → AuthContext → ClientAuth → Prop where
  | cleartext {auth : CleartextPassword} {ctx : AuthContext}
      (hvalid : auth.validate ctx password = .ok true) (hnul : 0 ∉ password)
      (hlen : ((password.length + 5 : Nat) : Int) ≤ maxAuthMessageLen) :
      Admits password draw ⟨auth.authenticate, true⟩ ctx (.terminated .trust)
  | scram {auth : ScramSha256} {ctx : AuthContext} {draws : Draws} {salt : Bytes}
      {iterations : UInt32}
      (hstore : auth.store (ScramSha256.lookup ctx) =
        .ok (some (ScramSecret.fromPassword sha256 password salt iterations)))
      (hfit : Fits (serverFirst b64 (randomNonce b64 draw ++ randomNonce b64 draws.nonce)
        (ScramSecret.fromPassword sha256 password salt iterations))) :
      Admits password draw ⟨fun ctx => auth.authenticate b64 sha256 ctx draws, true⟩ ctx
        (.terminated (.scram (ScramKeys.fromPassword sha256 password salt iterations)))

end

section

variable {b64 : Base64} {sha256 : Bytes → Key}

theorem authSubtype_build {n : Nat} (h : n < 2 ^ 31) (data : Bytes) :
    authSubtype (RawMessage.build Tag.authentication (i32ToBe n ++ data)) = n := by
  rw [authSubtype, RawMessage.payload_build, subtypeOf_i32ToBe h, Option.getD_some]

theorem passwordBytes_nul {password : Bytes} (h : 0 ∉ password) :
    passwordBytes (password ++ [0]) = password := by
  rw [passwordBytes, splitOnce_append h]

/-- The connector's loop takes one round to authenticate. -/
theorem Admits.login {password : Bytes} {draw : Nat → Vector UInt8 18} {auth : Authenticator}
    {ctx : AuthContext} {outcome : ClientAuth}
    (h : Admits b64 sha256 password (draw 0) auth ctx outcome) (rounds : Nat) {α β : Type}
    (f : Unit → Io α) (g : ClientAuth → Io β) :
    ∃ k, Net.Reaches received
      ⟨authLoop b64 sha256 (.ok password) draw (rounds + 1) 0 >>= f, auth.authenticate ctx >>= g,
        [], []⟩
      ⟨authLoop b64 sha256 (.ok password) draw rounds k >>= f, g outcome, [], []⟩ := by
  cases h with
  | @cleartext auth ctx hvalid hnul hlen =>
    refine ⟨0, ?_⟩
    have hreq : received maxMessageLen authenticationCleartextPassword = some (.ok
        (RawMessage.build Tag.authentication (i32ToBe Auth.cleartextPassword)), []) :=
      received_frame (by decide) (by decide)
    have hsub : authSubtype (RawMessage.build Tag.authentication (i32ToBe Auth.cleartextPassword)) =
        Auth.cleartextPassword := by decide
    have hpw : received maxAuthMessageLen (frame Tag.passwordMessage (password ++ [0])) = some (.ok
        (RawMessage.build Tag.passwordMessage (password ++ [0])), []) :=
      received_frame (by rwa [List.length_append]) (by decide)
    simp only [CleartextPassword.authenticate, ioWrite, ioReadCapped, Prog.send_bind,
      Prog.recv_bind, Prog.write_bind, Prog.read_bind, authLoop, ioRead]
    refine (Net.pass_left _ _ hreq).trans ?_
    rw [answerAuth_cleartext _ _ rfl hsub]
    refine (Net.pass_right _ _ hpw).trans ?_
    simp only [RawMessage.tag_build, ne_eq, not_true_eq_false, ↓reduceIte,
      RawMessage.payload_build, passwordBytes_nul hnul, hvalid, Prog.lift_ok_bind]
    exact .refl _
  | @scram auth ctx draws salt iterations hstore hfit =>
    refine ⟨1, ?_⟩
    have hends := @exchange_ends b64 sha256 auth
      (ScramSecret.fromPassword sha256 password salt iterations) _
      (ScramKeys.fromPassword sha256 password) rfl rfl rfl rfl (draw 0) draws.nonce hfit
    have hsub : authSubtype (RawMessage.build Tag.authentication
        (i32ToBe Auth.sasl ++ (offered auth.channelBinding).flatMap (· ++ [0]) ++ [0])) =
          Auth.sasl := by
      rw [List.append_assoc]
      exact authSubtype_build (n := 10) (by decide) _
    simp only [authenticate_known b64 hstore]
    simp only [ScramSha256.exchange, ioWrite, ioRead, ioReadCapped, Prog.send_bind, Prog.recv_bind,
      Prog.write_bind, Prog.read_bind, authLoop] at hends ⊢
    refine (Net.pass_left _ _ (received_sasl auth.channelBinding)).trans ?_
    rw [answerAuth_sasl _ _ rfl hsub, Prog.lift_ok_bind, Prog.bind_assoc]
    exact (hends.reaches (Net.pass_left _ _ (received_sasl auth.channelBinding))).bind _ g

/-! ## Startup completion -/

/-- The connector has the password, and its startup frame is one a session accepts without
negotiating. -/
structure Opens (credentials : BackendCredentials) (req : BackendRequest) (password : Bytes)
    (m : StartupMessage) : Prop where
  password : credentials req.user req.database = .ok (some password)
  frame : readStartupFrame req.startup = (.ok req.startup, [])
  parse : StartupRequest.parse req.startup = .ok (.startup m)
  major : m.protocolMajor = 3
  settled : mustNegotiate m = false

/-- Behind the startup frame the login is the authentication and the completion. -/
theorem Opens.ends {credentials : BackendCredentials} {req : BackendRequest} {password : Bytes}
    {m : StartupMessage} (h : Opens credentials req password m) {draw : Nat → Vector UInt8 18}
    {auth : Authenticator} {sni : Option Bytes} {params : List Bytes} {key : Bytes} {rounds : Nat}
    {a : Except BoxError Captured} {b : Except BoxError (Option PgClient)}
    (hrun : Net.Reaches received
      ⟨authLoop b64 sha256 (.ok password) draw rounds 0 >>= fun _ => statusLoop rounds [] none,
        auth.authenticate ⟨m, sni⟩ >>= fun outcome =>
          completeStartup params key (some ⟨m, m.negotiatedVersion, sni, outcome⟩), [], []⟩
      ⟨.done a, .done b, [], []⟩) :
    Net.Ends receivedFrame
      ⟨(PgConnector.login b64 sha256 credentials draw req rounds).ask .message,
        serveSession auth sni params key, [], []⟩ a b := by
  obtain ⟨raw, hraw, hstart⟩ := receivedFrame_startup h.frame
  have hpw : backendPassword credentials req = .ok password := by rw [backendPassword, h.password]
  have hsession : PgSession.serve auth sni raw.asBytes >>= completeStartup params key =
      auth.authenticate ⟨m, sni⟩ >>= fun outcome =>
        completeStartup params key (some ⟨m, m.negotiatedVersion, sni, outcome⟩) := by
    rw [RawMessage.asBytes, hraw, PgSession.serve, h.parse]
    simp only [h.major, ne_eq, not_true_eq_false, ↓reduceIte, negotiate, h.settled, Bool.and_false,
      Bool.false_eq_true, Prog.pure_def, Prog.ok_bind, Prog.bind_assoc]
  have hrec : ∀ q bs, receivedFrame (.message q) bs = received q bs := fun _ _ => rfl
  refine Net.Reaches.ends receivedFrame_stable ?_
  rw [PgConnector.login, ioWrite, Prog.send_bind, Prog.ask, serveSession, Prog.recv_bind]
  refine (Net.pass_right _ _ hstart).trans ?_
  rw [hsession, hpw]
  exact hrun.ask hrec

/-- The message both sides sign when the connector answers with these nonces and this verifier. -/
def signedMessage (b64 : Base64) (client server : Vector UInt8 18) (secret : ScramSecret) : Bytes :=
  let nonce := randomNonce b64 client ++ randomNonce b64 server
  authMessage (clientFirstBare (randomNonce b64 client)) (serverFirst b64 nonce secret)
    (clientFinalWithoutProof b64 nonce)

/-- The client key a verifier's owner recovers from the proof of a password. -/
def recoveredKey (sha256 : Bytes → Key) (password : Bytes) (secret : ScramSecret)
    (message : Bytes) : Key :=
  let keys := ScramKeys.fromPassword sha256 password secret.salt secret.iterations
  recoverClientKey (clientProof keys.clientKey (hmacSha256 sha256 keys.storedKey.toList message))
    (hmacSha256 sha256 secret.storedKey.toList message)

/-- The authenticator does not know the user by this password; the errors of the connector and of
the session. -/
inductive Refuses (b64 : Base64) (sha256 : Bytes → Key) (password : Bytes) (draw : Vector UInt8 18) :
    Authenticator → AuthContext → BoxError → BoxError → Prop where
  | cleartext {auth : CleartextPassword} {ctx : AuthContext}
      (hvalid : auth.validate ctx password = .ok false) (hnul : 0 ∉ password)
      (hlen : ((password.length + 5 : Nat) : Int) ≤ maxAuthMessageLen) :
      Refuses b64 sha256 password draw ⟨auth.authenticate, true⟩ ctx
        (.text "pool backend rejected authentication") (.text "password authentication failed")
  | scram {auth : ScramSha256} {ctx : AuthContext} {draws : Draws} {answer : Option ScramSecret}
      (hstore : auth.store (ScramSha256.lookup ctx) = .ok answer)
      (hproof : ∀ secret, answer = some secret → sha256 (recoveredKey sha256 password secret
        (signedMessage b64 draw draws.nonce secret)).toList ≠ secret.storedKey)
      (hfit : Fits (serverFirst b64 (randomNonce b64 draw ++ randomNonce b64 draws.nonce)
        (answer.getD (mockSecret draws)))) :
      Refuses b64 sha256 password draw
        ⟨fun ctx => auth.authenticate b64 sha256 ctx draws, true⟩ ctx
        (.text "backend: expected AuthenticationSASLFinal, got tag 'E'")
        (.text "scram: client proof verification failed")

/-- The server turns down a proof that does not recover the client key. -/
theorem checkFinal_refused {known : Bool} {password : Bytes} {secret : ScramSecret} {nonce : Bytes}
    (first : ClientFirst) (challenge : Bytes) (h : Plain nonce)
    (hproof : ¬ (known = true ∧ sha256 (recoveredKey sha256 password secret
      (authMessage first.bare challenge (clientFinalWithoutProof b64 nonce))).toList =
        secret.storedKey)) :
    checkFinal b64 sha256 known secret first (ascii "n,,") nonce challenge
      (RawMessage.build Tag.passwordMessage (clientFinal b64 sha256
        (ScramKeys.fromPassword sha256 password secret.salt secret.iterations) nonce
        (authMessage first.bare challenge (clientFinalWithoutProof b64 nonce)))) =
      denied "scram: client proof verification failed" := by
  rw [checkFinal]
  simp only [expectSasl, RawMessage.tag_build, ↓reduceIte, RawMessage.payload_build,
    isUtf8_of_isAscii (isAscii_clientFinal b64 sha256 _ h _),
    parseClientFinal_client b64 sha256 _ h, orFail, bind, Except.bind, decode64,
    b64.decode_encode, checkProof, toKey_toList]
  simp only [recoveredKey] at hproof
  rw [if_neg hproof]
  rfl

/-- The failure a session shows is an error message. -/
theorem received_authFailed : ∃ m : RawMessage, m.tag = Tag.errorResponse ∧
    received maxMessageLen authFailed = some (.ok m, []) :=
  ⟨_, rfl, received_frame (by decide) (by decide)⟩

/-- A refused dialogue ends with both errors, whatever was to follow. -/
theorem Refuses.login {password : Bytes} {draw : Nat → Vector UInt8 18} {auth : Authenticator}
    {ctx : AuthContext} {e e' : BoxError}
    (h : Refuses b64 sha256 password (draw 0) auth ctx e e') (rounds : Nat) {α β : Type}
    (f : Unit → Io α) (g : ClientAuth → Io β) :
    Net.Reaches received
      ⟨authLoop b64 sha256 (.ok password) draw (rounds + 2) 0 >>= f, auth.authenticate ctx >>= g,
        [], []⟩ ⟨.done (.error e), .done (.error e'), [], []⟩ := by
  obtain ⟨refusal, hrefusal, hfailed⟩ := received_authFailed
  cases h with
  | @cleartext auth ctx hvalid hnul hlen =>
    have hreq : received maxMessageLen authenticationCleartextPassword = some (.ok
        (RawMessage.build Tag.authentication (i32ToBe Auth.cleartextPassword)), []) :=
      received_frame (by decide) (by decide)
    have hsub : authSubtype (RawMessage.build Tag.authentication (i32ToBe Auth.cleartextPassword)) =
        Auth.cleartextPassword := by decide
    have hpw : received maxAuthMessageLen (frame Tag.passwordMessage (password ++ [0])) = some (.ok
        (RawMessage.build Tag.passwordMessage (password ++ [0])), []) :=
      received_frame (by rwa [List.length_append]) (by decide)
    simp only [CleartextPassword.authenticate, ioWrite, ioReadCapped, Prog.send_bind,
      Prog.recv_bind, Prog.write_bind, Prog.read_bind, authLoop, ioRead]
    refine (Net.pass_left _ _ hreq).trans ?_
    rw [answerAuth_cleartext _ _ rfl hsub]
    refine (Net.pass_right _ _ hpw).trans ?_
    simp only [RawMessage.tag_build, ne_eq, not_true_eq_false, ↓reduceIte,
      RawMessage.payload_build, passwordBytes_nul hnul, hvalid, Prog.lift_ok_bind,
      Bool.false_eq_true]
    refine (Net.pass_left _ _ hfailed).trans ?_
    simp only [answerAuth_error b64 sha256 hrefusal]
    exact .refl _
  | @scram auth ctx draws answer hstore hproof hfit =>
    obtain ⟨secret, hsecret⟩ : ∃ s, s = answer.getD (mockSecret draws) := ⟨_, rfl⟩
    have hc := plain_randomNonce b64 (draw 0)
    have hs := plain_randomNonce b64 draws.nonce
    have hlen : (randomNonce b64 (draw 0) ++ randomNonce b64 draws.nonce).length = 48 := by
      rw [List.length_append, length_randomNonce, length_randomNonce]
    have hsub : authSubtype (RawMessage.build Tag.authentication
        (i32ToBe Auth.sasl ++ (offered auth.channelBinding).flatMap (· ++ [0]) ++ [0])) =
          Auth.sasl := by
      rw [List.append_assoc]
      exact authSubtype_build (n := 10) (by decide) _
    have hknown : ¬ (answer.isSome = true ∧ sha256 (recoveredKey sha256 password secret
        (signedMessage b64 (draw 0) draws.nonce secret)).toList = secret.storedKey) := by
      rintro ⟨hsome, heq⟩
      obtain ⟨known, rfl⟩ := Option.isSome_iff_exists.mp hsome
      rw [Option.getD_some] at hsecret
      subst hsecret
      exact hproof secret rfl heq
    have hfinal := @checkFinal_refused b64 sha256 _ _ _ _ ⟨ascii "n,,", clientFirstBare (randomNonce b64 (draw 0)),
      randomNonce b64 (draw 0), .n, none⟩
      (serverFirst b64 (randomNonce b64 (draw 0) ++ randomNonce b64 draws.nonce) secret)
      (hc.append hs) hknown
    have hexp : expectAuth refusal Auth.saslFinal "AuthenticationSASLFinal" =
        .error (.text "backend: expected AuthenticationSASLFinal, got tag 'E'") := by
      rw [expectAuth, if_neg (by rw [hrefusal]; decide), hrefusal]
      rfl
    rw [← hsecret] at hfit
    simp only [ScramSha256.authenticate, hstore, Prog.lift_ok_bind, ← hsecret, ScramSha256.exchange,
      ioWrite, ioRead, ioReadCapped, Prog.send_bind, Prog.recv_bind, Prog.write_bind,
      Prog.read_bind, authLoop]
    refine (Net.pass_left _ _ (received_sasl auth.channelBinding)).trans ?_
    rw [answerAuth_sasl _ _ rfl hsub]
    simp only [Prog.lift_ok_bind, authenticatePassword, runScram, expectAuth_sasl,
      mechanism_mem_sasl, ↓reduceIte, ioWrite, ioRead, ioReadCapped, Prog.send_bind,
      Prog.recv_bind, Prog.write_bind, Prog.read_bind]
    refine (Net.pass_right _ _ (received_initial b64 (draw 0))).trans ?_
    simp only [checkInitial_client auth.channelBinding hc, checked_ok_bind, Prog.write_bind]
    refine (Net.pass_left _ _ (received_serverFirst hfit)).trans ?_
    simp only [parseChallenge_server b64 hc hs secret, Prog.lift_ok_bind, Prog.write_bind]
    refine (Net.pass_right _ _ (received_clientFinal b64 sha256 _ hlen _)).trans ?_
    simp only [hfinal]
    refine (Net.pass_left _ _ hfailed).trans ?_
    simp only [checkServerFinal, hexp]
    exact .refl _

end

/-! ## A login of the sample user -/

namespace LoginSample

def request : BackendRequest where
  startup := startupMessage [(ascii "user", ascii "alice")]
  user := ascii "alice"
  database := ascii "alice"

/-- `StaticBackendCredentials` with one password. -/
def credentials (password : Bytes) : BackendCredentials :=
  fun user _ => .ok (if user = ascii "alice" then some password else none)

def authenticator : Authenticator :=
  ⟨fun ctx => Scram.Sample.server.authenticate Base64.standard Sha256.hash ctx Scram.Sample.draws, true⟩

def key : Bytes := [0, 0, 0, 7, 1, 2, 3, 4]

/-- A validator with one password. -/
def cleartext : CleartextPassword := ⟨fun _ password => .ok (password == ascii "secret")⟩

end LoginSample

end RamaPg.Pool
