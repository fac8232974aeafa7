import RamaPg.Proxy.Transparency
import RamaPg.Lib.Sha256
import Mathlib.Data.List.Induction

/-!
# A direct session from end to end

The model of `DirectForwarder::serve`: route the client, replay its startup frame, satisfy the
backend's authentication, relay the startup and copy both ways until both sides are done. The
theorem says which bytes of each stream have come out of the other one at any point of any session.
-/

namespace RamaPg.Proxy

open RamaPg.Lib RamaPg.Codec RamaPg.Startup RamaPg.Scram

/-! ## The phases -/

/-- A result of a phase that is still running or whose read failed. -/
def Stalled {α : Type} (r : Option (Except BoxError α)) : Prop :=
  r = none ∨ ∃ e, r = some (.error (.io e))

/-- A program that talks to the backend; each read comes with the chunk bounds of its own reads. -/
def Streams.converse {α : Type} :
    Io α → List (List Nat) → Streams → Option (Except BoxError α) × Streams
  | .done r, _, s => (some r, s)
  | .write bs k, reads, s => Streams.converse k reads (s.sendBackend bs)
  | .read _ _, [], s => (none, s)
  | .read maxLen k, chunks :: reads, s =>
    match readMessageCapped maxLen s.backend chunks with
    | (.pending, rest) => (none, { s with backend := rest })
    | (.done (.error e), rest) => (some (.error (.io e)), { s with backend := rest })
    | (.done (.ok m), rest) => Streams.converse (k m) reads { s with backend := rest }

/-- What happens while both streams are copied. -/
inductive Copying where
  /-- This many bytes of the client reach the backend. -/
  | up (n : Nat)
  | down (n : Nat)
  /-- The client has closed its side. -/
  | clientEnd
  | backendEnd
  | failed (e : IoError)

/-- `copy_bidirectional`: until each side is at its end, or one fails. -/
def Streams.copyBidirectional (clientDone backendDone : Bool) :
    List Copying → Streams → Option (Except BoxError Unit) × Streams
  | [], s => (if clientDone && backendDone then some (.ok ()) else none, s)
  | c :: cs, s =>
    if clientDone && backendDone then (some (.ok ()), s)
    else match c with
    | .up n => Streams.copyBidirectional clientDone backendDone cs
        ({ s with client := s.client.drop n }.sendBackend (s.client.take n))
    | .down n => Streams.copyBidirectional clientDone backendDone cs
        ({ s with backend := s.backend.drop n }.sendClient (s.backend.take n))
    | .clientEnd =>
      Streams.copyBidirectional (clientDone || s.client.isEmpty) backendDone cs s
    | .backendEnd =>
      Streams.copyBidirectional clientDone (backendDone || s.backend.isEmpty) cs s
    | .failed e => (some (.error (.io e)), s)

/-! ## Routing -/

structure Backend where
  address : Bytes
  deriving DecidableEq

/-- `Router`: the routes by SNI, newest first, and the default. -/
structure Router where
  routes : List (Bytes × Backend)
  fallback : Option Backend

namespace Router

def new : Router := ⟨[], none⟩

def withDefault (r : Router) (backend : Backend) : Router := { r with fallback := some backend }

def withRoute (r : Router) (sni : Bytes) (backend : Backend) : Router :=
  { r with routes := (sni, backend) :: r.routes }

def route (r : Router) (sni : Option Bytes) : Option Backend :=
  (sni.bind fun name => r.routes.lookup name).or r.fallback

/-- `Router::serve`, which fails on no client. -/
def serve (r : Router) (client : PgClient) : Except BoxError (Option Backend) :=
  .ok (r.route client.sni)

/-- A call of the builder. -/
inductive Setting where
  | toDefault (backend : Backend)
  | toRoute (sni : Bytes) (backend : Backend)

def set (r : Router) : Setting → Router
  | .toDefault backend => r.withDefault backend
  | .toRoute sni backend => r.withRoute sni backend

/-- The backend a call gives to this name, and the one it gives to the others. -/
def Setting.named (sni : Option Bytes) : Setting → Option Backend
  | .toDefault _ => none
  | .toRoute name backend => if sni = some name then some backend else none

def Setting.fallback : Setting → Option Backend
  | .toDefault backend => some backend
  | .toRoute _ _ => none

/-- Whatever the order of the calls: the last route of this name, or else the last default. -/
theorem route_settings (cs : List Setting) (sni : Option Bytes) :
    (cs.foldl set new).route sni =
      (cs.filterMap (Setting.named sni)).getLast?.or (cs.filterMap Setting.fallback).getLast? := by
  unfold route
  suffices h : (sni.bind fun name => (cs.foldl set new).routes.lookup name) =
      (cs.filterMap (Setting.named sni)).getLast? ∧
      (cs.foldl set new).fallback = (cs.filterMap Setting.fallback).getLast? by rw [h.1, h.2]
  induction cs using List.reverseRecOn with
  | nil => exact ⟨by cases sni <;> rfl, rfl⟩
  | append_singleton cs c ih =>
    obtain ⟨hn, hf⟩ := ih
    rw [List.foldl_append, List.filterMap_append, List.filterMap_append, List.getLast?_append,
      List.getLast?_append, ← hn, ← hf]
    cases c with
    | toDefault backend => exact ⟨rfl, rfl⟩
    | toRoute name backend =>
      refine ⟨?_, rfl⟩
      cases sni with
      | none => rfl
      | some n =>
        by_cases h : n = name
        · subst h
          simp [set, withRoute, Setting.named]
        · have hne : some n ≠ some name := fun e => h (Option.some.inj e)
          simp [set, withRoute, Setting.named, hne, List.lookup_cons, beq_false_of_ne h]

end Router

/-! ## The session -/

/-- `DirectForwarder`: the routing service, and the connector with the bytes that come from the
backend it connects to. -/
structure DirectForwarder (τ : Type) where
  router : PgClient → Except BoxError (Option τ)
  connector : τ → Except BoxError Bytes

/-- What the rest of the world brings to one session. -/
structure DirectEnv where
  b64 : Base64
  sha256 : Bytes → Key
  draw : Vector UInt8 18
  /-- `Cancellation::begin`: the key to advertise, if it issues one. -/
  begin : Except BoxError (Option CancelKey)
  authReads : List (List Nat)
  reads : List (List Nat × List Nat)
  copies : List Copying

/-- Whether the client authenticates with the backend itself. -/
def ClientAuth.interactive : ClientAuth → Bool
  | .passThrough => true
  | .terminated _ => false

/-- What the proxy says to the backend by itself, before the startup is relayed. -/
def DirectEnv.handshake (env : DirectEnv) : ClientAuth → Io Unit
  | .passThrough => pure ()
  | .terminated .trust => pure ()
  | .terminated (.scram keys) => reauthUpstream env.b64 env.sha256 keys env.draw

def noBackend : Bytes :=
  Message.fatalError (ascii "08004") (ascii "rama-pg: no backend configured for this client")

def couldNotReach : Bytes :=
  Message.fatalError (ascii "08006") (ascii "rama-pg: could not reach backend")

/-- From the `match auth` on: only SCRAM has something to say before the relay. -/
def DirectEnv.run (env : DirectEnv) (auth : ClientAuth) (clientKey : Option CancelKey)
    (s : Streams) : Option (Except BoxError Unit) × Streams :=
  match Streams.converse (env.handshake auth) env.authReads s with
  | (some (.ok _), s) =>
    match Streams.relayStartup clientKey auth.interactive env.reads s with
    | (some (.ok _), s) => Streams.copyBidirectional false false env.copies s
    | (r, s) => (r, s)
  | (r, s) => (r, s)

/-- `DirectForwarder::serve` on what the client sends from here on. -/
def DirectForwarder.serve {τ : Type} (f : DirectForwarder τ) (env : DirectEnv) (client : PgClient)
    (input : Bytes) : Option (Except BoxError Unit) × Streams :=
  let s : Streams := ⟨[], input, [], [], none⟩
  match f.router client with
  | .error e => (some (.error e), s)
  | .ok none => (some (.ok ()), s.sendClient noBackend)
  | .ok (some backend) =>
    match f.connector backend with
    | .error _ => (some (.ok ()), s.sendClient couldNotReach)
    | .ok conn =>
      let s := { s with backend := conn }.sendBackend client.startup.frame
      match env.begin with
      | .error e => (some (.error e), s)
      | .ok clientKey => env.run client.auth clientKey s

/-! ## What each phase does -/

/-- A conversation with the backend is the program's run on the messages it read. -/
structure Conversed {α : Type} (p : Io α) (s t : Streams) (r : Option (Except BoxError α))
    (ms : List RawMessage) (rest : Bytes) : Prop where
  backend : s.backend = frames ms ++ rest
  framed : ∀ m ∈ ms, ∃ maxLen, IsFrame maxLen m.frame
  client : t.client = s.client
  toClient : t.toClient = s.toClient
  target : t.target = s.target
  toBackend : t.toBackend =
    s.toBackend ++ ((p.feed ms).1.filterMap Event.written).flatten
  result : (p.feed ms).2 = (r, []) ∧ rest = t.backend ∨ (p.feed ms).2.1 = none ∧ Stalled r

theorem Streams.converse_feed {α : Type} : ∀ (p : Io α) {reads : List (List Nat)} {s t : Streams}
    {r : Option (Except BoxError α)}, Streams.converse p reads s = (r, t) →
    ∃ ms rest, Conversed p s t r ms rest
  | .done res, reads, s, t, r, h => by
    cases h
    exact ⟨[], s.backend, rfl, by simp, rfl, rfl, rfl, by simp [Prog.feed], .inl ⟨rfl, rfl⟩⟩
  | .write bs k, reads, s, t, r, h => by
    obtain ⟨ms, rest, hc⟩ := Streams.converse_feed k h
    refine ⟨ms, rest, hc.backend, hc.framed, hc.client, hc.toClient, hc.target, ?_, hc.result⟩
    rw [hc.toBackend, Prog.feed]
    simp [Streams.sendBackend, Event.written]
  | .read maxLen k, [], s, t, r, h => by
    cases h
    exact ⟨[], s.backend, rfl, by simp, rfl, rfl, rfl, by simp [Prog.feed], .inr ⟨rfl, .inl rfl⟩⟩
  | .read maxLen k, chunks :: reads, s, t, r, h => by
    rw [Streams.converse] at h
    split at h
    · cases h
      exact ⟨[], s.backend, rfl, by simp, rfl, rfl, rfl, by simp [Prog.feed],
        .inr ⟨rfl, .inl rfl⟩⟩
    · cases h
      exact ⟨[], s.backend, rfl, by simp, rfl, rfl, rfl, by simp [Prog.feed],
        .inr ⟨rfl, .inr ⟨_, rfl⟩⟩⟩
    · rename_i m left hread
      obtain ⟨hb, hm⟩ := readMessageCapped_ok hread
      obtain ⟨ms, rest, hc⟩ := Streams.converse_feed (k m) h
      refine ⟨m :: ms, rest, ?_, ?_, hc.client, hc.toClient, hc.target, ?_, hc.result⟩
      · have hleft : left = frames ms ++ rest := hc.backend
        rw [hb, hleft]
        simp [frames]
      · intro x hx
        rcases List.mem_cons.mp hx with rfl | hx
        · exact ⟨maxLen, hm⟩
        · exact hc.framed x hx
      · rw [hc.toBackend, Prog.feed, List.filterMap_cons_none (by rfl)]

/-- What a relay has passed on: `told` to the client, `answered` to the backend. -/
structure Passed (clientKey : Option CancelKey) (interactive : Bool) (R : Relayed)
    (ms cs told answered : List RawMessage) : Prop where
  first : told <+: ms
  firstAnswers : answered <+: cs
  toClient : R.toClient = told.map (advertised clientKey)
  toBackend : R.toBackend = answered.map RawMessage.frame
  recorded : R.recorded = if clientKey = none then none else lastKey told
  few : answered.length ≤ answers interactive told
  /-- Only the last message can end the startup. -/
  ending : ∀ m ∈ told.dropLast, m.tag ≠ Tag.readyForQuery ∧ m.tag ≠ Tag.errorResponse
  ready : R.result = some (.ok ()) → ∃ z, told.getLast? = some z ∧ z.tag = Tag.readyForQuery ∧
    ms = told ++ R.backend ∧ cs = answered ++ R.client

variable {clientKey : Option CancelKey} {interactive : Bool}

/-- Every relay on messages passes a beginning of them on. -/
theorem relayStartup_passed (ms cs : List RawMessage) :
    ∃ told answered,
      Passed clientKey interactive (relayStartup clientKey interactive ms cs) ms cs told answered := by
  obtain ⟨pre, ms', used, cs', rfl, rfl, hpre, hused, hend⟩ := relayStartup_stuck interactive ms cs
  have hplain : ∀ m ∈ pre, m.tag ≠ Tag.readyForQuery ∧ m.tag ≠ Tag.errorResponse :=
    fun m hm => ⟨(hpre m hm).ready, (hpre m hm).error⟩
  rw [@relayStartup_append clientKey interactive pre used hpre hused ms' cs']
  rcases hend with rfl | ⟨m, rest, rfl, hstuck⟩
  · rw [relayStartup]
    refine ⟨pre, used, List.prefix_append .., List.prefix_append .., ?_, ?_, ?_, by omega, ?_, ?_⟩
    · simp [Relayed.after, Relayed.stop]
    · simp [Relayed.after, Relayed.stop]
    · simp [Relayed.after, Relayed.stop]
    · exact fun m hm => hplain m (List.mem_of_mem_dropLast hm)
    · rintro ⟨⟩
  · have ht := relayTurn_spec clientKey interactive m
    -- The message is passed on too, and the relay goes no further.
    have hlast : ∀ {R : Relayed}, R.toClient = [advertised clientKey m] → R.toBackend = [] →
        R.recorded = none → lastKey [m] = none →
        (R.result = some (.ok ()) → m.tag = Tag.readyForQuery ∧ R.backend = rest ∧ R.client = cs') →
        ∃ told answered, Passed clientKey interactive (R.after clientKey pre used)
          (pre ++ m :: rest) (used ++ cs') told answered := by
      intro R hc hb hn hk hr
      refine ⟨pre ++ [m], used, ⟨rest, by simp⟩, List.prefix_append .., ?_, ?_, ?_, ?_, ?_, ?_⟩
      · simp [Relayed.after, hc]
      · simp [Relayed.after, hb]
      · simp [Relayed.after, hn, lastKey_append, hk]
      · rw [answers, List.countP_append]
        unfold answers at hused
        omega
      · rw [List.dropLast_concat]
        exact hplain
      · intro hok
        obtain ⟨hz, hrb, hrc⟩ := hr hok
        refine ⟨m, by simp, hz, ?_, ?_⟩
        · simp [Relayed.after, hrb]
        · simp [Relayed.after, hrc]
    rw [relayStartup_turn]
    cases hturn : relayTurn clientKey interactive m with
    | finish bs r =>
      rw [hturn] at ht
      obtain ⟨-, rfl, hz⟩ := ht
      obtain ⟨hadv, -, hkey⟩ := @end_plain clientKey interactive m (hz.imp And.left And.left)
      refine hlast ?_ rfl rfl hkey ?_
      · simp [Relayed.sendClient, Relayed.stop, hadv]
      · intro hok
        rcases hz with ⟨hz, -⟩ | ⟨-, rfl⟩
        · exact ⟨hz, rfl, rfl⟩
        · cases hok
    | refuse e =>
      refine ⟨pre, used, List.prefix_append .., List.prefix_append .., ?_, ?_, ?_, by omega, ?_, ?_⟩
      · simp [Relayed.after, Relayed.stop]
      · simp [Relayed.after, Relayed.stop]
      · simp [Relayed.after, Relayed.stop]
      · exact fun m hm => hplain m (List.mem_of_mem_dropLast hm)
      · rintro ⟨⟩
    | challenge bs =>
      rw [hturn] at ht
      obtain ⟨hp, rfl, -, hkey⟩ := ht
      obtain ⟨rfl, -⟩ := hstuck.resolve_left (not_not_intro hp)
      refine hlast ?_ rfl rfl ?_ ?_
      · rfl
      · simp [lastKey, hkey]
      · rintro ⟨⟩
    | pass bs =>
      rw [hturn] at ht
      obtain ⟨-, hc⟩ := hstuck.resolve_left (not_not_intro ht.1)
      rw [ht.2.2.1] at hc
      cases hc
    | capture key bs =>
      rw [hturn] at ht
      obtain ⟨-, hc⟩ := hstuck.resolve_left (not_not_intro ht.1)
      rw [ht.2.2.1] at hc
      cases hc

theorem StartsWith.cut {stream rest : Bytes} {ms told : List RawMessage}
    (h : StartsWith stream ms rest) (ht : told <+: ms) : ∃ rest', StartsWith stream told rest' := by
  obtain ⟨more, rfl⟩ := ht
  refine ⟨frames more ++ rest, ?_, fun m hm => h.2 m (List.mem_append_left _ hm)⟩
  rw [h.1]
  simp [frames]

/-- The same on streams, for any reads. -/
theorem Streams.relayStartup_passed {reads : List (List Nat × List Nat)} {s t : Streams}
    {r : Option (Except BoxError Unit)}
    (h : Streams.relayStartup clientKey interactive reads s = (r, t)) :
    ∃ told answered rest left, StartsWith s.backend told rest ∧ StartsWith s.client answered left ∧
      t.toClient = s.toClient ++ told.flatMap (advertised clientKey) ∧
      t.toBackend = s.toBackend ++ frames answered ∧
      t.target = (if clientKey = none then none else lastKey told).or s.target ∧
      answered.length ≤ answers interactive told ∧
      (∀ m ∈ told.dropLast, m.tag ≠ Tag.readyForQuery ∧ m.tag ≠ Tag.errorResponse) ∧
      (r = some (.ok ()) → rest = t.backend ∧ left = t.client ∧
        ∃ z, told.getLast? = some z ∧ z.tag = Tag.readyForQuery) := by
  obtain ⟨ms, cs, R, hR⟩ := Streams.relayStartup_refines clientKey interactive h
  obtain ⟨told, answered, hp⟩ := @Proxy.relayStartup_passed clientKey interactive ms cs
  rw [hR.relayed] at hp
  obtain ⟨bt, hb, hbt⟩ := hR.backend
  obtain ⟨ct, hc, hct⟩ := hR.client
  have htc : t.toClient = s.toClient ++ told.flatMap (advertised clientKey) := by
    rw [hR.toClient, hp.toClient, List.flatMap_def]
  have htb : t.toBackend = s.toBackend ++ frames answered := by
    rw [hR.toBackend, hp.toBackend, frames, List.flatMap_def]
  have htt : t.target = (if clientKey = none then none else lastKey told).or s.target := by
    rw [hR.target, hp.recorded]
  by_cases hok : r = some (.ok ())
  · have hres : R.result = some (.ok ()) := by
      rcases hR.result with hr | ⟨-, hr | ⟨e, hr⟩⟩
      · rw [hr, hok]
      · rw [hr] at hok; cases hok
      · rw [hr] at hok; cases hok
    have hne : R.result ≠ none := by rw [hres]; rintro ⟨⟩
    obtain ⟨z, hz, htag, hms, hcs⟩ := hp.ready hres
    rw [hR.consumed.1, List.append_nil] at hms
    rw [hR.consumed.2, List.append_nil] at hcs
    subst hms hcs
    exact ⟨_, _, bt, ct, hb, hc, htc, htb, htt, hp.few, hp.ending,
      fun _ => ⟨hbt.resolve_left hne, hct.resolve_left hne, z, hz, htag⟩⟩
  · obtain ⟨rest, hrest⟩ := hb.cut hp.first
    obtain ⟨left, hleft⟩ := hc.cut hp.firstAnswers
    exact ⟨told, answered, rest, left, hrest, hleft, htc, htb, htt, hp.few, hp.ending,
      fun hr => absurd hr hok⟩

/-- Copying moves bytes over in order; when it ends well, all of them. -/
theorem Streams.copyBidirectional_moves : ∀ {cs : List Copying} {u d : Bool} {s t : Streams}
    {r : Option (Except BoxError Unit)}, Streams.copyBidirectional u d cs s = (r, t) →
    (u = true → s.client = []) → (d = true → s.backend = []) →
    ∃ up down, s.client = up ++ t.client ∧ s.backend = down ++ t.backend ∧
      t.toBackend = s.toBackend ++ up ∧ t.toClient = s.toClient ++ down ∧ t.target = s.target ∧
      (r = some (.ok ()) → t.client = [] ∧ t.backend = []) := by
  intro cs
  induction cs with
  | nil =>
    intro u d s t r h hu hd
    cases h
    refine ⟨[], [], rfl, rfl, by simp, by simp, rfl, fun hr => ?_⟩
    by_cases hud : (u && d) = true
    · obtain ⟨rfl, rfl⟩ := Bool.and_eq_true_iff.mp hud
      exact ⟨hu rfl, hd rfl⟩
    · rw [if_neg hud] at hr
      cases hr
  | cons c cs ih =>
    intro u d s t r h hu hd
    rw [Streams.copyBidirectional.eq_def] at h
    simp only at h
    split at h
    · rename_i hud
      obtain ⟨rfl, rfl⟩ := Bool.and_eq_true_iff.mp hud
      cases h
      exact ⟨[], [], rfl, rfl, by simp, by simp, rfl, fun _ => ⟨hu rfl, hd rfl⟩⟩
    · cases c with
      | up n =>
        obtain ⟨up, down, hc, hb, htb, htc, htt, hr⟩ := ih h (fun e => by
          show s.client.drop n = []
          rw [hu e, List.drop_nil]) hd
        refine ⟨s.client.take n ++ up, down, ?_, hb, ?_, htc, htt, hr⟩
        · rw [List.append_assoc, ← hc]
          exact (List.take_append_drop n s.client).symm
        · rw [htb]
          exact List.append_assoc ..
      | down n =>
        obtain ⟨up, down, hc, hb, htb, htc, htt, hr⟩ := ih h hu (fun e => by
          show s.backend.drop n = []
          rw [hd e, List.drop_nil])
        refine ⟨up, s.backend.take n ++ down, hc, ?_, htb, ?_, htt, hr⟩
        · rw [List.append_assoc, ← hb]
          exact (List.take_append_drop n s.backend).symm
        · rw [htc]
          exact List.append_assoc ..
      | clientEnd =>
        refine ih h (fun e => ?_) hd
        rcases Bool.or_eq_true_iff.mp e with e | e
        · exact hu e
        · exact List.isEmpty_iff.mp e
      | backendEnd =>
        refine ih h hu (fun e => ?_)
        rcases Bool.or_eq_true_iff.mp e with e | e
        · exact hd e
        · exact List.isEmpty_iff.mp e
      | failed e =>
        cases h
        exact ⟨[], [], rfl, rfl, by simp, by simp, rfl, by rintro ⟨⟩⟩

/-! ## The session as a pipe -/

/-- What has come of the two streams `conn` and `input`: `auth` was answered by the proxy itself,
`told` and `down` have reached the client, `answered` and `up` the backend. -/
structure Piped (env : DirectEnv) (client : PgClient) (clientKey : Option CancelKey)
    (conn input : Bytes) (r : Option (Except BoxError Unit)) (t : Streams)
    (auth told answered : List RawMessage) (up down : Bytes) : Prop where
  toBackend : t.toBackend = client.startup.frame ++
    (((env.handshake client.auth).feed auth).1.filterMap Event.written).flatten ++
    frames answered ++ up
  toClient : t.toClient = told.flatMap (advertised clientKey) ++ down
  ofBackend : ∃ rest, conn = frames auth ++ frames told ++ down ++ rest ∧
    (r = some (.ok ()) → rest = [])
  ofClient : ∃ left, input = frames answered ++ up ++ left ∧ (r = some (.ok ()) → left = [])
  framed : ∀ m ∈ told ++ answered, IsFrame maxMessageLen m.frame
  /-- Nothing passes before the backend has accepted the proxy. -/
  accepted : told ≠ [] → ((env.handshake client.auth).feed auth).2 = (some (.ok ()), [])
  /-- A cancel request goes to the backend with the key it told last. -/
  target : t.target = if clientKey = none then none else lastKey told
  few : answered.length ≤ answers client.auth.interactive told
  ending : ∀ m ∈ told.dropLast, m.tag ≠ Tag.readyForQuery ∧ m.tag ≠ Tag.errorResponse
  /-- Nothing is copied before the backend is ready. -/
  opened : up ≠ [] ∨ down ≠ [] ∨ r = some (.ok ()) →
    ∃ z, told.getLast? = some z ∧ z.tag = Tag.readyForQuery

variable {env : DirectEnv} {client : PgClient} {conn input : Bytes} {t : Streams}
  {r : Option (Except BoxError Unit)}

theorem DirectEnv.run_piped
    (h : env.run client.auth clientKey ⟨conn, input, client.startup.frame, [], none⟩ = (r, t)) :
    ∃ auth told answered up down,
      Piped env client clientKey conn input r t auth told answered up down := by
  unfold DirectEnv.run at h
  split at h
  · rename_i u s₁ hconv
    obtain ⟨auth, rest₁, hauth⟩ := Streams.converse_feed _ hconv
    obtain ⟨hfeed, rfl⟩ : ((env.handshake client.auth).feed auth).2 = (some (.ok u), []) ∧
        rest₁ = s₁.backend := by
      rcases hauth.result with hr | ⟨-, hr | ⟨e, hr⟩⟩
      · exact hr
      · cases hr
      · cases hr
    have hbackend : conn = frames auth ++ s₁.backend := hauth.backend
    have hclient : s₁.client = input := hauth.client
    have htoClient : s₁.toClient = [] := hauth.toClient
    have htarget : s₁.target = none := hauth.target
    have htoBackend := hauth.toBackend
    split at h
    · rename_i v s₂ hrelay
      obtain ⟨told, answered, rest, left, hb, hc, htc, htb, htt, hfew, hend, hok⟩ :=
        Streams.relayStartup_passed hrelay
      obtain ⟨rfl, rfl, hready⟩ := hok rfl
      obtain ⟨up, down, hup, hdown, htb', htc', htt', hdone⟩ :=
        Streams.copyBidirectional_moves h (by rintro ⟨⟩) (by rintro ⟨⟩)
      refine ⟨auth, told, answered, up, down, ?_, ?_, ?_, ?_, ?_, fun _ => hfeed, ?_, hfew, hend,
        fun _ => hready⟩
      · rw [htb', htb, htoBackend]
      · rw [htc', htc, htoClient, List.nil_append]
      · refine ⟨t.backend, ?_, fun hr => (hdone hr).2⟩
        rw [hbackend, hb.1, hdown]
        simp
      · refine ⟨t.client, ?_, fun hr => (hdone hr).1⟩
        rw [← hclient, hc.1, hup]
        simp
      · intro m hm
        exact (List.mem_append.mp hm).elim (hb.2 m) (hc.2 m)
      · rw [htt', htt, htarget, Option.or_none]
    · rename_i r₂ s₂ hne hrelay
      obtain ⟨rfl, rfl⟩ := Prod.mk.inj h
      obtain ⟨told, answered, rest, left, hb, hc, htc, htb, htt, hfew, hend, -⟩ :=
        Streams.relayStartup_passed hrelay
      have hr : r₂ ≠ some (.ok ()) := hne ()
      refine ⟨auth, told, answered, [], [], ?_, ?_, ?_, ?_, ?_, fun _ => hfeed, ?_, hfew, hend, ?_⟩
      · rw [htb, htoBackend]
        simp
      · rw [htc, htoClient]
        simp
      · refine ⟨rest, ?_, fun h => absurd h hr⟩
        rw [hbackend, hb.1]
        simp
      · refine ⟨left, ?_, fun h => absurd h hr⟩
        rw [← hclient, hc.1]
        simp
      · intro m hm
        exact (List.mem_append.mp hm).elim (hb.2 m) (hc.2 m)
      · rw [htt, htarget, Option.or_none]
      · rintro (h | h | h)
        · exact absurd rfl h
        · exact absurd rfl h
        · exact absurd h hr
  · rename_i r₁ s₁ hne hconv
    obtain ⟨rfl, rfl⟩ := Prod.mk.inj h
    obtain ⟨auth, rest₁, hauth⟩ := Streams.converse_feed _ hconv
    have hr : r₁ ≠ some (.ok ()) := hne ()
    refine ⟨auth, [], [], [], [], ?_, hauth.toClient, ⟨rest₁, ?_, fun h => absurd h hr⟩,
      ⟨input, rfl, fun h => absurd h hr⟩, by simp, fun h => absurd rfl h, ?_, Nat.zero_le _, by simp, ?_⟩
    · rw [hauth.toBackend]
      simp [frames]
    · have hbackend : conn = frames auth ++ rest₁ := hauth.backend
      rw [hbackend]
      simp [frames]
    · have htarget : s₁.target = none := hauth.target
      rw [htarget]
      simp [lastKey]
    · rintro (h | h | h)
      · exact absurd rfl h
      · exact absurd rfl h
      · exact absurd h hr

/-- The sessions that do not get as far as a backend. -/
def Refused {τ : Type} (f : DirectForwarder τ) (client : PgClient)
    (r : Option (Except BoxError Unit)) (toClient : Bytes) : Prop :=
  (∃ e, f.router client = .error e ∧ r = some (.error e) ∧ toClient = []) ∨
  (f.router client = .ok none ∧ r = some (.ok ()) ∧ toClient = noBackend) ∨
  ∃ backend e, f.router client = .ok (some backend) ∧ f.connector backend = .error e ∧
    r = some (.ok ()) ∧ toClient = couldNotReach

/-- **A direct session is a pipe.** In every session and at every point of it, whatever the reads
and the copying: the backend has got the client's startup frame, then what the proxy says for its
own authentication, then the client's answers to the challenges relayed to it, then a beginning of
the rest of the client's stream; the client has got the backend's messages behind the proxy's own
authentication, with its own cancel key, then a beginning of the rest of the backend's stream. No
message reaches the client before the backend has accepted the proxy, no other byte of the client
reaches the backend before its `ReadyForQuery`, and a session that ends well has delivered
everything. A client that is not routed, or whose backend is not reached, is told so, and nothing
is sent anywhere. -/
theorem direct_session_exact {τ : Type} (f : DirectForwarder τ)
    (h : f.serve env client input = (r, t)) :
    (t.toBackend = [] ∧ Refused f client r t.toClient) ∨
    ∃ backend conn, f.router client = .ok (some backend) ∧ f.connector backend = .ok conn ∧
      ((∃ e, env.begin = .error e ∧ r = some (.error e) ∧
        t.toBackend = client.startup.frame ∧ t.toClient = []) ∨
      ∃ clientKey auth told answered up down, env.begin = .ok clientKey ∧
        Piped env client clientKey conn input r t auth told answered up down) := by
  unfold DirectForwarder.serve at h
  split at h
  · rename_i e hroute
    cases h
    exact .inl ⟨rfl, .inl ⟨e, hroute, rfl, rfl⟩⟩
  · rename_i hroute
    cases h
    exact .inl ⟨rfl, .inr (.inl ⟨hroute, rfl, rfl⟩)⟩
  · rename_i backend hroute
    split at h
    · rename_i e hconn
      cases h
      exact .inl ⟨rfl, .inr (.inr ⟨backend, e, hroute, hconn, rfl, rfl⟩)⟩
    · rename_i conn hconn
      refine .inr ⟨backend, conn, hroute, hconn, ?_⟩
      split at h
      · rename_i e hbegin
        cases h
        exact .inl ⟨e, hbegin, rfl, rfl, rfl⟩
      · rename_i clientKey hbegin
        obtain ⟨auth, told, answered, up, down, hp⟩ := DirectEnv.run_piped h
        exact .inr ⟨clientKey, auth, told, answered, up, down, hbegin, hp⟩

/-- A client with a name that is routed, who answers its backend's challenge, asks something and
hangs up. -/
def namedForwarder : DirectForwarder Backend where
  router := ((Router.new.withDefault ⟨[0]⟩).withRoute [97] ⟨[1]⟩).serve
  connector b := if b = ⟨[1]⟩ then .ok (challengedStreams.backend ++ [1]) else .error (.text "refused")

def namedClient : PgClient := ⟨⟨.v3_0, [], [0, 0, 0, 8, 0, 3, 0, 0]⟩, .v3_0, some [97], .passThrough⟩

def namedEnv : DirectEnv where
  b64 := .standard
  sha256 := Sha256.hash
  draw := .replicate 18 0
  begin := .ok (some ⟨[1, 2, 3, 4, 5, 6, 7, 8]⟩)
  authReads := []
  reads := List.replicate 4 (List.replicate 14 1, List.replicate 14 1)
  copies := [.up 1, .down 1, .clientEnd, .down 1, .backendEnd]

theorem direct_session_exact_for_named : ∃ t auth told answered up down,
    namedForwarder.serve namedEnv namedClient challengedStreams.client = (some (.ok ()), t) ∧
    Piped namedEnv namedClient (some ⟨[1, 2, 3, 4, 5, 6, 7, 8]⟩) (challengedStreams.backend ++ [1])
      challengedStreams.client (some (.ok ())) t auth told answered up down := by
  have hserve : ∃ t, namedForwarder.serve namedEnv namedClient challengedStreams.client =
      (some (.ok ()), t) ∧ t.toBackend ≠ [] :=
    ⟨(namedForwarder.serve namedEnv namedClient challengedStreams.client).2, by decide +kernel⟩
  obtain ⟨t, hserve, hne⟩ := hserve
  rcases direct_session_exact namedForwarder hserve with ⟨he, -⟩ | ⟨backend, conn, hr, hc, h⟩
  · exact absurd he hne
  · cases hr
    cases hc
    rcases h with ⟨e, he, -⟩ | ⟨key, auth, told, answered, up, down, hk, hp⟩
    · cases he
    · cases hk
      exact ⟨t, auth, told, answered, up, down, hserve, hp⟩

end RamaPg.Proxy
