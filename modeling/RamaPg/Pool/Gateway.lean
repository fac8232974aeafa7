import RamaPg.Pool.Roles
import RamaPg.Proxy.Session
import RamaPg.Scram.Soundness

/-!
# The gateway in front of the pool

Clients in their authentication dialogues, beside the pool and its sessions, all at once: `PgSession`
is a program of its own for each client, and only its return hands the client on. A run of the gateway
is a run of the pool with clients that were let through (`Gateway.pooled`); so whatever a session has
to do with a connection, its client has proved before that it is of the connection's user.
-/

namespace RamaPg.Pool

open RamaPg.Lib RamaPg.Codec RamaPg.Startup RamaPg.Scram RamaPg.Proxy

/-! ## The system -/

/-- How the proxy authenticates its clients. -/
inductive Gate where
  | passThrough
  | cleartext (auth : CleartextPassword)
  | scram (auth : ScramSha256)

/-- A client in front of the pool: the startup frame it sent, what the server draws for it, what has
happened and what is left of `PgSession::serve`. -/
structure Front where
  frame : Bytes
  sni : Option Bytes
  draws : Draws
  events : List (Event Int RawMessage)
  rest : Io (Option PgClient)

/-- The next write, or the next read when there is a message to read. -/
def Front.step (f : Front) : Option RawMessage → Option Front
  | none =>
    match f.rest with
    | .write bs k => some { f with events := f.events ++ [.sent bs], rest := k }
    | _ => none
  | some m =>
    match f.rest with
    | .read q k => some { f with events := f.events ++ [.received q m], rest := k m }
    | _ => none

/-- The client that `PgSession::serve` hands to its forwarder. -/
def Front.client (f : Front) : Option PgClient :=
  match f.rest with
  | .done (.ok client) => client
  | _ => none

structure Gateway where
  fronts : SessionId → Option Front
  world : World

def Gateway.init : Gateway := ⟨fun _ => none, World.init⟩

def Gateway.setFront (g : Gateway) (s : SessionId) (f : Front) : Gateway :=
  { g with fronts := Function.update g.fronts s (some f) }

inductive Turn where
  /-- A client has sent its startup frame. -/
  | accept (s : SessionId) (frame : Bytes) (sni : Option Bytes) (draws : Draws)
  | front (s : SessionId) (m : Option RawMessage)
  /-- The forwarder is called. -/
  | forward (s : SessionId)
  /-- Anything else the pool, its sessions and its backends do. -/
  | pool (a : Action)

def Action.begins : Action → Bool
  | .begin .. => true
  | _ => false

section

variable (b64 : Base64) (sha256 : Bytes → Key)

def Gate.authenticator (gate : Gate) (draws : Draws) : Authenticator :=
  match gate with
  | .passThrough => ⟨PassThrough.authenticate, false⟩
  | .cleartext auth => ⟨auth.authenticate, true⟩
  | .scram auth => ⟨fun ctx => auth.authenticate b64 sha256 ctx draws, true⟩

/-- `PgSession::serve` for the client of a front. -/
def Front.program (gate : Gate) (f : Front) : Io (Option PgClient) :=
  PgSession.serve (gate.authenticator b64 sha256 f.draws) f.sni f.frame

namespace Gateway

def step (gate : Gate) (pool : BackendPool) (g : Gateway) : Turn → Option Gateway
  | .accept s frame sni draws =>
    match g.fronts s with
    | none =>
      some (g.setFront s
        ⟨frame, sni, draws, [], PgSession.serve (gate.authenticator b64 sha256 draws) sni frame⟩)
    | some _ => none
  | .front s m =>
    match g.fronts s with
    | some f => (f.step m).map (g.setFront s)
    | none => none
  | .forward s =>
    match g.fronts s with
    | some f =>
      match f.client with
      | some client =>
        (Pool.step pool g.world (.begin s f.frame (client.auth = .passThrough))).map fun w =>
          { g with world := w }
      | none => none
    | none => none
  | .pool a =>
    if a.begins then none else (Pool.step pool g.world a).map fun w => { g with world := w }

def run (gate : Gate) (pool : BackendPool) (ts : List Turn) : Option Gateway :=
  exec (step b64 sha256 gate pool) init ts

end Gateway

/-- What it takes to be let through: nothing does with pass-through, the pool has no use for it;
otherwise a password the validator takes, or a proof for the verifier that the store has. -/
def Gate.Proved (gate : Gate) (client : PgClient) (f : Front) : Prop :=
  match gate with
  | .passThrough => False
  | .cleartext auth => ∃ m, .received maxAuthMessageLen m ∈ f.events ∧ m.tag = Tag.passwordMessage ∧
      auth.validate ⟨client.startup, f.sni⟩ (passwordBytes m.payload) = .ok true
  | .scram auth => ∃ before es keys t, f.events = before ++ es ∧
      Accepted b64 sha256 auth ⟨client.startup, f.sni⟩ f.draws es keys t

end

section

variable {b64 : Base64} {sha256 : Bytes → Key} {gate : Gate} {pool : BackendPool} {g g' : Gateway}

/-! ## A front runs its program -/

/-- Whatever the rest still does, all of it together is a run of the program. -/
def Front.OnTrack (b64 : Base64) (sha256 : Bytes → Key) (gate : Gate) (f : Front) : Prop :=
  ∀ es r, Runs f.rest es r → Runs (f.program b64 sha256 gate) (f.events ++ es) r

theorem Front.OnTrack.step {f f' : Front} {m : Option RawMessage} (h : f.OnTrack b64 sha256 gate)
    (hf : f.step m = some f') : f'.OnTrack b64 sha256 gate := by
  unfold Front.step at hf
  split at hf
  · split at hf
    · rename_i bs k hrest
      cases hf
      intro es r hr
      rw [List.append_assoc]
      exact h _ _ (hrest ▸ hr.sent)
    · cases hf
  · split at hf
    · rename_i m q k hrest
      cases hf
      intro es r hr
      rw [List.append_assoc]
      exact h _ _ (hrest ▸ Runs.received hr)
    · cases hf

theorem Front.step_client {f f' : Front} {m : Option RawMessage} (hf : f.step m = some f') :
    f.client = none := by
  unfold Front.step at hf
  unfold Front.client
  split at hf
  · split at hf
    · rename_i hrest
      rw [hrest]
    · cases hf
  · split at hf
    · rename_i hrest
      rw [hrest]
    · cases hf

/-- A client that is handed on has been through the whole program. -/
theorem Front.OnTrack.runs {f : Front} {client : PgClient} (h : f.OnTrack b64 sha256 gate)
    (hc : f.client = some client) :
    Runs (f.program b64 sha256 gate) f.events (some (.ok (some client))) := by
  have hrest : f.rest = .done (.ok (some client)) := by
    unfold Front.client at hc
    split at hc
    · rename_i hrest
      rw [hrest, hc]
    · cases hc
  have hr := h [] _ (hrest ▸ Runs.done _)
  rwa [List.append_nil] at hr

/-- It is passed through, or it has proved who it is. -/
theorem Gate.sound {f : Front} {client : PgClient} (h : f.OnTrack b64 sha256 gate)
    (hc : f.client = some client) :
    (gate = .passThrough ∧ client.auth = .passThrough) ∨ gate.Proved b64 sha256 client f := by
  obtain ⟨-, -, es₁, es₂, hes, -, hauth⟩ := PgSession.serve_some (h.runs hc)
  cases gate with
  | passThrough =>
    left
    obtain ⟨-, hr | hr⟩ := Runs.done_inv hauth
    · cases hr
    · exact ⟨rfl, Except.ok.inj (Option.some.inj hr)⟩
  | cleartext auth =>
    right
    obtain ⟨-, m, rfl, htag, hvalid⟩ := CleartextPassword.authenticate_ok hauth
    exact ⟨m, by rw [hes]; simp, htag, hvalid⟩
  | scram auth =>
    right
    rcases authenticate_cases hauth with hq | ⟨keys, t, hacc, -⟩
    · exact (hq.1 _ rfl).elim
    · exact ⟨es₁, es₂, keys, t, hes, hacc⟩

/-! ## A run of the gateway is a run of the pool -/

/-- The session's client was let through, with the frame it sent. -/
def Gateway.LetThrough (g : Gateway) (s : SessionId) (frame : Bytes) (passThrough : Bool) : Prop :=
  ∃ f client, g.fronts s = some f ∧ f.client = some client ∧ f.frame = frame ∧
    passThrough = decide (client.auth = .passThrough)

theorem Gateway.fronts_setFront (g : Gateway) (s : SessionId) (f : Front) :
    (g.setFront s f).fronts s = some f := Function.update_self ..

theorem Gateway.fronts_setFront_ne (g : Gateway) {s s' : SessionId} (f : Front) (h : s' ≠ s) :
    (g.setFront s f).fronts s' = g.fronts s' := Function.update_of_ne h ..

/-- What a turn can be. -/
inductive Gateway.Turned (b64 : Base64) (sha256 : Bytes → Key) (gate : Gate) (pool : BackendPool)
    (g : Gateway) : Gateway → Prop where
  /-- A front starts, or takes a step. -/
  | front {s : SessionId} {f : Front}
      (hnew : (g.fronts s = none ∧ f.rest = f.program b64 sha256 gate ∧ f.events = []) ∨
        ∃ f₀ m, g.fronts s = some f₀ ∧ f₀.step m = some f) :
      Turned b64 sha256 gate pool g (g.setFront s f)
  /-- The pool takes a step, and begins only sessions of clients that were let through. -/
  | pool {a : Action} {w : World} (ha : Pool.step pool g.world a = some w)
      (hlet : ∀ s frame passThrough, a = .begin s frame passThrough →
        g.LetThrough s frame passThrough) :
      Turned b64 sha256 gate pool g { g with world := w }

theorem Gateway.turned {t : Turn} (h : g.step b64 sha256 gate pool t = some g') :
    g.Turned b64 sha256 gate pool g' := by
  cases t with
  | accept s frame sni draws =>
    simp only [Gateway.step] at h
    split at h
    · rename_i hnone
      cases h
      exact .front (.inl ⟨hnone, rfl, rfl⟩)
    · cases h
  | front s m =>
    simp only [Gateway.step] at h
    split at h
    · rename_i f hf
      obtain ⟨f', hf', rfl⟩ := Option.map_eq_some_iff.mp h
      exact .front (.inr ⟨f, m, hf, hf'⟩)
    · cases h
  | forward s =>
    simp only [Gateway.step] at h
    split at h
    · rename_i f hf
      split at h
      · rename_i client hc
        obtain ⟨w, hw, rfl⟩ := Option.map_eq_some_iff.mp h
        refine .pool hw fun s frame passThrough he => ?_
        cases he
        exact ⟨f, client, hf, hc, rfl, rfl⟩
      · cases h
    · cases h
  | pool a =>
    simp only [Gateway.step] at h
    split at h
    · cases h
    · rename_i hbegins
      obtain ⟨w, hw, rfl⟩ := Option.map_eq_some_iff.mp h
      refine .pool hw ?_
      rintro s frame passThrough rfl
      exact (hbegins rfl).elim

theorem Gateway.onTrack_step (hi : ∀ s f, g.fronts s = some f → f.OnTrack b64 sha256 gate)
    (h : g.Turned b64 sha256 gate pool g') :
    ∀ s f, g'.fronts s = some f → f.OnTrack b64 sha256 gate := by
  intro s f hf
  cases h with
  | @front s₀ f' hnew =>
    by_cases he : s = s₀
    · subst he
      rw [Gateway.fronts_setFront] at hf
      cases hf
      rcases hnew with ⟨-, hrest, hnil⟩ | ⟨f₀, m, hf₀, hstep⟩
      · intro es r hr
        rwa [hnil, List.nil_append, ← hrest]
      · exact (hi s f₀ hf₀).step hstep
    · rw [Gateway.fronts_setFront_ne _ _ he] at hf
      exact hi s f hf
  | pool => exact hi s f hf

theorem Gateway.LetThrough.step {s : SessionId} {frame : Bytes} {passThrough : Bool}
    (hl : g.LetThrough s frame passThrough) (h : g.Turned b64 sha256 gate pool g') :
    g'.LetThrough s frame passThrough := by
  obtain ⟨f, client, hf, hc, hframe, hpass⟩ := hl
  refine ⟨f, client, ?_, hc, hframe, hpass⟩
  cases h with
  | @front s₀ f' hnew =>
    -- the front of a client that was handed on has nothing left to do
    have he : s ≠ s₀ := by
      rintro rfl
      rcases hnew with ⟨hnone, -⟩ | ⟨f₀, m, hf₀, hstep⟩
      · rw [hnone] at hf
        cases hf
      · rw [hf₀] at hf
        cases hf
        rw [Front.step_client hstep] at hc
        cases hc
    rwa [Gateway.fronts_setFront_ne _ _ he]
  | pool => exact hf

/-- **The pool behind the gateway.** What the gateway's pool does is a run of the pool, with sessions
of clients that were let through. -/
theorem Gateway.pooled {ts : List Turn} (h : Gateway.run b64 sha256 gate pool ts = some g) :
    (∀ s f, g.fronts s = some f → f.OnTrack b64 sha256 gate) ∧
    ∃ as, Pool.run pool as = some g.world ∧
      ∀ s frame passThrough, .begin s frame passThrough ∈ as → g.LetThrough s frame passThrough := by
  refine exec_inv' (I := fun g => (∀ s f, g.fronts s = some f → f.OnTrack b64 sha256 gate) ∧
    ∃ as, Pool.run pool as = some g.world ∧
      ∀ s frame passThrough, .begin s frame passThrough ∈ as → g.LetThrough s frame passThrough)
    ?_ ⟨nofun, [], rfl, nofun⟩ h
  rintro g t g' ⟨htrack, as, hrun, hlet⟩ hstep
  have ht := Gateway.turned hstep
  have hkeep : ∀ s frame p, .begin s frame p ∈ as → g'.LetThrough s frame p :=
    fun s frame p hm => (hlet s frame p hm).step ht
  refine ⟨Gateway.onTrack_step htrack ht, ?_⟩
  cases ht with
  | front hnew => exact ⟨as, hrun, hkeep⟩
  | @pool a w ha hbegin =>
    refine ⟨as ++ [a], ?_, fun s frame p hm => ?_⟩
    · rw [Pool.run, exec_append hrun]
      simp [exec, ha]
    · rcases List.mem_append.mp hm with hm | hm
      · exact hkeep s frame p hm
      · exact hbegin s frame p (List.mem_singleton.mp hm).symm

/-! ## Who has begun -/

/-- A session that has begun did so with a frame of its own client. -/
theorem began {as : List Action} {w : World} (h : Pool.run pool as = some w) :
    ∀ s, (w.sessions s).phase ≠ .absent → ∃ frame passThrough, .begin s frame passThrough ∈ as ∧
      sessionAccepts frame = some (w.sessions s).startup := by
  refine exec_history (I := fun as w => ∀ s, (w.sessions s).phase ≠ .absent →
    ∃ frame passThrough, .begin s frame passThrough ∈ as ∧
      sessionAccepts frame = some (w.sessions s).startup) (fun s hp => (hp rfl).elim) ?_ h
  intro as w a w' _ hi ha s hp
  by_cases habs : (w.sessions s).phase = .absent
  · cases stepped ha with
    | @begin s₀ frame passThrough m p hm =>
      by_cases he : s = s₀
      · subst he
        refine ⟨frame, passThrough, by simp, ?_⟩
        rw [World.sessions_setSession]
        exact hm
      · rw [World.sessions_setSession_ne _ he] at hp
        exact (hp habs).elim
    | @session s₀ i p e hon =>
      by_cases he : s = s₀
      · subst he
        rw [habs] at hon
        cases i <;> cases hon
      · rw [World.sessions_advance he] at hp
        exact (hp habs).elim
    | @drop s₀ haw =>
      by_cases he : s = s₀
      · subst he
        rw [habs] at haw
        cases haw
      · rw [World.sessions_abort he] at hp
        exact (hp habs).elim
    | @abandon s₀ c frames hasKey id hid =>
      by_cases he : s = s₀
      · subst he
        rw [Session.requestId, habs] at hid
        cases hid
      · rw [World.sessions_abort he] at hp
        exact (hp habs).elim
    | evict | backend | cancel | readSlot | readEmpty | deliver => exact (hp habs).elim
  · obtain ⟨-, hstartup⟩ := begun_step ha habs
    obtain ⟨frame, passThrough, hm, hframe⟩ := hi s habs
    exact ⟨frame, passThrough, List.mem_append_left _ hm, hframe.trans (congrArg some hstartup.symm)⟩

/-- A client that is passed through is refused. -/
def Phase.Refused (p : Phase) : Prop := p = .rejecting ∨ p = .closing ∨ p = .closed

theorem Phase.Refused.on {p p' : Phase} {mode : PoolMode} {reset : Option RawMessage} {i : In}
    {e : Effect} (hr : p.Refused) (h : p.on mode reset i = some (p', e)) : p'.Refused := by
  rcases hr with rfl | rfl | rfl
  · cases i <;> cases h
    exact .inr (.inl rfl)
  · cases i <;> cases h
    exact .inr (.inr rfl)
  · cases i <;> cases h

theorem Phase.Refused.holds {p : Phase} (hr : p.Refused) : p.holds = none := by
  rcases hr with rfl | rfl | rfl <;> rfl

theorem refused_step {w w' : World} {a : Action} {s : SessionId} (ha : Pool.step pool w a = some w')
    (hr : (w.sessions s).phase.Refused) : (w'.sessions s).phase.Refused := by
  cases stepped ha with
  | @begin s₀ _ _ _ _ _ habs =>
    have he : s ≠ s₀ := by
      rintro rfl
      rw [habs] at hr
      rcases hr with hr | hr | hr <;> cases hr
    rwa [World.sessions_setSession_ne _ he]
  | @session s₀ i p e hon =>
    by_cases he : s = s₀
    · subst he
      rw [World.phase_advance]
      exact hr.on hon
    · rwa [World.sessions_advance he]
  | @drop s₀ | @abandon s₀ =>
    by_cases he : s = s₀
    · subst he
      rw [World.phase_abort]
      exact .inr (.inl rfl)
    · rwa [World.sessions_abort he]
  | evict | backend | cancel | readSlot | readEmpty | deliver => exact hr

/-- It has to do with no connection. -/
theorem passedThrough_refused {as : List Action} {w : World} (h : Pool.run pool as = some w) :
    ∀ s frame, .begin s frame true ∈ as →
      (w.sessions s).phase.Refused ∧ ∀ c, ¬ Involved w s c := by
  refine exec_history (I := fun as w => ∀ s frame, .begin s frame true ∈ as →
    (w.sessions s).phase.Refused ∧ ∀ c, ¬ Involved w s c) nofun ?_ h
  intro as w a w' hrun hi ha s frame hm
  obtain ⟨hown, -, hrole⟩ := roles_run hrun
  have hbefore : ((w.sessions s).phase = .absent ∨ (w.sessions s).phase.Refused) ∧
      ∀ c, ¬ Involved w s c := by
    rcases List.mem_append.mp hm with hm | hm
    · exact ⟨.inr (hi s frame hm).1, (hi s frame hm).2⟩
    · obtain rfl := List.mem_singleton.mp hm
      cases stepped ha with
      | begin _ habs => exact ⟨.inl habs, fun c hc => (hrole s c hc).present habs⟩
  have hrefused : (w'.sessions s).phase.Refused := by
    rcases List.mem_append.mp hm with hm | hm
    · exact refused_step ha (hi s frame hm).1
    · obtain rfl := List.mem_singleton.mp hm
      unfold Pool.step at ha
      simp only at ha
      split at ha
      · split at ha
        · cases ha
          rw [World.sessions_setSession]
          exact .inl rfl
        · cases ha
      · cases ha
  refine ⟨hrefused, fun c hc => ?_⟩
  rcases involved_step hown ha hc with hold | hholds
  · exact hbefore.2 c hold
  · rw [hrefused.holds] at hholds
    cases hholds

/-! ## Nobody gets through -/

/-- The client of session `s` was handed on for the startup message `m`, and had proved that it is the
user of that message. -/
def Gateway.Vouched (b64 : Base64) (sha256 : Bytes → Key) (gate : Gate) (g : Gateway) (s : SessionId)
    (m : StartupMessage) : Prop :=
  ∃ f client, g.fronts s = some f ∧ client.startup = m ∧
    Runs (f.program b64 sha256 gate) f.events (some (.ok (some client))) ∧
    gate.Proved b64 sha256 client f

theorem Gateway.vouched {s : SessionId} {frame : Bytes} {m : StartupMessage} {passThrough : Bool}
    (htrack : ∀ s f, g.fronts s = some f → f.OnTrack b64 sha256 gate)
    (hl : g.LetThrough s frame passThrough) (hm : sessionAccepts frame = some m)
    (hgate : gate ≠ .passThrough ∨ passThrough = false) : g.Vouched b64 sha256 gate s m := by
  obtain ⟨f, client, hf, hc, rfl, hpass⟩ := hl
  have hon := htrack s f hf
  have hruns := hon.runs hc
  obtain ⟨hparse, -⟩ := PgSession.serve_some hruns
  have hstartup : client.startup = m := by
    rw [sessionAccepts_parse hm] at hparse
    exact (StartupRequest.startup.inj (Except.ok.inj hparse)).symm
  refine ⟨f, client, hf, hstartup, hruns, ?_⟩
  rcases Gate.sound hon hc with ⟨hpassing, hthrough⟩ | hproved
  · rcases hgate with hgate | hgate
    · exact (hgate hpassing).elim
    · rw [hgate, hthrough] at hpass
      cases hpass
  · exact hproved

/-- With the in-memory validator, the password that was sent is the one it has for the user. -/
theorem Gateway.Vouched.password {credentials : StaticPasswordValidator} {s : SessionId}
    {m : StartupMessage} (h : g.Vouched b64 sha256 (.cleartext ⟨credentials.validate⟩) s m) :
    ∃ f msg, g.fronts s = some f ∧ .received maxAuthMessageLen msg ∈ f.events ∧
      msg.tag = Tag.passwordMessage ∧
      credentials.lookup (m.user.getD []) = some (passwordBytes msg.payload) := by
  obtain ⟨f, client, hf, rfl, -, msg, hmsg, htag, hvalid⟩ := h
  refine ⟨f, msg, hf, hmsg, htag, ?_⟩
  simp only [StaticPasswordValidator.validate] at hvalid
  split at hvalid
  · rename_i expected hlookup
    obtain rfl := eq_of_beq (Except.ok.inj hvalid)
    exact hlookup
  · cases hvalid

/-- With the in-memory store, the proof was for the verifier it has for the user. -/
theorem Gateway.Vouched.verifier {secrets : StaticSecretStore} {channelBinding : Option Bytes}
    {s : SessionId} {m : StartupMessage}
    (h : g.Vouched b64 sha256 (.scram ⟨secrets.getSecret, channelBinding⟩) s m) :
    ∃ f before es keys t, g.fronts s = some f ∧ f.events = before ++ es ∧
      Accepted b64 sha256 ⟨secrets.getSecret, channelBinding⟩ ⟨m, f.sni⟩ f.draws es keys t ∧
      secrets.lookup (m.user.getD []) = some t.secret := by
  obtain ⟨f, client, hf, rfl, -, before, es, keys, t, hes, hacc⟩ := h
  exact ⟨f, before, es, keys, t, hf, hes, hacc, Except.ok.inj hacc.known⟩

/-- **No connection without a proof.** In every run of the gateway, with any clients in their
authentication dialogues beside any sessions over the pool: whenever a session has anything to do with
a connection, its own client has proved before that it is of the connection's user, and so has the
client that the connection was opened for; with an in-memory validator the first has sent the password
of just that user, with an in-memory store it has proved to know the keys of just that user. -/
theorem no_connection_without_proof {ts : List Turn}
    (h : Gateway.run b64 sha256 gate pool ts = some g) {s : SessionId} {c : ConnId}
    (hi : Involved g.world s c) :
    g.Vouched b64 sha256 gate s (g.world.sessions s).startup ∧
    (∃ s', g.Vouched b64 sha256 gate s' (g.world.conns c).startup) ∧
    proxyIdentity (g.world.sessions s).startup = (g.world.conns c).id.identity ∧
    proxyIdentity (g.world.conns c).startup = (g.world.conns c).id.identity ∧
    (∀ credentials : StaticPasswordValidator, gate = .cleartext ⟨credentials.validate⟩ →
      ∃ f msg, g.fronts s = some f ∧ .received maxAuthMessageLen msg ∈ f.events ∧
        msg.tag = Tag.passwordMessage ∧
        credentials.lookup (g.world.conns c).id.user = some (passwordBytes msg.payload)) ∧
    (∀ (secrets : StaticSecretStore) (channelBinding : Option Bytes),
      gate = .scram ⟨secrets.getSecret, channelBinding⟩ →
      ∃ f before es keys t, g.fronts s = some f ∧ f.events = before ++ es ∧
        Accepted b64 sha256 ⟨secrets.getSecret, channelBinding⟩
          ⟨(g.world.sessions s).startup, f.sni⟩ f.draws es keys t ∧
        secrets.lookup (g.world.conns c).id.user = some t.secret) := by
  obtain ⟨htrack, as, hrun, hlet⟩ := Gateway.pooled h
  obtain ⟨-, htraced, hroles⟩ := roles_run hrun
  have hrole := hroles s c hi
  obtain ⟨frame, passThrough, hm, hframe⟩ := began hrun s hrole.present
  have hpass : passThrough = false := by
    cases passThrough with
    | false => rfl
    | true => exact ((passedThrough_refused hrun s frame hm).2 c hi).elim
  have hown := Gateway.vouched htrack (hlet s frame passThrough hm) hframe (.inr hpass)
  have hgate : gate ≠ .passThrough := by
    rintro rfl
    obtain ⟨f, client, -, -, -, hproved⟩ := hown
    exact hproved
  obtain ⟨hmem, hopened⟩ := htraced.conn c hrole.established
  obtain ⟨a, ha, hclient⟩ := List.mem_filterMap.mp hmem
  have hother : ∃ s', g.Vouched b64 sha256 gate s' (g.world.conns c).startup := by
    cases a with
    | begin s' frame' passThrough' =>
      exact ⟨s', Gateway.vouched htrack (hlet s' frame' passThrough' ha) hclient (.inl hgate)⟩
    | _ => cases hclient
  have huser : (g.world.sessions s).startup.user.getD [] = (g.world.conns c).id.user :=
    congrArg Prod.fst hrole.identity.symm
  refine ⟨hown, hother, hrole.identity.symm, hopened.symm, ?_, ?_⟩
  · rintro credentials rfl
    rw [← huser]
    exact hown.password
  · rintro secrets channelBinding rfl
    rw [← huser]
    exact hown.verifier

end

namespace Sample

def password : RawMessage := RawMessage.build Tag.passwordMessage (ascii "secret\x00")

def noDraws : Draws := ⟨.replicate 16 0, .replicate 32 0, .replicate 32 0, .replicate 18 0⟩

def alicesGate : Gate := .cleartext ⟨StaticPasswordValidator.validate [(ascii "alice", ascii "secret")]⟩

/-- A client of alice's logs in and gets a connection, while another is still asked for its password. -/
def alicesRun : List Turn :=
  [.accept 0 aliceInApp none noDraws, .front 0 none, .accept 1 aliceInApp none noDraws, .front 1 none,
    .front 0 (some password), .forward 0] ++
  ((arrive 0 aliceInApp 0).tail ++ lease 0 0).map .pool

end Sample

theorem no_connection_without_proof_for_alice : ∃ g,
    Gateway.run Base64.standard Sha256.hash Sample.alicesGate (.withConnector [ascii "db"] .transaction)
      Sample.alicesRun = some g ∧ (g.world.sessions 0).phase.holds = some 0 ∧
    ∃ f msg, g.fronts 0 = some f ∧ .received maxAuthMessageLen msg ∈ f.events ∧
      [(ascii "alice", ascii "secret")].lookup (g.world.conns 0).id.user =
        some (passwordBytes msg.payload) := by
  have h : (Gateway.run Base64.standard Sha256.hash Sample.alicesGate
      (.withConnector [ascii "db"] .transaction) Sample.alicesRun).map
        (fun g => (g.world.sessions 0).phase.holds) = some (some 0) := by
    decide +kernel
  obtain ⟨g, hg, hholds⟩ := Option.map_eq_some_iff.mp h
  obtain ⟨-, -, -, -, hpassword, -⟩ := no_connection_without_proof hg (.holds hholds)
  obtain ⟨f, msg, hf, hmsg, -, hlookup⟩ := hpassword _ rfl
  exact ⟨g, hg, hholds, f, msg, hf, hmsg, hlookup⟩

end RamaPg.Pool
