import RamaPg.Pool.Ownership

/-!
# Whose startup parameters a client gets

A pooled connection is reused by the id `(user, database, shard)` and the captured `ParameterStatus`
frames are cached by `(user, database)`; neither looks at the other startup parameters, although a
new connection is established with all those of the client that happened to need it first. So every
client is served over connections established with its own parameters when the clients of a role
and database all present the same list, and not otherwise.
-/

namespace RamaPg.Pool

open RamaPg.Lib RamaPg.Codec RamaPg.Startup

/-- The startup message of the client that an action brings in. -/
def Action.client : Action → Option StartupMessage
  | .begin _ frame _ => sessionAccepts frame
  | _ => none

/-- The startup messages of the clients of a run. -/
def clients (as : List Action) : List StartupMessage := as.filterMap Action.client

/-- Clients with the same user and database present the same parameters. -/
def SameParameters (ms : List StartupMessage) : Prop :=
  ∀ m ∈ ms, ∀ m' ∈ ms, proxyIdentity m = proxyIdentity m' → m.parameters = m'.parameters

instance (ms : List StartupMessage) : Decidable (SameParameters ms) :=
  inferInstanceAs (Decidable (∀ m ∈ ms, ∀ m' ∈ ms, _))

def PgConnId.identity (id : PgConnId) : Bytes × Bytes := (id.user, id.database)

/-- The frames of `ps` were captured from an established connection of this user and database. -/
structure CapturedFor (w : World) (key : Bytes × Bytes) (ps : CapturedParams) : Prop where
  established : (w.conns ps.origin).place ≠ .fresh
  frames : ps.frames = (w.conns ps.origin).params
  identity : (w.conns ps.origin).id.identity = key

def Phase.captured : Phase → Option CapturedParams
  | .cache ps | .synthesize ps => some ps
  | _ => none

/-- Where the startup messages of the clients `ms` and what was captured with them end up. -/
structure Traced (ms : List StartupMessage) (w : World) : Prop where
  session : ∀ s, (w.sessions s).phase ≠ .absent → (w.sessions s).startup ∈ ms
  conn : ∀ c, (w.conns c).place ≠ .fresh →
    (w.conns c).startup ∈ ms ∧ (w.conns c).id.identity = proxyIdentity (w.conns c).startup
  phase : ∀ s ps, (w.sessions s).phase.captured = some ps →
    CapturedFor w (w.sessions s).identity ps
  replayed : ∀ s ps, (w.sessions s).replayed = some ps →
    (w.sessions s).startup ∈ ms ∧ CapturedFor w (w.sessions s).identity ps
  cache : ∀ key ps, w.cache key = some ps → CapturedFor w key ps

theorem identity_requestId {x : Session} {id : PgConnId} (h : x.requestId = some id) :
    id.identity = x.identity := by
  unfold Session.requestId at h
  split at h
  · rw [← Option.some.inj h]
    rfl
  · cases h

/-- A session is leased connections of its own user and database. -/
theorem identity_local (pool : BackendPool) (G : World → Action → Prop) :
    Local pool G (fun _ m _ k => k.id.identity = proxyIdentity m) (fun _ => True) where
  reuse _ hid := identity_requestId hid
  fresh hid := identity_requestId hid
  spare _ := trivial
  use _ _ _ hj := by rwa [(Grows.perform _ _ _).id]
  checkin _ := trivial
  checkin_params _ := trivial
  backend hb hj := by rwa [(Conn.act_frame hb).2.1]
  backend_idle _ _ := trivial

abbrev OwnIdentity (w : World) : Prop :=
  ∀ c, Good (fun _ m _ k => k.id.identity = proxyIdentity m) (fun _ => True) w c

section

variable {pool : BackendPool} {ms : List StartupMessage} {w w' : World} {a : Action}

theorem CapturedFor.step {key : Bytes × Bytes} {ps : CapturedParams} (hc : CapturedFor w key ps)
    (hg : OwnIdentity w) (h : step pool w a = some w') : CapturedFor w' key ps := by
  have hgrow := grows_step h hc.established
  exact ⟨not_fresh_step hg h hc.established, hc.frames.trans hgrow.params.symm,
    (congrArg PgConnId.identity hgrow.id).trans hc.identity⟩

theorem captured_of_holds {p : Phase} {c : ConnId} (h : p.holds = some c) : p.captured = none := by
  cases p <;> first | rfl | cases h

theorem captured_firstFrame (r : Codec.Result) : (firstFrame r).captured = none := by
  unfold firstFrame
  split
  · split <;> rfl
  · rfl

/-- Where the parameters that a session is about to cache or to replay come from. -/
theorem on_captured {mode : PoolMode} {reset : Option RawMessage} {p p' : Phase} {i : In}
    {e : Effect} {ps : CapturedParams} (h : p.on mode reset i = some (p', e))
    (hp : p'.captured = some ps) :
    p.captured = some ps ∨ i = .cached (some ps) ∨ i = .params ps := by
  unfold Phase.on at h
  split at h <;> cases h
  all_goals first
    | cases hp; done
    | cases hp; exact .inl rfl
    | cases hp; exact .inr (.inl rfl)
    | cases hp; exact .inr (.inr rfl)
    | cases (captured_of_holds (holds_clientArm _ _)).symm.trans hp
    | cases (captured_of_holds (holds_drainArm _ _)).symm.trans hp
    | cases (captured_firstFrame _).symm.trans hp
    | split at hp
      · first
        | cases hp
        | cases (captured_of_holds (holds_relayed _ _ _ _)).symm.trans hp
      · cases hp

theorem on_store {mode : PoolMode} {reset : Option RawMessage} {p p' : Phase} {i : In}
    {ps : CapturedParams} (h : p.on mode reset i = some (p', .store ps)) : p.captured = some ps := by
  unfold Phase.on at h
  split at h <;> cases h
  rfl

theorem on_startup {mode : PoolMode} {reset : Option RawMessage} {p p' : Phase} {i : In}
    {ps : CapturedParams} (h : p.on mode reset i = some (p', .startup ps)) :
    p.captured = some ps := by
  unfold Phase.on at h
  split at h <;> cases h
  rfl

theorem replayed_perform {conns : ConnId → Conn} {x : Session} {e : Effect} {ps : CapturedParams}
    (h : (x.perform conns e).replayed = some ps) : x.replayed = some ps ∨ e = .startup ps := by
  cases e with
  | startup ps' =>
    cases h
    exact .inr rfl
  | set c =>
    simp only [Session.perform] at h
    split at h <;> exact .inl h
  | _ => exact .inl h

theorem on_ne_absent {mode : PoolMode} {reset : Option RawMessage} {p : Phase} {i : In}
    {r : Phase × Effect} (h : p.on mode reset i = some r) : p ≠ .absent := by
  rintro rfl
  unfold Phase.on at h
  split at h <;> contradiction

/-- A session keeps the startup message it began with, together with all that it was given. -/
theorem session_step (h : step pool w a = some w') (s : SessionId) :
    ((w'.sessions s).startup = (w.sessions s).startup ∧
      ((w'.sessions s).phase ≠ .absent → (w.sessions s).phase ≠ .absent)) ∨
    (a.client = some (w'.sessions s).startup ∧ (w'.sessions s).phase.captured = none ∧
      (w'.sessions s).replayed = none) := by
  cases stepped h with
  | @begin s₀ _ _ _ p hm _ hp =>
    by_cases he : s = s₀
    · subst he
      refine .inr ?_
      rw [World.sessions_setSession]
      refine ⟨hm, ?_, rfl⟩
      rcases hp with rfl | rfl <;> rfl
    · rw [World.sessions_setSession_ne _ he]
      exact .inl ⟨rfl, id⟩
  | @session s₀ _ _ _ hon =>
    refine .inl ?_
    by_cases he : s = s₀
    · subst he
      exact ⟨World.startup_advance, fun _ => on_ne_absent hon⟩
    · rw [World.sessions_advance he]
      exact ⟨rfl, id⟩
  | @drop s₀ ha =>
    refine .inl ?_
    by_cases he : s = s₀
    · subst he
      refine ⟨by simp [World.abort], fun _ hp => ?_⟩
      rw [hp] at ha
      cases ha
    · rw [World.sessions_abort he]
      exact ⟨rfl, id⟩
  | @abandon s₀ _ _ _ _ hid =>
    refine .inl ?_
    by_cases he : s = s₀
    · subst he
      refine ⟨by simp [World.abort, World.setConn], fun _ hp => ?_⟩
      simp [Session.requestId, hp] at hid
    · rw [World.sessions_abort he]
      exact ⟨rfl, id⟩
  | evict | backend | cancel | readSlot | readEmpty | deliver => exact .inl ⟨rfl, id⟩

theorem ne_absent_of_requestId {x : Session} {id : PgConnId} (h : x.requestId = some id) :
    x.phase ≠ .absent := by
  intro hp
  simp [Session.requestId, hp] at h

/-- A connection that comes into being was established with the startup message of a session. -/
theorem established_step (hg : OwnIdentity w) (h : step pool w a = some w') {c : ConnId}
    (hf : (w.conns c).place = .fresh) (hne : (w'.conns c).place ≠ .fresh) :
    ∃ s id, (w.sessions s).requestId = some id ∧ (w'.conns c).id = id ∧
      (w'.conns c).startup = (w.sessions s).startup := by
  cases stepped h with
  | @session s i p e hon hof =>
    by_cases ht : World.target i e = some c
    · rw [World.conns_advance ht] at hne ⊢
      rcases Phase.on_touch hon with
        ⟨want, shard, c₀, rfl, rfl, hp, rfl⟩ | ⟨want, shard, c₀, frames, hasKey, rfl, rfl, hp, rfl⟩ |
        ⟨hp, hc, hi, ht', hplace⟩ | ⟨c₀, rfl, hp, hp', hi, ht'⟩ | ⟨c₀, rfl, hp, hp', hi, ht'⟩
      · cases ht
        simp [World.offers, hf] at hof
      · have hid : (w.sessions s).requestId =
            some ⟨(w.sessions s).identity.1, (w.sessions s).identity.2, shard⟩ := by
          simp [Session.requestId, hp]
        exact ⟨s, _, hid, by simp [World.changed, established, hid], rfl⟩
      · rw [hi, hplace] at hne
        exact absurd hf hne
      all_goals
        cases ht'.symm.trans ht
        cases hf.symm.trans (((hg c).owner s).mp hp)
    · rw [World.conns_advance_ne ht] at hne
      exact absurd hf hne
  | @drop s =>
    by_cases he : (w.sessions s).phase.holds = some c
    · cases hf.symm.trans (((hg c).owner s).mp he)
    · rw [World.conns_abort he] at hne
      exact absurd hf hne
  | @abandon s c₀ frames hasKey id hid hf₀ =>
    rw [World.conns_abort (by simp [holds_of_requestId hid])] at hne ⊢
    by_cases he : c = c₀
    · subst he
      rw [World.conns_setConn]
      exact ⟨s, id, hid, rfl, rfl⟩
    · rw [World.conns_setConn_ne _ he] at hne
      exact absurd hf hne
  | @evict c₀ hi =>
    by_cases he : c = c₀
    · subst he
      cases hf.symm.trans hi
    · rw [World.conns_setConn_ne _ he] at hne
      exact absurd hf hne
  | @backend c₀ _ _ hb =>
    by_cases he : c = c₀
    · subst he
      rw [World.conns_setConn, (Conn.act_frame hb).1] at hne
      exact absurd hf hne
    · rw [World.conns_setConn_ne _ he] at hne
      exact absurd hf hne
  | begin | cancel | readSlot | readEmpty | deliver => exact absurd hf hne

/-- The parameters that a step of session `s` caches, replays or is about to are captured for it. -/
theorem captured_offered (hg : OwnIdentity w) (hi : Traced ms w) {s : SessionId} {i : In} {p : Phase}
    {e : Effect} {ps : CapturedParams}
    (hon : (w.sessions s).phase.on pool.mode pool.resetQuery i = some (p, e))
    (hof : w.offers pool s i)
    (hp : p.captured = some ps ∨ (w.sessions s).phase.captured = some ps) :
    CapturedFor w (w.sessions s).identity ps := by
  have hcases : (w.sessions s).phase.captured = some ps ∨ i = .cached (some ps) ∨ i = .params ps := by
    rcases hp with hp | hp
    · exact on_captured hon hp
    · exact .inl hp
  rcases hcases with hp | rfl | rfl
  · exact hi.phase s ps hp
  · exact hi.cache _ ps (by simpa [World.offers] using hof)
  · simp only [World.offers, Bool.decide_and, Bool.and_eq_true, decide_eq_true_eq] at hof
    have hplace := ((hg ps.origin).owner s).mp hof.1
    exact ⟨by simp [hplace], hof.2, (hg ps.origin).leased s hplace⟩

theorem phase_captured_step (hg : OwnIdentity w) (hi : Traced ms w) (h : step pool w a = some w')
    {s : SessionId} {ps : CapturedParams} (hp : (w'.sessions s).phase.captured = some ps) :
    CapturedFor w (w.sessions s).identity ps := by
  cases stepped h with
  | @begin s₀ _ _ _ _ _ _ hp₀ =>
    by_cases he : s = s₀
    · subst he
      rw [World.sessions_setSession] at hp
      rcases hp₀ with rfl | rfl <;> cases hp
    · rw [World.sessions_setSession_ne _ he] at hp
      exact hi.phase s ps hp
  | @session s₀ _ _ _ hon hof =>
    by_cases he : s = s₀
    · subst he
      rw [World.phase_advance] at hp
      exact captured_offered hg hi hon hof (.inl hp)
    · rw [World.sessions_advance he] at hp
      exact hi.phase s ps hp
  | @drop s₀ | @abandon s₀ =>
    by_cases he : s = s₀
    · subst he
      rw [World.phase_abort] at hp
      cases hp
    · rw [World.sessions_abort he] at hp
      exact hi.phase s ps hp
  | evict | backend | cancel | readSlot | readEmpty | deliver => exact hi.phase s ps hp

theorem replayed_step (hg : OwnIdentity w) (hi : Traced ms w) (h : step pool w a = some w')
    {s : SessionId} {ps : CapturedParams} (hp : (w'.sessions s).replayed = some ps) :
    (w.sessions s).startup ∈ ms ∧ CapturedFor w (w.sessions s).identity ps := by
  cases stepped h with
  | @begin s₀ =>
    by_cases he : s = s₀
    · subst he
      rw [World.sessions_setSession] at hp
      cases hp
    · rw [World.sessions_setSession_ne _ he] at hp
      exact hi.replayed s ps hp
  | @session s₀ i p e hon hof =>
    by_cases he : s = s₀
    · subst he
      have hp : ((w.sessions s).perform w.conns e).replayed = some ps := by
        simpa [World.advance] using hp
      rcases replayed_perform hp with hp | rfl
      · exact hi.replayed s ps hp
      · exact ⟨hi.session s (on_ne_absent hon),
          captured_offered hg hi hon hof (.inr (on_startup hon))⟩
    · rw [World.sessions_advance he] at hp
      exact hi.replayed s ps hp
  | @drop s₀ | @abandon s₀ =>
    by_cases he : s = s₀
    · subst he
      exact hi.replayed s ps (by simpa [World.abort, World.setConn] using hp)
    · rw [World.sessions_abort he] at hp
      exact hi.replayed s ps hp
  | evict | backend | cancel | readSlot | readEmpty | deliver => exact hi.replayed s ps hp

theorem cache_step (hg : OwnIdentity w) (hi : Traced ms w) (h : step pool w a = some w')
    {key : Bytes × Bytes} {ps : CapturedParams} (hp : w'.cache key = some ps) :
    CapturedFor w key ps := by
  cases stepped h with
  | @session s i p e hon hof =>
    cases e with
    | store ps' =>
      by_cases hk : key = (w.sessions s).identity
      · subst hk
        have : ps' = ps := by simpa [World.advance] using hp
        subst this
        exact captured_offered hg hi hon hof (.inr (on_store hon))
      · exact hi.cache key ps (by simpa [World.advance, hk] using hp)
    | _ => exact hi.cache key ps hp
  | begin | drop | abandon | evict | backend | cancel | readSlot | readEmpty | deliver =>
    exact hi.cache key ps hp

theorem traced_step (hg : OwnIdentity w) (hi : Traced ms w) (hG : ∀ m, a.client = some m → m ∈ ms)
    (h : step pool w a = some w') : Traced ms w' := by
  refine ⟨fun s hp => ?_, fun c hne => ?_, fun s ps hp => ?_, fun s ps hp => ?_, fun key ps hp => ?_⟩
  · rcases session_step h s with ⟨hst, hab⟩ | ⟨hm, -, -⟩
    · rw [hst]
      exact hi.session s (hab hp)
    · exact hG _ hm
  · by_cases hf : (w.conns c).place = .fresh
    · obtain ⟨s, id, hid, hcid, hst⟩ := established_step hg h hf hne
      rw [hcid, hst]
      exact ⟨hi.session s (ne_absent_of_requestId hid), identity_requestId hid⟩
    · have hgrow := grows_step h hf
      rw [hgrow.startup, hgrow.id]
      exact hi.conn c hf
  · rcases session_step h s with ⟨hst, -⟩ | ⟨-, hcap, -⟩
    · rw [Session.identity, hst]
      exact (phase_captured_step hg hi h hp).step hg h
    · cases hcap.symm.trans hp
  · rcases session_step h s with ⟨hst, -⟩ | ⟨-, -, hrep⟩
    · rw [Session.identity, hst]
      have hrep := replayed_step hg hi h hp
      exact ⟨hrep.1, hrep.2.step hg h⟩
    · cases hrep.symm.trans hp
  · exact (cache_step hg hi h hp).step hg h

end

/-- **Clients of a role that agree on their parameters get their own.** In every run whose clients
of one user and database all present the same startup parameters, a session is leased only
connections established with its own parameters, and the `ParameterStatus` frames replayed to it
were captured from such a connection. -/
theorem startup_parameters_are_isolated (replicas : List Bytes) (mode : PoolMode)
    {as : List Action} {w : World} (hsame : SameParameters (clients as))
    (h : run (.withConnector replicas mode) as = some w) :
    (∀ s c, (w.sessions s).phase.holds = some c →
      (w.conns c).startup.parameters = (w.sessions s).startup.parameters) ∧
    (∀ s ps, (w.sessions s).replayed = some ps → ps.frames = (w.conns ps.origin).params ∧
      (w.conns ps.origin).startup.parameters = (w.sessions s).startup.parameters) := by
  have hG : Along (step (.withConnector replicas mode))
      (fun _ a => ∀ m, a.client = some m → m ∈ clients as) World.init as :=
    along_of_forall _ fun a ha _ m hm => List.mem_filterMap.mpr ⟨a, ha, hm⟩
  obtain ⟨hown, htr⟩ := exec_inv (I := fun w => OwnIdentity w ∧ Traced (clients as) w)
    (fun w a w' hi hG ha => ⟨(identity_local _ (fun _ _ => True)).step hi.1 trivial ha,
      traced_step hi.1 hi.2 hG ha⟩) ⟨Good.init, nofun, nofun, nofun, nofun, nofun⟩ hG h
  refine ⟨fun s c hc => ?_, fun s ps hp => ?_⟩
  · have hplace := ((hown c).owner s).mp hc
    obtain ⟨hmem, hid⟩ := htr.conn c (by simp [hplace])
    refine hsame _ hmem _ (htr.session s ?_) (hid.symm.trans ((hown c).leased s hplace))
    intro habs
    rw [habs] at hc
    cases hc
  · obtain ⟨hs, hcap⟩ := htr.replayed s ps hp
    obtain ⟨hmem, hid⟩ := htr.conn ps.origin hcap.established
    exact ⟨hcap.frames, hsame _ hmem _ hs (hid.symm.trans hcap.identity)⟩

/-- The same role and database with `DateStyle` set in the startup packet. -/
def aliceWithStyle : Bytes := startupMessage
  [(ascii "user", ascii "alice"), (ascii "database", ascii "app"), (ascii "DateStyle", ascii "German")]

def mixedParameters : List Action :=
  Sample.arrive 0 aliceWithStyle 0 ++ Sample.arriveNext 1 aliceInApp 0 ++ Sample.lease 1 0

/-- Session 1, whose client set no `DateStyle`, holds a connection established with the `DateStyle`
of session 0, and was replayed the parameters captured from it. -/
theorem startup_parameters_leak :
    (run (.withConnector [ascii "db"] .transaction) mixedParameters).map (fun w =>
      ((w.sessions 1).phase.holds, (w.sessions 1).replayed)) = some (some 0, some ⟨[], 0⟩) ∧
    (run (.withConnector [ascii "db"] .transaction) mixedParameters).map (fun w =>
      ((w.conns 0).startup.parameters, (w.sessions 1).startup.parameters)) =
    some (
      [(ascii "user", ascii "alice"), (ascii "database", ascii "app"),
        (ascii "DateStyle", ascii "German")],
      [(ascii "user", ascii "alice"), (ascii "database", ascii "app")]) := by
  decide +kernel

def equalParameters : List Action :=
  Sample.arrive 0 aliceWithStyle 0 ++ Sample.arriveNext 1 aliceWithStyle 0 ++ Sample.lease 1 0

theorem startup_parameters_are_isolated_when_equal :
    ∃ w, run (.withConnector [ascii "db"] .transaction) equalParameters = some w ∧
      (w.sessions 1).phase.holds = some 0 ∧
      (w.conns 0).startup.parameters = (w.sessions 1).startup.parameters := by
  have h : (run (.withConnector [ascii "db"] .transaction) equalParameters).map
      (fun w => (w.sessions 1).phase.holds) = some (some 0) := by
    decide +kernel
  obtain ⟨w, hw, hc⟩ := Option.map_eq_some_iff.mp h
  exact ⟨w, hw, hc, (startup_parameters_are_isolated [ascii "db"] .transaction
    (by decide +kernel) hw).1 1 0 hc⟩

end RamaPg.Pool
