import RamaPg.Pool.World

/-!
# Who holds a connection

A session's program only touches the connection it has leased: `Phase.on_touch` says how one step
changes what it holds. `Owned` is the agreement of the sessions with the pool about it, and `Local`
the rule the isolation results rest on: a property `J` of a leased connection and the phase of its
session, together with a property `K` of idle connections, holds throughout a run when every step
keeps it for the one connection it touches.
-/

namespace RamaPg.Pool

open RamaPg.Lib RamaPg.Codec RamaPg.Startup

/-- What one step of the program does to the lease. -/
inductive Touch (p : Phase) (i : In) (p' : Phase) (e : Effect) : Prop where
  | reuse (w : Want) (shard : Bytes) (c : ConnId) (hi : i = .leased c) (he : e = .none)
      (hp : p = .connect w shard) (hp' : p' = .held w c)
  | fresh (w : Want) (shard : Bytes) (c : ConnId) (frames : List RawMessage) (hasKey : Bool)
      (hi : i = .established c frames hasKey) (he : e = .none) (hp : p = .connect w shard)
      (hp' : p' = .held w c)
  | use (hp : p'.holds = p.holds) (hc : ∀ c, e.target = some c → p.holds = some c)
      (hi : ∀ w s k, World.changed w s i e k = k.perform s e) (ht : World.target i e = e.target)
      (he : ∀ s (k : Conn), (k.perform s e).place = k.place)
  | checkin (c : ConnId) (he : e = .checkin c) (hp : p.holds = some c) (hp' : p'.holds = none)
      (hi : ∀ w s k, World.changed w s i e k = k.perform s e) (ht : World.target i e = some c)
  | discard (c : ConnId) (he : e = .discard c) (hp : p.holds = some c) (hp' : p'.holds = none)
      (hi : ∀ w s k, World.changed w s i e k = k.perform s e) (ht : World.target i e = some c)

theorem Phase.on_touch {mode : PoolMode} {reset : Option RawMessage} {p p' : Phase} {i : In}
    {e : Effect} (h : p.on mode reset i = some (p', e)) : Touch p i p' e := by
  unfold Phase.on at h
  split at h <;> cases h
  case h_4 => exact .reuse _ _ _ rfl rfl rfl rfl
  case h_5 => exact .fresh _ _ _ _ _ rfl rfl rfl rfl
  all_goals first
    | exact .checkin _ rfl rfl rfl (fun _ _ _ => rfl) rfl
    | exact .discard _ rfl rfl rfl (fun _ _ _ => rfl) rfl
    | refine .use ?_ (fun c hc => ?_) (fun _ _ _ => rfl) rfl (fun _ _ => rfl)
  all_goals first
    | rfl
    | cases hc; done
    | cases hc; rfl
    | exact holds_firstFrame _
    | exact holds_clientArm _ _
    | exact holds_drainArm _ _
    | split
      · first | rfl | exact holds_relayed _ _ _ _
      · rfl

theorem Conn.perform_of_target_none {e : Effect} (h : e.target = none) (s : SessionId) (k : Conn) :
    k.perform s e = k := by
  cases e <;> first | rfl | cases h

/-! ## The local rule -/

/-- What a property of leased connections (`J`) and one of idle connections (`K`) have to meet to
hold throughout a run; `G` restricts the steps taken. -/
structure Local (pool : BackendPool) (G : World → Action → Prop)
    (J : SessionId → StartupMessage → Phase → Conn → Prop) (K : Conn → Prop) : Prop where
  reuse : ∀ {s : SessionId} {x : Session} {k : Conn} {w : Want} {c : ConnId}, K k →
    x.requestId = some k.id → J s x.startup (.held w c) { k with place := .leased s }
  fresh : ∀ {s : SessionId} {x : Session} {id : PgConnId} {w : Want} {c : ConnId}
    {frames : List RawMessage} {hasKey : Bool}, x.requestId = some id →
    J s x.startup (.held w c) (established x id (.leased s) frames hasKey)
  spare : ∀ {x : Session} {id : PgConnId} {frames : List RawMessage} {hasKey : Bool},
    x.requestId = some id → K (established x id .idle frames hasKey)
  use : ∀ {w : World} {s : SessionId} {c : ConnId} {i : In} {p : Phase} {e : Effect},
    Uses pool.mode pool.resetQuery c (w.sessions s).phase i p e → w.offers pool s i →
    G w (.session s i) → J s (w.sessions s).startup (w.sessions s).phase (w.conns c) →
    J s (w.sessions s).startup p ((w.conns c).perform s e)
  checkin : ∀ {s : SessionId} {m : StartupMessage} {c : ConnId} {k : Conn},
    J s m (.checkin c) k → K { k with place := .idle }
  checkin_params : ∀ {s : SessionId} {m : StartupMessage} {c : ConnId} {k : Conn},
    J s m (.held .params c) k → K { k with place := .idle }
  backend : ∀ {s : SessionId} {m : StartupMessage} {p : Phase} {k k' : Conn} {b : BackendAct},
    k.act b = some k' → J s m p k → J s m p k'
  backend_idle : ∀ {k k' : Conn} {b : BackendAct}, k.act b = some k' → K k → K k'

/-- Connection `c` is held by the session it is leased to and by no other, and meets the property
of its place. -/
structure Good (J : SessionId → StartupMessage → Phase → Conn → Prop) (K : Conn → Prop) (w : World)
    (c : ConnId) : Prop where
  owner : ∀ s, (w.sessions s).phase.holds = some c ↔ (w.conns c).place = .leased s
  leased : ∀ s, (w.conns c).place = .leased s →
    J s (w.sessions s).startup (w.sessions s).phase (w.conns c)
  idle : (w.conns c).place = .idle → K (w.conns c)

section

variable {pool : BackendPool} {G : World → Action → Prop}
  {J : SessionId → StartupMessage → Phase → Conn → Prop} {K : Conn → Prop}
  {w w' : World} {s : SessionId} {c : ConnId}

theorem Good.unique (h : Good J K w c) (hs : (w.sessions s).phase.holds = some c) {s' : SessionId}
    (hne : s' ≠ s) : (w.sessions s').phase.holds ≠ some c := by
  intro hs'
  have := ((h.owner s).mp hs).symm.trans ((h.owner s').mp hs')
  cases this
  exact hne rfl

/-- A connection that neither changes nor is held by the only session that does. -/
theorem Good.untouched (h : Good J K w c) (hc : w'.conns c = w.conns c)
    (hs : ∀ s', s' ≠ s → w'.sessions s' = w.sessions s')
    (hold : (w.sessions s).phase.holds ≠ some c) (hold' : (w'.sessions s).phase.holds ≠ some c) :
    Good J K w' c := by
  refine ⟨fun s' => ?_, fun s' hl => ?_, fun hi => ?_⟩
  · by_cases he : s' = s
    · subst he
      rw [hc, ← h.owner s']
      simp [hold, hold']
    · rw [hc, hs s' he]
      exact h.owner s'
  · rw [hc] at hl ⊢
    have he : s' ≠ s := by
      rintro rfl
      exact hold ((h.owner _).mpr hl)
    rw [hs s' he]
    exact h.leased s' hl
  · rw [hc] at hi ⊢
    exact h.idle hi

/-- A connection that session `s` holds after the step. -/
theorem Good.held (hs : (w.sessions s).phase.holds = some c) (hp : (w.conns c).place = .leased s)
    (ho : ∀ s', s' ≠ s → (w.sessions s').phase.holds ≠ some c)
    (hj : J s (w.sessions s).startup (w.sessions s).phase (w.conns c)) : Good J K w c := by
  refine ⟨fun s' => ?_, fun s' hl => ?_, fun hi => ?_⟩
  · by_cases he : s' = s
    · subst he
      simp [hs, hp]
    · simp [ho s' he, hp, Ne.symm he]
  · cases hp.symm.trans hl
    exact hj
  · cases hp.symm.trans hi

/-- A connection that no session holds after the step. -/
theorem Good.free (ho : ∀ s, (w.sessions s).phase.holds ≠ some c)
    (hp : ∀ s, (w.conns c).place ≠ .leased s) (hk : (w.conns c).place = .idle → K (w.conns c)) :
    Good J K w c :=
  ⟨fun s => by simp [ho s, hp s], fun s hl => absurd hl (hp s), hk⟩

section

variable {i : In} {p : Phase} {e : Effect}

/-- A connection other than the only one the step touches. -/
theorem Good.bystander {c₀ : ConnId} (h : Good J K w c) (hne : c ≠ c₀)
    (ht : World.target i e = some c₀)
    (hold : ∀ c', (w.sessions s).phase.holds = some c' → c' = c₀)
    (hnew : ∀ c', p.holds = some c' → c' = c₀) : Good J K (w.advance s i e p) c := by
  refine h.untouched (World.conns_advance_ne ?_) (fun _ => World.sessions_advance) ?_ ?_
  · rw [ht]
    exact fun he => hne (Option.some.inj he).symm
  · exact fun he => hne (hold c he)
  · rw [World.phase_advance]
    exact fun he => hne (hnew c he)

/-- A connection that no session holds, taken by session `s`. -/
theorem Good.taken (h : Good J K w c) (hp : p.holds = some c)
    (hfree : ∀ s', (w.conns c).place ≠ .leased s')
    (hplace : ((w.advance s i e p).conns c).place = .leased s)
    (hj : J s (w.sessions s).startup p ((w.advance s i e p).conns c)) :
    Good J K (w.advance s i e p) c := by
  refine .held (s := s) (by rw [World.phase_advance, hp]) hplace (fun s' hs' => ?_) ?_
  · rw [World.sessions_advance hs', ne_eq, h.owner s']
    exact hfree s'
  · rw [World.phase_advance, World.startup_advance]
    exact hj

/-- The connection session `s` holds, given back or thrown away. -/
theorem Good.returned (h : Good J K w c) (hs : (w.sessions s).phase.holds = some c)
    (hp : p.holds = none) (hplace : ∀ s', ((w.advance s i e p).conns c).place ≠ .leased s')
    (hk : ((w.advance s i e p).conns c).place = .idle → K ((w.advance s i e p).conns c)) :
    Good J K (w.advance s i e p) c := by
  refine .free (fun s' => ?_) hplace hk
  by_cases hs' : s' = s
  · subst hs'
    rw [World.phase_advance, hp]
    nofun
  · rw [World.sessions_advance hs']
    exact h.unique hs hs'

end

theorem Local.advance (hl : Local pool G J K) (hg : ∀ c, Good J K w c) {i : In} {p : Phase}
    {e : Effect} (hon : (w.sessions s).phase.on pool.mode pool.resetQuery i = some (p, e))
    (hof : w.offers pool s i) (hG : G w (.session s i)) (c : ConnId) :
    Good J K (w.advance s i e p) c := by
  have hother : ∀ s', s' ≠ s → (w.advance s i e p).sessions s' = w.sessions s' :=
    fun s' => World.sessions_advance
  rcases Phase.on_touch hon with
    ⟨want, shard, c₀, rfl, rfl, hp, rfl⟩ | ⟨want, shard, c₀, frames, hasKey, rfl, rfl, hp, rfl⟩ |
    ⟨hp, hc, hi, ht, hplace⟩ | ⟨c₀, rfl, hp, hp', hi, ht⟩ | ⟨c₀, rfl, hp, hp', hi, ht⟩
  · simp only [World.offers, Bool.decide_and, Bool.and_eq_true, decide_eq_true_eq] at hof
    by_cases he : c = c₀
    · subst he
      have hconn := @World.conns_advance w s (.leased c) .none (.held want c) c rfl
      refine (hg c).taken rfl (by rw [hof.1]; nofun) (by rw [hconn]; rfl) ?_
      rw [hconn]
      exact hl.reuse ((hg c).idle hof.1) hof.2
    · exact (hg c).bystander he rfl (by simp [hp, Phase.holds]) (by simp [Phase.holds, eq_comm])
  · simp only [World.offers, decide_eq_true_eq] at hof
    by_cases he : c = c₀
    · subst he
      have hconn := @World.conns_advance w s (.established c frames hasKey) .none (.held want c) c rfl
      refine (hg c).taken rfl (by rw [hof]; nofun) (by rw [hconn]; rfl) ?_
      have hid : (w.sessions s).requestId =
          some ⟨(w.sessions s).identity.1, (w.sessions s).identity.2, shard⟩ := by
        simp [Session.requestId, hp]
      rw [hconn]
      simp only [World.changed, hid, Option.getD_some]
      exact hl.fresh hid
    · exact (hg c).bystander he rfl (by simp [hp, Phase.holds]) (by simp [Phase.holds, eq_comm])
  · by_cases he : (w.sessions s).phase.holds = some c
    · have hconn : (w.advance s i e p).conns c = (w.conns c).perform s e := by
        by_cases hte : e.target = some c
        · rw [World.conns_advance (ht.trans hte), hi]
        · rw [World.conns_advance_ne (by rwa [ht])]
          have hnone : e.target = none := by
            rw [Option.eq_none_iff_forall_ne_some]
            intro c' hc'
            exact hte (hc'.trans ((hc c' hc').symm.trans he))
          rw [Conn.perform_of_target_none hnone]
      refine .held (s := s) (by rw [World.phase_advance, hp, he]) ?_ (fun s' hs' => ?_) ?_
      · rw [hconn, hplace]
        exact ((hg c).owner s).mp he
      · rw [hother s' hs']
        exact (hg c).unique he hs'
      · rw [hconn, World.phase_advance, World.startup_advance]
        exact hl.use (Phase.on_uses hon he (hp.trans he)) hof hG
          ((hg c).leased s (((hg c).owner s).mp he))
    · refine (hg c).untouched (World.conns_advance_ne ?_) hother he ?_
      · rw [ht]
        exact fun hte => he (hc c hte)
      · rwa [World.phase_advance, hp]
  · have hold : ∀ c', (w.sessions s).phase.holds = some c' → c' = c₀ :=
      fun c' hc' => Option.some.inj (hc'.symm.trans hp)
    by_cases he : c = c₀
    · subst he
      have hconn := @World.conns_advance w s i (.checkin c) p c ht
      rw [hi] at hconn
      refine (hg c).returned hp hp' (by rw [hconn]; nofun) fun _ => ?_
      rw [hconn]
      have hj := (hg c).leased s (((hg c).owner s).mp hp)
      rcases Phase.on_checkin hon with he | he
      · exact hl.checkin (he ▸ hj)
      · exact hl.checkin_params (he ▸ hj)
    · exact (hg c).bystander he ht hold (by simp [hp'])
  · have hold : ∀ c', (w.sessions s).phase.holds = some c' → c' = c₀ :=
      fun c' hc' => Option.some.inj (hc'.symm.trans hp)
    by_cases he : c = c₀
    · subst he
      have hconn := @World.conns_advance w s i (.discard c) p c ht
      rw [hi] at hconn
      refine (hg c).returned hp hp' (by rw [hconn]; nofun) fun hidle => ?_
      rw [hconn] at hidle
      cases hidle
    · exact (hg c).bystander he ht hold (by simp [hp'])

theorem Good.congr (h : Good J K w c) (hs : w'.sessions = w.sessions)
    (hc : w'.conns c = w.conns c) : Good J K w' c :=
  ⟨fun s => by rw [hs, hc]; exact h.owner s, fun s => by rw [hs, hc]; exact h.leased s,
    by rw [hc]; exact h.idle⟩

theorem Local.abort (hg : ∀ c, Good J K w c) (s : SessionId) (c : ConnId) :
    Good J K (w.abort s) c := by
  have hother : ∀ s', s' ≠ s → (w.abort s).sessions s' = w.sessions s' :=
    fun s' => World.sessions_abort
  by_cases he : (w.sessions s).phase.holds = some c
  · refine .free (fun s' => ?_) (fun s' => ?_) (fun hidle => ?_)
    · by_cases hs' : s' = s
      · subst hs'
        simp [Phase.holds]
      · rw [hother s' hs']
        exact (hg c).unique he hs'
    · rw [World.conns_abort_held he]
      nofun
    · rw [World.conns_abort_held he] at hidle
      cases hidle
  · exact (hg c).untouched (World.conns_abort he) hother he (by simp [Phase.holds])

/-- A connection comes into idle storage that was not in use before. -/
theorem Local.spare_conn (hl : Local pool G J K) (hg : ∀ c, Good J K w c) {id : PgConnId}
    {frames : List RawMessage} {hasKey : Bool} {c₀ : ConnId} (hf : (w.conns c₀).place = .fresh)
    (hid : (w.sessions s).requestId = some id) (c : ConnId) :
    Good J K (w.setConn c₀ (established (w.sessions s) id .idle frames hasKey)) c := by
  by_cases he : c = c₀
  · subst he
    refine .free (fun s' => ?_) (fun s' => ?_) (fun _ => ?_)
    · rw [World.sessions_setConn, ne_eq, (hg c).owner s', hf]
      nofun
    · rw [World.conns_setConn]
      nofun
    · rw [World.conns_setConn]
      exact hl.spare hid
  · exact (hg c).congr rfl (World.conns_setConn_ne _ he)

theorem Local.evict (hg : ∀ c, Good J K w c) {c₀ : ConnId} (hi : (w.conns c₀).place = .idle)
    (c : ConnId) : Good J K (w.setConn c₀ { w.conns c₀ with place := .gone }) c := by
  by_cases he : c = c₀
  · subst he
    refine .free (fun s' => ?_) (fun s' => ?_) (fun hidle => ?_)
    · rw [World.sessions_setConn, ne_eq, (hg c).owner s', hi]
      nofun
    · rw [World.conns_setConn]
      nofun
    · rw [World.conns_setConn] at hidle
      cases hidle
  · exact (hg c).congr rfl (World.conns_setConn_ne _ he)

theorem Local.act (hl : Local pool G J K) (hg : ∀ c, Good J K w c) {c₀ : ConnId} {k : Conn}
    {b : BackendAct} (hb : (w.conns c₀).act b = some k) (c : ConnId) :
    Good J K (w.setConn c₀ k) c := by
  by_cases he : c = c₀
  · subst he
    have hplace := (Conn.act_frame hb).1
    refine ⟨fun s' => ?_, fun s' hl' => ?_, fun hidle => ?_⟩
    · rw [World.sessions_setConn, World.conns_setConn, hplace]
      exact (hg c).owner s'
    · rw [World.conns_setConn] at hl' ⊢
      exact hl.backend hb ((hg c).leased s' (hplace ▸ hl'))
    · rw [World.conns_setConn] at hidle ⊢
      exact hl.backend_idle hb ((hg c).idle (hplace ▸ hidle))
  · exact (hg c).congr rfl (World.conns_setConn_ne _ he)

/-- **The local rule**, for one step. -/
theorem Local.step (hl : Local pool G J K) {a : Action} (hg : ∀ c, Good J K w c) (hG : G w a)
    (h : step pool w a = some w') (c : ConnId) : Good J K w' c := by
  cases stepped h with
  | @begin s _ _ _ p _ habs hp =>
    refine (hg c).untouched rfl (fun s' => World.sessions_setSession_ne _) (s := s) ?_ ?_
    · simp [habs, Phase.holds]
    · rw [World.sessions_setSession]
      rcases hp with rfl | rfl <;> nofun
  | session hon hof => exact hl.advance hg hon hof hG c
  | drop => exact Local.abort hg _ c
  | abandon hid hf => exact Local.abort (hl.spare_conn hg hf hid) _ c
  | evict hi => exact Local.evict hg hi c
  | backend hb => exact hl.act hg hb c
  | cancel | readSlot | readEmpty | deliver => exact (hg c).congr rfl rfl

/-- How the place of connection `c` can change in one step, from `old` to `new`. -/
inductive Moved (pool : BackendPool) (w : World) (a : Action) (w' : World) (c : ConnId) :
    Place → Place → Prop where
  | same {place : Place} : Moved pool w a w' c place place
  | fresh {place : Place} : Moved pool w a w' c .fresh place
  | reuse {s : SessionId} (ha : a = .session s (.leased c)) : Moved pool w a w' c .idle (.leased s)
  | evicted : Moved pool w a w' c .idle .gone
  | discarded {s : SessionId} : Moved pool w a w' c (.leased s) .gone
  | checkin {s : SessionId} {i : In} {p : Phase} (ha : a = .session s i)
      (hon : (w.sessions s).phase.on pool.mode pool.resetQuery i = some (p, .checkin c))
      (hw : w' = w.advance s i (.checkin c) p) : Moved pool w a w' c (.leased s) .idle

theorem moved_abort (hg : ∀ c, Good J K w c) (a : Action) (s : SessionId) (c : ConnId) :
    Moved pool w a w' c (w.conns c).place ((w.abort s).conns c).place := by
  by_cases he : (w.sessions s).phase.holds = some c
  · rw [World.conns_abort_held he, ((hg c).owner s).mp he]
    exact .discarded
  · rw [World.conns_abort he]
    exact .same

theorem moved_advance (hg : ∀ c, Good J K w c) {i : In} {p : Phase} {e : Effect}
    (hon : (w.sessions s).phase.on pool.mode pool.resetQuery i = some (p, e))
    (hof : w.offers pool s i) (c : ConnId) :
    Moved pool w (.session s i) (w.advance s i e p) c (w.conns c).place
      ((w.advance s i e p).conns c).place := by
  by_cases ht : World.target i e = some c
  · rw [World.conns_advance ht]
    rcases Phase.on_touch hon with
      ⟨want, shard, c₀, rfl, rfl, hp, rfl⟩ | ⟨want, shard, c₀, frames, hasKey, rfl, rfl, hp, rfl⟩ |
      ⟨hp, hc, hi, ht', hplace⟩ | ⟨c₀, rfl, hp, hp', hi, ht'⟩ | ⟨c₀, rfl, hp, hp', hi, ht'⟩
    · cases ht
      simp only [World.offers, Bool.decide_and, Bool.and_eq_true, decide_eq_true_eq] at hof
      rw [hof.1]
      exact .reuse rfl
    · cases ht
      simp only [World.offers, decide_eq_true_eq] at hof
      rw [hof]
      exact .fresh
    · rw [hi, hplace]
      exact .same
    · cases ht'.symm.trans ht
      rw [hi, ((hg c).owner s).mp hp]
      exact .checkin rfl hon rfl
    · cases ht'.symm.trans ht
      rw [hi, ((hg c).owner s).mp hp]
      exact .discarded
  · rw [World.conns_advance_ne ht]
    exact .same

theorem holds_of_requestId {x : Session} {id : PgConnId} (h : x.requestId = some id) :
    x.phase.holds = none := by
  unfold Session.requestId at h
  split at h
  next hp => rw [hp]; rfl
  · cases h

theorem moved_step {a : Action} (hg : ∀ c, Good J K w c) (h : step pool w a = some w')
    (c : ConnId) : Moved pool w a w' c (w.conns c).place (w'.conns c).place := by
  cases stepped h with
  | session hon hof => exact moved_advance hg hon hof c
  | drop => exact moved_abort hg _ _ c
  | @abandon s c₀ _ _ _ hid hf =>
    rw [World.conns_abort (by simp [holds_of_requestId hid])]
    refine World.setConn_cases (P := fun k => Moved _ _ _ _ _ (w.conns c).place k.place)
      (fun he => ?_) (fun _ => .same)
    rw [he, hf]
    exact .fresh
  | @evict c₀ hi =>
    refine World.setConn_cases (P := fun k => Moved _ _ _ _ _ (w.conns c).place k.place)
      (fun he => ?_) (fun _ => .same)
    rw [he, hi]
    exact .evicted
  | @backend c₀ _ k hb =>
    refine World.setConn_cases (P := fun k => Moved _ _ _ _ _ (w.conns c).place k.place)
      (fun he => ?_) (fun _ => .same)
    rw [he, (Conn.act_frame hb).1]
    exact .same
  | begin | cancel | readSlot | readEmpty | deliver => exact .same

/-- What an established connection keeps: who it is and how it was established, and all that was
written to it. -/
structure Grows (k k' : Conn) : Prop where
  id : k'.id = k.id
  startup : k'.startup = k.startup
  params : k'.params = k.params
  log : k.log <+: k'.log

theorem Grows.refl (k : Conn) : Grows k k := ⟨rfl, rfl, rfl, List.prefix_refl _⟩

theorem Grows.perform (s : SessionId) (k : Conn) (e : Effect) : Grows k (k.perform s e) := by
  cases e
  case send | carry | reset | drained => exact ⟨rfl, rfl, rfl, List.prefix_append _ _⟩
  all_goals exact ⟨rfl, rfl, rfl, List.prefix_refl _⟩

theorem Grows.abort (w : World) (s : SessionId) (c : ConnId) :
    Grows (w.conns c) ((w.abort s).conns c) := by
  by_cases he : (w.sessions s).phase.holds = some c
  · rw [World.conns_abort_held he]
    exact ⟨rfl, rfl, rfl, List.prefix_refl _⟩
  · rw [World.conns_abort he]
    exact .refl _

theorem Grows.advance {i : In} {p : Phase} {e : Effect}
    (hon : (w.sessions s).phase.on pool.mode pool.resetQuery i = some (p, e))
    (hof : w.offers pool s i) {c : ConnId} (hne : (w.conns c).place ≠ .fresh) :
    Grows (w.conns c) ((w.advance s i e p).conns c) := by
  by_cases ht : World.target i e = some c
  · rw [World.conns_advance ht]
    rcases Phase.on_touch hon with
      ⟨want, shard, c₀, rfl, rfl, hp, rfl⟩ | ⟨want, shard, c₀, frames, hasKey, rfl, rfl, hp, rfl⟩ |
      ⟨hp, hc, hi, ht', hplace⟩ | ⟨c₀, rfl, hp, hp', hi, ht'⟩ | ⟨c₀, rfl, hp, hp', hi, ht'⟩
    · exact ⟨rfl, rfl, rfl, List.prefix_refl _⟩
    · cases ht
      simp only [World.offers, decide_eq_true_eq] at hof
      exact absurd hof hne
    all_goals
      rw [hi]
      exact .perform s _ _
  · rw [World.conns_advance_ne ht]
    exact .refl _

theorem grows_step {a : Action} (h : step pool w a = some w') {c : ConnId}
    (hne : (w.conns c).place ≠ .fresh) : Grows (w.conns c) (w'.conns c) := by
  cases stepped h with
  | session hon hof => exact .advance hon hof hne
  | drop => exact .abort w _ c
  | @abandon s c₀ frames hasKey id hid hf =>
    have hc : c ≠ c₀ := by
      rintro rfl
      exact hne hf
    have := Grows.abort (w.setConn c₀ (established (w.sessions s) id .idle frames hasKey)) s c
    rwa [World.conns_setConn_ne _ hc] at this
  | @evict c₀ hi =>
    refine World.setConn_cases (P := Grows (w.conns c)) (fun he => ?_) (fun _ => .refl _)
    rw [he]
    exact ⟨rfl, rfl, rfl, List.prefix_refl _⟩
  | @backend c₀ _ k hb =>
    refine World.setConn_cases (P := Grows (w.conns c)) (fun he => ?_) (fun _ => .refl _)
    obtain ⟨-, hid, hst, hpa, hlog⟩ := Conn.act_frame hb
    rw [he]
    exact ⟨hid, hst, hpa, hlog ▸ List.prefix_refl _⟩
  | begin | cancel | readSlot | readEmpty | deliver => exact .refl _

theorem not_fresh_step {a : Action} (hg : ∀ c, Good J K w c) (h : step pool w a = some w')
    {c : ConnId} (hne : (w.conns c).place ≠ .fresh) : (w'.conns c).place ≠ .fresh := by
  have hm := moved_step hg h c
  generalize (w.conns c).place = old at hm hne
  generalize (w'.conns c).place = new at hm
  cases hm with
  | same => exact hne
  | fresh => exact absurd rfl hne
  | reuse | evicted | discarded | checkin => nofun

theorem Good.init (c : ConnId) : Good J K World.init c :=
  .free (fun _ => nofun) (fun _ => nofun) nofun

/-- **The local rule**, for whole runs. -/
theorem Local.run (hl : Local pool G J K) {as : List Action} (hG : Along (Pool.step pool) G World.init as)
    (h : Pool.run pool as = some w) (c : ConnId) : Good J K w c :=
  exec_inv (I := fun w => ∀ c, Good J K w c) (fun _ _ _ hg hG h => hl.step hg hG h) Good.init hG h c

end

end RamaPg.Pool
