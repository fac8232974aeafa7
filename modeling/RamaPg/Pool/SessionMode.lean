import RamaPg.Pool.Roles

/-!
# Session mode

A pool in session mode leases a session one backend, relays bytes to it until either side is done,
and discards it. The invariant is that whatever names a session at a connection (its phase, bytes it
wrote there, its cancel slot, a cancel with its key) names the one connection that was leased to it,
which is still its own or is gone for good. So the connection carries the bytes of one client and
nothing else, and a cancel can be late but never hits another session: the window that the other
modes leave open between checkin and `clear` is not there.
-/

namespace RamaPg.Pool

open RamaPg.Lib RamaPg.Codec RamaPg.Startup

def Want.ofSession : Want → Bool
  | .transaction _ => false
  | .params | .session => true

/-- The points of the program that a session of a pool in session mode gets to. -/
def Phase.ofSession : Phase → Bool
  | .absent | .rejecting | .lookup | .cache _ | .synthesize _ => true
  | .pick w | .connect w _ | .held w _ => w.ofSession
  | .copy _ | .copied _ | .cleared _ | .closing | .closed => true
  | _ => false

/-- The connection whose bytes the session relays, or has relayed and is about to discard. -/
def Phase.paired : Phase → Option ConnId
  | .copy c | .copied c | .cleared c => some c
  | _ => none

/-- The session has ended, or is about to. -/
def Phase.over : Phase → Bool
  | .closing | .closed => true
  | _ => false

section

variable {reset : Option RawMessage} {p p' : Phase} {i : In} {e : Effect} {c : ConnId}

theorem holds_of_paired (h : p.paired = some c) : p.holds = some c := by
  cases p <;> first | exact h | cases h

theorem paired_of_armed (hp : p.ofSession) (ha : p.armed) (hh : p.holds = some c) :
    p.paired = some c := by
  cases p <;> first | exact hh | cases hp | cases ha

theorem not_paired_of_over (h : p.over) : p.paired = none := by
  cases p <;> first | rfl | cases h

theorem holds_of_over (h : p.over) : p.holds = none := by
  cases p <;> first | rfl | cases h

theorem ofSession_on (h : p.on .session reset i = some (p', e)) (hp : p.ofSession) :
    p'.ofSession := by
  unfold Phase.on at h
  split at h <;> cases h
  all_goals first
    | rfl
    | exact hp
    | cases hp

theorem over_on {mode : PoolMode} (h : p.on mode reset i = some (p', e)) (hp : p.over) :
    p'.over := by
  unfold Phase.on at h
  split at h <;> cases h
  all_goals first
    | rfl
    | cases hp

/-- A session is paired with the connection it holds, and stays so until it is about to end. -/
theorem paired_on (h : p.on .session reset i = some (p', e)) (hp : p.paired = some c) :
    p'.paired = some c ∨ p'.over ∧ e = .discard c := by
  cases p with
  | copy | copied | cleared =>
    cases hp
    unfold Phase.on at h
    split at h <;> cases h
    all_goals first
      | contradiction
      | rename_i heq
        cases heq
        first | exact .inl rfl | exact .inr ⟨rfl, rfl⟩
  | _ => cases hp

/-- A session comes to be paired with the connection that was leased to it for the session. -/
theorem on_paired (h : p.on .session reset i = some (p', e)) (hp : p.ofSession)
    (hp' : p'.paired = some c) : p.paired = some c ∨ p = .held .session c ∧ e = .set c := by
  unfold Phase.on at h
  split at h <;> cases h
  all_goals first
    | exact .inl hp'
    | cases hp; done
    | cases hp'
      first | exact .inl rfl | exact .inr ⟨rfl, rfl⟩
    | cases hp'

theorem on_carried {bytes : Bytes} (h : p.on .session reset (.carried bytes) = some (p', e)) :
    ∃ c, p = .copy c ∧ p' = .copy c ∧ e = .carry c bytes := by
  unfold Phase.on at h
  split at h <;> cases h
  all_goals first
    | contradiction
    | rename_i heq
      cases heq
      exact ⟨_, rfl, rfl, rfl⟩

/-- No other step of session mode writes to the connection. -/
theorem log_perform_of_ne (h : p.on .session reset i = some (p', e)) (hp : p.ofSession)
    (hi : ∀ bytes, i ≠ .carried bytes) (s : SessionId) (k : Conn) :
    (k.perform s e).log = k.log := by
  unfold Phase.on at h
  split at h <;> cases h
  all_goals first
    | rfl
    | cases hp; done
    | exact absurd rfl (hi _)

end

/-! ## One step -/

/-- What a step makes of the phase of session `s`. -/
inductive PhaseStep (pool : BackendPool) (w : World) (a : Action) (s : SessionId) (p' : Phase) :
    Prop where
  | same (hp : p' = (w.sessions s).phase) (ha : ∀ i, a ≠ .session s i)
  | on (i : In) (e : Effect) (ha : a = .session s i)
      (h : (w.sessions s).phase.on pool.mode pool.resetQuery i = some (p', e))
  | dropped (hp : p' = .closing) (ha : ∀ i, a ≠ .session s i)
  | begun (hp : (w.sessions s).phase = .absent) (hp' : p' = .rejecting ∨ p' = .lookup)
      (ha : ∀ i, a ≠ .session s i)

section

variable {pool : BackendPool} {w w' : World} {a : Action} {s : SessionId} {c : ConnId}

theorem phase_step (h : step pool w a = some w') (s : SessionId) :
    PhaseStep pool w a s (w'.sessions s).phase := by
  cases stepped h with
  | @begin s₀ _ _ _ p _ habs hp =>
    by_cases he : s = s₀
    · subst he
      rw [World.sessions_setSession]
      exact .begun habs hp (by rintro i ⟨⟩)
    · rw [World.sessions_setSession_ne _ he]
      exact .same rfl (by rintro i ⟨⟩)
  | @session s₀ i p e hon =>
    by_cases he : s = s₀
    · subst he
      rw [World.phase_advance]
      exact .on i e rfl hon
    · rw [World.sessions_advance he]
      refine .same rfl fun i' ha => he ?_
      cases ha
      rfl
  | @drop s₀ | @abandon s₀ =>
    by_cases he : s = s₀
    · subst he
      rw [World.phase_abort]
      exact .dropped rfl (by rintro i ⟨⟩)
    · rw [World.sessions_abort he]
      exact .same rfl (by rintro i ⟨⟩)
  | evict | backend | cancel | readSlot | readEmpty | deliver => exact .same rfl (by rintro i ⟨⟩)

theorem ofSession_step (hm : pool.mode = .session) (h : step pool w a = some w')
    (hp : (w.sessions s).phase.ofSession) : (w'.sessions s).phase.ofSession := by
  cases phase_step h s with
  | same he => rwa [he]
  | on i e _ hon => exact ofSession_on (hm ▸ hon) hp
  | dropped he => rw [he]; rfl
  | begun _ he => rcases he with he | he <;> rw [he] <;> rfl

theorem over_step (h : step pool w a = some w') (hp : (w.sessions s).phase.over) :
    (w'.sessions s).phase.over := by
  cases phase_step h s with
  | same he => rwa [he]
  | on i e _ hon => exact over_on hon hp
  | dropped he => rw [he]; rfl
  | begun habs => rw [habs] at hp; cases hp

theorem paired_step (hm : pool.mode = .session) (h : step pool w a = some w')
    (hp : (w.sessions s).phase.paired = some c) :
    (w'.sessions s).phase.paired = some c ∨ (w'.sessions s).phase.over := by
  cases phase_step h s with
  | same he => exact .inl (he ▸ hp)
  | on i e _ hon => exact (paired_on (hm ▸ hon) hp).imp_right And.left
  | dropped he => rw [he]; exact .inr rfl
  | begun habs => rw [habs] at hp; cases hp

/-- What a step carries from a client to connection `c`. -/
def carriedTo (w : World) (c : ConnId) : Action → List Wrote
  | .session s (.carried bytes) => if (w.sessions s).phase = .copy c then [.carried s bytes] else []
  | _ => []

/-- In session mode nothing else is written to a connection once it is established. -/
theorem log_step_session (hm : pool.mode = .session) (hp : ∀ s, (w.sessions s).phase.ofSession)
    (h : step pool w a = some w') (c : ConnId) :
    (w'.conns c).log = (w.conns c).log ++ carriedTo w c a ∨
      (w.conns c).place = .fresh ∧ (w'.conns c).log = [] := by
  cases stepped h with
  | @session s i p e hon hof =>
    rw [hm] at hon
    by_cases hi : ∃ bytes, i = .carried bytes
    · obtain ⟨bytes, rfl⟩ := hi
      obtain ⟨c₀, hp₀, rfl, rfl⟩ := on_carried hon
      refine .inl ?_
      by_cases he : c₀ = c
      · subst he
        rw [World.conns_advance rfl, carriedTo, if_pos hp₀]
        rfl
      · have hne : (w.sessions s).phase ≠ .copy c := by
          rw [hp₀]
          exact fun hc => he (Phase.copy.inj hc)
        have ht : World.target (.carried bytes) (.carry c₀ bytes) ≠ some c :=
          fun ht => he (Option.some.inj ht)
        rw [World.conns_advance_ne ht, carriedTo, if_neg hne, List.append_nil]
    · have hi : ∀ bytes, i ≠ .carried bytes := fun bytes hb => hi ⟨bytes, hb⟩
      have hnil : carriedTo w c (.session s i) = [] := by
        unfold carriedTo
        split
        next s₀ bytes ha => cases ha; exact absurd rfl (hi bytes)
        · rfl
      rw [hnil, List.append_nil]
      by_cases ht : World.target i e = some c
      · rw [World.conns_advance ht]
        rcases Phase.on_touch hon with
          ⟨want, shard, c₀, rfl, rfl, -, rfl⟩ | ⟨want, shard, c₀, frames, hasKey, rfl, rfl, -, rfl⟩ |
          ⟨-, -, hch, -⟩ | ⟨c₀, rfl, -, -, hch, -⟩ | ⟨c₀, rfl, -, -, hch, -⟩
        · exact .inl rfl
        · cases ht
          simp only [World.offers, decide_eq_true_eq] at hof
          exact .inr ⟨hof, rfl⟩
        all_goals
          rw [hch]
          exact .inl (log_perform_of_ne hon (hp s) hi s _)
      · rw [World.conns_advance_ne ht]
        exact .inl rfl
  | @drop s =>
    refine .inl (Eq.trans ?_ (List.append_nil _).symm)
    by_cases he : (w.sessions s).phase.holds = some c
    · rw [World.conns_abort_held he]
    · rw [World.conns_abort he]
  | @abandon s c₀ frames hasKey id hid hf =>
    rw [World.conns_abort (by simp [holds_of_requestId hid])]
    by_cases he : c = c₀
    · subst he
      rw [World.conns_setConn]
      exact .inr ⟨hf, rfl⟩
    · rw [World.conns_setConn_ne _ he]
      exact .inl (List.append_nil _).symm
  | @evict c₀ =>
    refine .inl ((World.setConn_cases (P := fun k => k.log = (w.conns c).log) (fun he => ?_)
      fun _ => rfl).trans (List.append_nil _).symm)
    rw [he]
  | @backend c₀ _ k hb =>
    refine .inl ((World.setConn_cases (P := fun k => k.log = (w.conns c).log) (fun he => ?_)
      fun _ => rfl).trans (List.append_nil _).symm)
    rw [he, (Conn.act_frame hb).2.2.2.2]
  | begin | cancel | readSlot | readEmpty | deliver => exact .inl (List.append_nil _).symm

end

/-! ## Whole runs -/

/-- Session `s` has, or had, to do with connection `c`. -/
inductive Tied (w : World) (s : SessionId) (c : ConnId) : Prop where
  | paired (h : (w.sessions s).phase.paired = some c)
  | wrote (x : Wrote) (h : x ∈ (w.conns c).log) (ha : x.author = some s)
  | slot (h : (w.sessions s).slot = some c)
  | target (h : .target s c ∈ w.cancels)
  | delivered (place : Place) (h : ⟨s, c, place⟩ ∈ w.delivered)

/-- Connection `c` is the session's own, or both are done for. -/
def Bound (w : World) (s : SessionId) (c : ConnId) : Prop :=
  ((w.sessions s).phase.paired = some c ∧ (w.conns c).place = .leased s) ∨
    ((w.sessions s).phase.over ∧ (w.conns c).place = .gone)

def Action.carries (s : SessionId) : Action → Option Bytes
  | .session s' (.carried bytes) => if s' = s then some bytes else none
  | _ => none

/-- The client bytes that session `s` carried in a run, in order. -/
def carriedBy (s : SessionId) (as : List Action) : List Bytes := as.filterMap (Action.carries s)

structure OneToOne (w : World) : Prop where
  phases : ∀ s, (w.sessions s).phase.ofSession
  bound : ∀ s c, Tied w s c → Bound w s c
  session : ∀ s s' c, Tied w s c → Tied w s' c → s = s'
  conn : ∀ s c c', Tied w s c → Tied w s c' → c = c'
  delivered : ∀ d ∈ w.delivered, d.place = .leased d.key ∨ d.place = .gone

/-- Each connection carried what its session did, as far as the run `as` has come. -/
structure Piped (as : List Action) (w : World) : Prop where
  only : ∀ c, ∀ x ∈ (w.conns c).log, ∃ s bytes, x = .carried s bytes
  pipe : ∀ s c, Tied w s c → (w.conns c).log = (carriedBy s as).map (.carried s)
  kept : ∀ s, carriedBy s as ≠ [] → ∃ c, Tied w s c

section

variable {pool : BackendPool} {w w' : World} {a : Action} {as : List Action} {s s' : SessionId}
  {c c' : ConnId}

theorem mem_carriedTo {x : Wrote} (h : x ∈ carriedTo w c a) :
    ∃ s bytes, a = .session s (.carried bytes) ∧ (w.sessions s).phase = .copy c ∧
      x = .carried s bytes := by
  unfold carriedTo at h
  split at h
  next s bytes =>
    split at h
    next hp => exact ⟨s, bytes, rfl, hp, List.mem_singleton.mp h⟩
    · cases h
  · cases h

/-- A session comes to have to do with a connection by being paired with it. -/
theorem tied_step (hm : pool.mode = .session) (hi : OneToOne w) (h : step pool w a = some w')
    (ht : Tied w' s c) : Tied w s c ∨ (w'.sessions s).phase.paired = some c := by
  cases ht with
  | paired hp => exact .inr hp
  | wrote x hx ha =>
    refine .inl ?_
    rcases log_step_session hm hi.phases h c with hl | ⟨-, hl⟩
    · rw [hl, List.mem_append] at hx
      rcases hx with hx | hx
      · exact .wrote x hx ha
      · obtain ⟨s₀, bytes, -, hp, rfl⟩ := mem_carriedTo hx
        cases ha
        exact .paired (by rw [hp]; rfl)
    · rw [hl] at hx
      cases hx
  | slot hs =>
    rcases slot_step_holds h hs with hs | ⟨hh, harm⟩
    · exact .inl (.slot hs)
    · exact .inr (paired_of_armed (ofSession_step hm h (hi.phases s)) harm hh)
  | target ht => exact .inl ((target_origin h ht).elim .target .slot)
  | delivered place hd =>
    exact .inl ((delivered_origin h hd).elim (.delivered place) fun hd => .target hd.1)

theorem Owned.leased_of_paired (hg : Owned w) (hp : (w.sessions s).phase.paired = some c) :
    (w.conns c).place = .leased s :=
  ((hg c).owner s).mp (holds_of_paired hp)

theorem bound_step (hm : pool.mode = .session) (hg : Owned w) (hg' : Owned w')
    (h : step pool w a = some w') (hb : Bound w s c) : Bound w' s c := by
  rcases hb with ⟨hp, hl⟩ | ⟨ho, hgone⟩
  · rcases paired_step hm h hp with hp' | ho'
    · exact .inl ⟨hp', hg'.leased_of_paired hp'⟩
    · refine .inr ⟨ho', ?_⟩
      have hnone := holds_of_over ho'
      have hmoved := moved_step hg h c
      rw [hl] at hmoved
      generalize hnew : (w'.conns c).place = new at hmoved
      cases hmoved with
      | same => cases hnone.symm.trans (((hg' c).owner s).mpr hnew)
      | discarded => rfl
      | checkin _ hon =>
        rcases Phase.on_checkin hon with he | he <;> rw [he] at hp <;> cases hp
  · exact .inr ⟨over_step h ho, gone_step hg h hgone⟩

theorem Bound.exclusive (hg : Owned w) (hp : (w.sessions s).phase.paired = some c)
    (hb : Bound w s' c) : s = s' := by
  have hl := hg.leased_of_paired hp
  rcases hb with ⟨-, hl'⟩ | ⟨-, hgone⟩
  · cases hl.symm.trans hl'
    rfl
  · cases hl.symm.trans hgone

theorem Bound.conn (hp : (w.sessions s).phase.paired = some c) (hb : Bound w s c') : c = c' := by
  rcases hb with ⟨hp', -⟩ | ⟨ho, -⟩
  · exact Option.some.inj (hp.symm.trans hp')
  · rw [not_paired_of_over ho] at hp
    cases hp

theorem oneToOne_step (hm : pool.mode = .session) (hg : Owned w) (hg' : Owned w')
    (hi : OneToOne w) (h : step pool w a = some w') : OneToOne w' := by
  have hbound : ∀ s c, Tied w' s c → Bound w' s c := by
    intro s c ht
    rcases tied_step hm hi h ht with ht | hp
    · exact bound_step hm hg hg' h (hi.bound s c ht)
    · exact .inl ⟨hp, hg'.leased_of_paired hp⟩
  refine ⟨fun s => ofSession_step hm h (hi.phases s), hbound, fun s s' c ht ht' => ?_,
    fun s c c' ht ht' => ?_, fun d hd => ?_⟩
  · rcases tied_step hm hi h ht with hs | hp
    · rcases tied_step hm hi h ht' with hs' | hp'
      · exact hi.session s s' c hs hs'
      · exact (Bound.exclusive hg' hp' (hbound s c ht)).symm
    · exact Bound.exclusive hg' hp (hbound s' c ht')
  · rcases tied_step hm hi h ht with hc | hp
    · rcases tied_step hm hi h ht' with hc' | hp'
      · exact hi.conn s c c' hc hc'
      · exact (Bound.conn hp' (hbound s c ht)).symm
    · exact Bound.conn hp (hbound s c' ht')
  · rcases delivered_origin h hd with hd | ⟨ht, hp⟩
    · exact hi.delivered d hd
    · rw [hp]
      exact (hi.bound _ _ (.target ht)).imp And.right And.right

theorem carriedBy_append : carriedBy s (as ++ [a]) = carriedBy s as ++ (a.carries s).toList := by
  unfold carriedBy
  rw [List.filterMap_append]
  cases h : a.carries s <;> simp [h]

theorem carries_some {bytes : Bytes} (h : a.carries s = some bytes) :
    a = .session s (.carried bytes) := by
  unfold Action.carries at h
  split at h
  · split at h
    next he => cases h; rw [he]
    · cases h
  · cases h

theorem carrying (hm : pool.mode = .session) {bytes : Bytes}
    (h : step pool w (.session s (.carried bytes)) = some w') :
    ∃ c, (w.sessions s).phase = .copy c ∧ (w'.sessions s).phase = .copy c := by
  cases phase_step h s with
  | on i e ha hon =>
    cases ha
    obtain ⟨c, hp, hp', -⟩ := on_carried (hm ▸ hon)
    exact ⟨c, hp, hp'⟩
  | same _ ha | dropped _ ha | begun _ _ ha => exact absurd rfl (ha _)

/-- A connection is carried the bytes of the one session it has to do with. -/
theorem carriedTo_tied (hm : pool.mode = .session) (hi : OneToOne w) (h : step pool w a = some w')
    (ht : Tied w s c) : carriedTo w c a = (a.carries s).toList.map (.carried s) := by
  cases hc : a.carries s with
  | some bytes =>
    obtain rfl := carries_some hc
    obtain ⟨c₀, hp, -⟩ := carrying hm h
    obtain rfl := hi.conn s c c₀ ht (.paired (by rw [hp]; rfl))
    rw [carriedTo, if_pos hp]
    rfl
  | none =>
    refine List.eq_nil_iff_forall_not_mem.mpr fun x hx => ?_
    obtain ⟨s₀, bytes, rfl, hp, -⟩ := mem_carriedTo hx
    obtain rfl := hi.session s s₀ c ht (.paired (by rw [hp]; rfl))
    rw [Action.carries, if_pos rfl] at hc
    cases hc

theorem Bound.log_step (hm : pool.mode = .session) (hi : OneToOne w) (h : step pool w a = some w')
    (hb : Bound w s c) : (w'.conns c).log = (w.conns c).log ++ carriedTo w c a := by
  refine (log_step_session hm hi.phases h c).resolve_right fun hf => ?_
  rcases hb with ⟨-, hp⟩ | ⟨-, hp⟩ <;> cases hf.1.symm.trans hp

/-- Before it is paired with it, a session has carried nothing, and its connection nothing either. -/
theorem pipe_begins (hm : pool.mode = .session) (hg : Owned w) (hi : OneToOne w)
    (hP : Piped as w) (h : step pool w a = some w') (hp : (w.sessions s).phase = .held .session c) :
    (w'.conns c).log = [] ∧ carriedBy s as = [] := by
  have hl : (w.conns c).place = .leased s := ((hg c).owner s).mp (by rw [hp]; rfl)
  have hfree : ∀ s₀, ¬ Tied w s₀ c := by
    intro s₀ ht
    rcases hi.bound s₀ c ht with ⟨hp₀, hl₀⟩ | ⟨-, hgone⟩
    · cases hl.symm.trans hl₀
      rw [hp] at hp₀
      cases hp₀
    · cases hl.symm.trans hgone
  have hlog : (w.conns c).log = [] := by
    refine List.eq_nil_iff_forall_not_mem.mpr fun x hx => ?_
    obtain ⟨s₀, bytes, rfl⟩ := hP.only c x hx
    exact hfree s₀ (.wrote _ hx rfl)
  constructor
  · rcases log_step_session hm hi.phases h c with hl' | ⟨-, hl'⟩
    · rw [hl', hlog, List.nil_append]
      refine List.eq_nil_iff_forall_not_mem.mpr fun x hx => ?_
      obtain ⟨s₀, bytes, -, hp₀, -⟩ := mem_carriedTo hx
      exact hfree s₀ (.paired (by rw [hp₀]; rfl))
    · exact hl'
  · by_contra hne
    obtain ⟨c₀, ht⟩ := hP.kept s hne
    rcases hi.bound s c₀ ht with ⟨hp₀, -⟩ | ⟨ho, -⟩
    · rw [hp] at hp₀
      cases hp₀
    · rw [hp] at ho
      cases ho

theorem pipe_step (hm : pool.mode = .session) (hg : Owned w) (hi : OneToOne w) (hP : Piped as w)
    (h : step pool w a = some w') (ht : Tied w' s c) :
    (w'.conns c).log = (carriedBy s (as ++ [a])).map (.carried s) := by
  have hold : Tied w s c → (w'.conns c).log = (carriedBy s (as ++ [a])).map (.carried s) := by
    intro ht
    rw [(hi.bound s c ht).log_step hm hi h, hP.pipe s c ht, carriedTo_tied hm hi h ht,
      carriedBy_append, List.map_append]
  rcases tied_step hm hi h ht with ht | hp'
  · exact hold ht
  · cases phase_step h s with
    | same he => exact hold (.paired (he ▸ hp'))
    | on i e ha hon =>
      rcases on_paired (hm ▸ hon) (hi.phases s) hp' with hp | ⟨hp, he⟩
      · exact hold (.paired hp)
      · have hnone : a.carries s = none := by
          cases hc : a.carries s with
          | none => rfl
          | some bytes =>
            obtain rfl := carries_some hc
            obtain ⟨c₀, hp₀, -⟩ := carrying hm h
            cases hp.symm.trans hp₀
        obtain ⟨hlog, hnil⟩ := pipe_begins hm hg hi hP h hp
        rw [hlog, carriedBy_append, hnil, hnone]
        rfl
    | dropped he => rw [he] at hp'; cases hp'
    | begun _ he => rcases he with he | he <;> rw [he] at hp' <;> cases hp'

theorem piped_step (hm : pool.mode = .session) (hg : Owned w) (hi : OneToOne w) (hP : Piped as w)
    (h : step pool w a = some w') : Piped (as ++ [a]) w' := by
  refine ⟨fun c x hx => ?_, fun s c ht => pipe_step hm hg hi hP h ht, fun s hne => ?_⟩
  · rcases log_step_session hm hi.phases h c with hl | ⟨-, hl⟩
    · rw [hl, List.mem_append] at hx
      rcases hx with hx | hx
      · exact hP.only c x hx
      · obtain ⟨s, bytes, -, -, he⟩ := mem_carriedTo hx
        exact ⟨s, bytes, he⟩
    · rw [hl] at hx
      cases hx
  · by_cases hc : carriedBy s as = []
    · rw [carriedBy_append, hc, List.nil_append] at hne
      cases ha : a.carries s with
      | none => rw [ha] at hne; exact absurd rfl hne
      | some bytes =>
        obtain rfl := carries_some ha
        obtain ⟨c, -, hp'⟩ := carrying hm h
        exact ⟨c, .paired (by rw [hp']; rfl)⟩
    · obtain ⟨c, ht⟩ := hP.kept s hc
      obtain ⟨bytes, hb⟩ := List.exists_mem_of_ne_nil _ hc
      refine ⟨c, .wrote (.carried s bytes) ?_ rfl⟩
      rw [(hi.bound s c ht).log_step hm hi h, hP.pipe s c ht]
      exact List.mem_append_left _ (List.mem_map_of_mem hb)

theorem not_tied_init : ¬ Tied World.init s c := by
  intro h
  cases h <;> contradiction

end

/-- **Session mode pairs sessions with backends.** In every run of any sessions over a pool in
session mode, whatever the cancels and whenever they come: a connection that a session has to do
with is leased to it, or is gone and the session over; no session has to do with two connections,
nor a connection with two sessions; what was written to the connection is what its session carried,
all of it and in order, and nothing was written to any other; and a cancel was delivered to the
connection of the session whose key was presented, or to one that was gone. -/
theorem session_mode_pairs (pool : BackendPool) (hm : pool.mode = .session) {as : List Action}
    {w : World} (h : run pool as = some w) :
    (∀ s c, Tied w s c → Bound w s c ∧ (w.conns c).log = (carriedBy s as).map (.carried s)) ∧
    (∀ s c c', Tied w s c → Tied w s c' → c = c') ∧
    (∀ s s' c, Tied w s c → Tied w s' c → s = s') ∧
    (∀ s, carriedBy s as ≠ [] → ∃ c, Tied w s c) ∧
    (∀ c, (w.conns c).log ≠ [] → ∃ s, Tied w s c) ∧
    ∀ d ∈ w.delivered, d.place = .leased d.key ∨ d.place = .gone := by
  have hinv : Owned w ∧ OneToOne w ∧ Piped as w :=
    exec_history (I := fun as w => Owned w ∧ OneToOne w ∧ Piped as w)
      ⟨Good.init,
        ⟨fun _ => rfl, fun _ _ ht => (not_tied_init ht).elim, fun _ _ _ ht => (not_tied_init ht).elim,
          fun _ _ _ ht => (not_tied_init ht).elim, nofun⟩,
        nofun, fun _ _ ht => (not_tied_init ht).elim, fun _ hne => absurd rfl hne⟩
      (fun as w a w' _ hi ha => by
        obtain ⟨hg, hi, hP⟩ := hi
        have hg' : Owned w' := (owned_local pool (fun _ _ => True)).step hg trivial ha
        exact ⟨hg', oneToOne_step hm hg hg' hi ha, piped_step hm hg hi hP ha⟩) h
  obtain ⟨-, hi, hP⟩ := hinv
  refine ⟨fun s c ht => ⟨hi.bound s c ht, hP.pipe s c ht⟩, hi.conn, hi.session, hP.kept,
    fun c hne => ?_, hi.delivered⟩
  obtain ⟨x, hx⟩ := List.exists_mem_of_ne_nil _ hne
  obtain ⟨s, bytes, rfl⟩ := hP.only c x hx
  exact ⟨s, .wrote _ hx rfl⟩

/-- Session 0 carries two chunks and is over when a cancel with its key, read in between, comes to
its connection; session 1 is given another one. -/
def cancelAfterSession : List Action :=
  Sample.arrive 0 aliceInApp 0 ++
    [.replica (ascii "db"), .leased 0, .go, .carried (ascii "ab")].map (.session 0) ++
    [.cancel 0, .readSlot 0] ++
    [.carried (ascii "c"), .copyDone, .go, .go].map (.session 0) ++
    Sample.arriveNext 1 aliceInApp 0 ++
    [.replica (ascii "db"), .established 1 [] true, .go].map (.session 1) ++ [.deliver 0 0]

theorem session_mode_pairs_after_session : ∃ w,
    run (.withConnector [ascii "db"] .session) cancelAfterSession = some w ∧
    w.delivered = [⟨0, 0, .gone⟩] ∧
    (w.conns 0).log = [.carried 0 (ascii "ab"), .carried 0 (ascii "c")] ∧ ¬ Tied w 1 0 := by
  have h : (run (.withConnector [ascii "db"] .session) cancelAfterSession).map (·.delivered) =
      some [⟨0, 0, .gone⟩] := by
    decide +kernel
  obtain ⟨w, hw, hd⟩ := Option.map_eq_some_iff.mp h
  obtain ⟨hpipe, -, hsession, -, -, -⟩ := session_mode_pairs _ rfl hw
  have ht : Tied w 0 0 := .delivered .gone (by rw [hd]; exact List.mem_singleton_self _)
  exact ⟨w, hw, hd, (hpipe 0 0 ht).2, fun ht' => absurd (hsession 0 1 0 ht ht') (by decide)⟩

end RamaPg.Pool
