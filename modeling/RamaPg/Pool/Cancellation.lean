import RamaPg.Pool.Ownership

/-!
# Whom a cancel request hits

A cancel reads the slot of the session whose key was presented and delivers to the target it found
there, in two steps. The slot is set after the lease and cleared after it: between `checkin`, inside
`run_lease`, and `clear`, in `relay_pooled`, it still names a connection that another session may
lease already, and a target that was read may be leased on before the cancel is delivered to it.
When cancels keep out of these two windows (`Timely`), they hit nobody else.
-/

namespace RamaPg.Pool

open RamaPg.Lib RamaPg.Codec RamaPg.Startup

/-- No cancel reads a slot between the checkin and the `clear` of its session, and no connection is
leased on while a cancel that another session's slot named it to is under way. -/
def Timely (w : World) : Action → Bool
  | .readSlot s => (w.sessions s).phase ≠ .checkedIn
  | .session s (.leased c) =>
    w.cancels.all fun
      | .target s' c' => c' ≠ c || s' = s
      | .slot _ => true
  | _ => true

/-- The phases in which a session's slot can be set. -/
def Phase.armed : Phase → Bool
  | .copy _ | .copied _ | .forward _ _ | .relay _ | .deliver _ _ | .send _ _ | .terminate _ _
  | .reset _ _ | .drain _ | .checkin _ | .discard _ _ | .checkedIn | .discarded _ | .closing
  | .closed => true
  | _ => false

structure CancelSafe (w : World) : Prop where
  slot : ∀ s c, (w.sessions s).slot = some c → (w.sessions s).phase.armed ∧
    ((w.conns c).place = .leased s ∨ (w.conns c).place = .gone ∨ (w.sessions s).phase = .checkedIn)
  pending : ∀ s c, .target s c ∈ w.cancels → (w.conns c).place ≠ .fresh ∧
    ∀ s', (w.conns c).place = .leased s' → s' = s
  delivered : ∀ d ∈ w.delivered, ∀ s', d.place = .leased s' → s' = d.key

theorem owned_local (pool : BackendPool) (G : World → Action → Prop) :
    Local pool G (fun _ _ _ _ => True) (fun _ => True) := by
  constructor <;> intros <;> trivial

abbrev Owned (w : World) : Prop := ∀ c, Good (fun _ _ _ _ => True) (fun _ => True) w c

section

variable {pool : BackendPool} {w w' : World} {a : Action} {s : SessionId} {c : ConnId}

theorem armed_runLease (mode : PoolMode) (reset : Option RawMessage) (c : ConnId) (b : UInt8) :
    (runLease mode reset c b).armed := by
  unfold runLease
  split
  · split <;> rfl
  · split <;> rfl

theorem armed_relayed (mode : PoolMode) (reset : Option RawMessage) (c : ConnId) (m : RawMessage) :
    (relayed mode reset c m).armed := by
  unfold relayed
  split
  · exact armed_runLease mode reset c _
  · rfl

theorem armed_clientArm (c : ConnId) (r : Codec.Result) : (clientArm c r).armed := by
  unfold clientArm
  split
  · rfl
  · rfl
  · split <;> rfl

theorem armed_drainArm (c : ConnId) (m : RawMessage) : (drainArm c m).armed := by
  unfold drainArm
  split <;> rfl

/-- A slot stays set only through phases in which it may be. -/
theorem armed_on {mode : PoolMode} {reset : Option RawMessage} {p p' : Phase} {i : In} {e : Effect}
    (h : p.on mode reset i = some (p', e)) (hp : p.armed) (he : e ≠ .clear) : p'.armed := by
  unfold Phase.on at h
  split at h <;> cases h
  all_goals first
    | rfl
    | cases hp; done
    | exact absurd rfl he
    | exact armed_clientArm _ _
    | exact armed_drainArm _ _
    | split
      · first | rfl | exact armed_relayed _ _ _ _
      · rfl

theorem on_set {mode : PoolMode} {reset : Option RawMessage} {p p' : Phase} {i : In} {c : ConnId}
    (h : p.on mode reset i = some (p', .set c)) : p.holds = some c ∧ p'.holds = some c ∧ p'.armed := by
  unfold Phase.on at h
  split at h <;> cases h
  all_goals exact ⟨rfl, rfl, rfl⟩

theorem on_checkedIn {mode : PoolMode} {reset : Option RawMessage} {p' : Phase} {i : In} {e : Effect}
    (h : Phase.checkedIn.on mode reset i = some (p', e)) : e = .clear := by
  unfold Phase.on at h
  split at h <;> cases h
  all_goals first | rfl | contradiction

theorem slot_perform {conns : ConnId → Conn} {x : Session} {e : Effect}
    (h : (x.perform conns e).slot = some c) : x.slot = some c ∧ e ≠ .clear ∨ e = .set c := by
  cases e with
  | set c' =>
    simp only [Session.perform] at h
    split at h
    · cases h
      exact .inr rfl
    · exact .inl ⟨h, by rintro ⟨⟩⟩
  | clear => cases h
  | _ => exact .inl ⟨h, by rintro ⟨⟩⟩

/-- A connection leaves the session whose slot names it by being discarded, or by a checkin. -/
theorem leased_step (hg : Owned w) (h : step pool w a = some w') (harm : (w.sessions s).phase.armed)
    (hp : (w.conns c).place = .leased s) :
    (w'.conns c).place = .leased s ∨ (w'.conns c).place = .gone ∨
      (w'.sessions s).phase = .checkedIn := by
  have hm := moved_step hg h c
  rw [hp] at hm
  generalize (w'.conns c).place = new at hm
  cases hm with
  | same => exact .inl rfl
  | discarded => exact .inr (.inl rfl)
  | checkin ha hon hw =>
    refine .inr (.inr ?_)
    rw [hw, World.phase_advance]
    rcases Phase.on_checkin hon with he | he
    · rw [he] at hon
      unfold Phase.on at hon
      split at hon <;> cases hon
      all_goals first | rfl | contradiction
    · rw [he] at harm
      cases harm

theorem gone_step (hg : Owned w) (h : step pool w a = some w') (hp : (w.conns c).place = .gone) :
    (w'.conns c).place = .gone := by
  have hm := moved_step hg h c
  rw [hp] at hm
  generalize (w'.conns c).place = new at hm
  cases hm
  rfl

/-- What the slot of a session promises is kept while its place in the program is. -/
theorem slot_keep (hg : Owned w) (hi : CancelSafe w) (h : step pool w a = some w')
    (hs : (w.sessions s).slot = some c) (harm : (w'.sessions s).phase.armed)
    (hin : (w.sessions s).phase = .checkedIn → (w'.sessions s).phase = .checkedIn) :
    (w'.sessions s).phase.armed ∧ ((w'.conns c).place = .leased s ∨ (w'.conns c).place = .gone ∨
      (w'.sessions s).phase = .checkedIn) := by
  refine ⟨harm, ?_⟩
  obtain ⟨harm₀, hp | hp | hp⟩ := hi.slot s c hs
  · exact leased_step hg h harm₀ hp
  · exact .inr (.inl (gone_step hg h hp))
  · exact .inr (.inr (hin hp))

theorem slot_step (hg : Owned w) (hi : CancelSafe w) (h : step pool w a = some w') (s : SessionId)
    (c : ConnId) (hs : (w'.sessions s).slot = some c) :
    (w'.sessions s).phase.armed ∧ ((w'.conns c).place = .leased s ∨ (w'.conns c).place = .gone ∨
      (w'.sessions s).phase = .checkedIn) := by
  have hsame : w'.sessions s = w.sessions s →
      (w'.sessions s).phase.armed ∧ ((w'.conns c).place = .leased s ∨ (w'.conns c).place = .gone ∨
        (w'.sessions s).phase = .checkedIn) := fun he => by
    have hs₀ : (w.sessions s).slot = some c := he ▸ hs
    exact slot_keep hg hi h hs₀ (he ▸ (hi.slot s c hs₀).1) fun hp => he ▸ hp
  cases stepped h with
  | @begin s₀ =>
    by_cases he : s = s₀
    · subst he
      rw [World.sessions_setSession] at hs
      cases hs
    · exact hsame (World.sessions_setSession_ne _ he)
  | @session s₀ i p e hon hof =>
    by_cases he : s = s₀
    · subst he
      have hs : ((w.sessions s).perform w.conns e).slot = some c := by
        simpa [World.advance] using hs
      rcases slot_perform hs with ⟨hs₀, hcl⟩ | rfl
      · refine slot_keep hg hi h hs₀ ?_ fun hp => ?_
        · rw [World.phase_advance]
          exact armed_on hon (hi.slot s c hs₀).1 hcl
        · rw [hp] at hon
          exact absurd (on_checkedIn hon) hcl
      · obtain ⟨hh, hh', harm⟩ := on_set hon
        have hown := (owned_local pool (fun _ _ => True)).step hg trivial h c
        rw [World.phase_advance]
        refine ⟨harm, .inl ((hown.owner s).mp ?_)⟩
        rw [World.phase_advance, hh']
    · exact hsame (World.sessions_advance he)
  | @drop s₀ ha =>
    by_cases he : s = s₀
    · subst he
      refine slot_keep hg hi h (by simpa [World.abort] using hs) (by rw [World.phase_abort]; rfl) ?_
      intro hp
      rw [hp] at ha
      cases ha
    · exact hsame (World.sessions_abort he)
  | @abandon s₀ _ _ _ _ hid =>
    by_cases he : s = s₀
    · subst he
      refine slot_keep hg hi h (by simpa [World.abort, World.setConn] using hs)
        (by rw [World.phase_abort]; rfl) ?_
      intro hp
      simp [Session.requestId, hp] at hid
    · exact hsame (World.sessions_abort he)
  | evict | backend | cancel | readSlot | readEmpty | deliver => exact hsame rfl

/-- A connection that a cancel is under way to is not leased to anybody else. -/
theorem target_step (hg : Owned w) (hi : CancelSafe w) (hG : Timely w a)
    (h : step pool w a = some w') (ht : .target s c ∈ w.cancels) :
    (w'.conns c).place ≠ .fresh ∧ ∀ s', (w'.conns c).place = .leased s' → s' = s := by
  obtain ⟨hne, hp⟩ := hi.pending s c ht
  refine ⟨not_fresh_step hg h hne, fun s' hs' => ?_⟩
  have hm := moved_step hg h c
  rw [hs'] at hm
  generalize (w.conns c).place = old at hm hne hp
  cases hm with
  | same => exact hp s' rfl
  | fresh => exact absurd rfl hne
  | reuse ha =>
    subst ha
    have := (List.all_eq_true.mp hG) _ ht
    simpa [eq_comm] using this

theorem cancelSafe_step (hg : Owned w) (hi : CancelSafe w) (hG : Timely w a)
    (h : step pool w a = some w') : CancelSafe w' := by
  refine ⟨slot_step hg hi h, fun s c ht => ?_, fun d hd => ?_⟩
  · cases stepped h with
    | cancel hr =>
      have ht : .target s c ∈ w.cancels := by simpa using ht
      exact target_step hg hi hG h ht
    | @readSlot s₀ c₀ hs =>
      simp only [List.mem_cons] at ht
      rcases ht with ht | ht
      · cases ht
        obtain ⟨-, hp | hp | hp⟩ := hi.slot s c hs
        · refine ⟨by simp [hp], fun s' hs' => ?_⟩
          cases hp.symm.trans hs'
          rfl
        · exact ⟨by simp [hp], by simp [hp]⟩
        · simp [Timely, hp] at hG
      · exact target_step hg hi hG h (List.mem_of_mem_erase ht)
    | readEmpty | deliver => exact target_step hg hi hG h (List.mem_of_mem_erase ht)
    | begin | session | drop | abandon | evict | backend => exact target_step hg hi hG h ht
  · cases stepped h with
    | @deliver s c ht =>
      simp only [List.mem_append, List.mem_singleton] at hd
      rcases hd with hd | rfl
      · exact hi.delivered d hd
      · exact (hi.pending s c ht).2
    | begin | session | drop | abandon | evict | backend | cancel | readSlot | readEmpty =>
      exact hi.delivered d hd

end

/-- **Cancels hit nobody else.** In every run that keeps out of the two windows, a cancel presented
with the key of a session was delivered to a connection that was then leased to that session or to
nobody. -/
theorem cancels_hit_nobody_else (replicas : List Bytes) (mode : PoolMode) {as : List Action}
    {w : World} (hG : Along (step (.withConnector replicas mode)) (fun w a => Timely w a)
      World.init as) (h : run (.withConnector replicas mode) as = some w) :
    ∀ d ∈ w.delivered, ∀ s, d.place = .leased s → s = d.key := by
  have hinv := exec_inv (I := fun w => Owned w ∧ CancelSafe w)
    (fun w a w' hi hG ha => ⟨(owned_local _ (fun _ _ => True)).step hi.1 trivial ha,
      cancelSafe_step hi.1 hi.2 hG ha⟩) ⟨Good.init, nofun, nofun, nofun⟩ hG h
  exact hinv.2.delivered

/-- Session 0 has checked its connection in and not yet cleared its slot when a cancel with its key
reads the slot; session 1 leases the connection before the cancel is delivered. -/
def cancelInWindow : List Action :=
  Sample.arrive 0 aliceInApp 0 ++ Sample.lease 0 0 ++ (Sample.release 0 0).dropLast ++
    [.cancel 0, .readSlot 0] ++ Sample.arriveNext 1 aliceInApp 0 ++ Sample.lease 1 0 ++
    [.deliver 0 0]

theorem cancel_hits_another_session :
    (run (.withConnector [ascii "db"] .transaction) cancelInWindow).map (·.delivered) =
      some [⟨0, 0, .leased 1⟩] := by
  decide +kernel

def cancelInTime : List Action :=
  Sample.arrive 0 aliceInApp 0 ++ Sample.lease 0 0 ++ [.cancel 0, .readSlot 0, .deliver 0 0]

theorem cancel_in_time_hits_its_own_session :
    ∃ w, run (.withConnector [ascii "db"] .transaction) cancelInTime = some w ∧
      w.delivered = [⟨0, 0, .leased 0⟩] ∧ ∀ d ∈ w.delivered, ∀ s, d.place = .leased s → s = d.key := by
  have h : (run (.withConnector [ascii "db"] .transaction) cancelInTime).map (·.delivered) =
      some [⟨0, 0, .leased 0⟩] := by
    decide +kernel
  obtain ⟨w, hw, hd⟩ := Option.map_eq_some_iff.mp h
  exact ⟨w, hw, hd, cancels_hit_nobody_else [ascii "db"] .transaction
    (checkAlong_along (by decide +kernel)) hw⟩

end RamaPg.Pool
