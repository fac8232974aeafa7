import RamaPg.Pool.Ownership

/-!
# Only clean connections are idle

A connection in idle storage has never carried anything of a client, or the last thing the proxy
wrote to it is the pool's reset query, whose `Lease::reset` returned `Ok`. The native pool takes a
connection back whenever its lease is dropped, so this rests on every other way out of a lease
going through `discard`.
-/

namespace RamaPg.Pool

open RamaPg.Lib RamaPg.Codec RamaPg.Startup

def Wrote.ofClient : Wrote → Bool
  | .client _ _ | .carried _ _ => true
  | .reset _ | .resetOk => false

/-- Nothing of a client was written, or the reset query was the last write and was answered. -/
def Clean (k : Conn) : Prop :=
  (∀ e ∈ k.log, e.ofClient = false) ∨ ∃ l, k.log = l ++ [.reset discardAll, .resetOk]

/-- What the phases up to a checkin know of the log. -/
def CleanAt (p : Phase) (k : Conn) : Prop :=
  match p with
  | .held _ _ | .checkin _ => Clean k
  | .reset _ m => m = discardAll
  | .drain _ => ∃ l, k.log = l ++ [.reset discardAll]
  | _ => True

theorem cleanAt_runLease (mode : PoolMode) (c : ConnId) (b : UInt8) (k : Conn) :
    CleanAt (runLease mode (some discardAll) c b) k := by
  unfold runLease
  split
  · rfl
  · split <;> trivial

theorem cleanAt_relayed (mode : PoolMode) (c : ConnId) (m : RawMessage) (k : Conn) :
    CleanAt (relayed mode (some discardAll) c m) k := by
  unfold relayed
  split
  · exact cleanAt_runLease mode c _ k
  · trivial

theorem cleanAt_clientArm (c : ConnId) (r : Codec.Result) (k : Conn) :
    CleanAt (clientArm c r) k := by
  unfold clientArm
  split
  · trivial
  · trivial
  · split <;> trivial

theorem cleanAt_drainArm (s : SessionId) (c : ConnId) (m : RawMessage) {k : Conn} {l : List Wrote}
    (h : k.log = l ++ [.reset discardAll]) :
    CleanAt (drainArm c m) (k.perform s (.drained c m (resetResult m = some true))) := by
  unfold drainArm
  split
  next hr => exact .inr ⟨l, by simp [Conn.perform, hr, h]⟩
  · trivial
  next hr => exact ⟨l, by simp [Conn.perform, hr, h]⟩

/-- One step of the program keeps `CleanAt` for the connection it holds. -/
theorem cleanAt_uses {mode : PoolMode} {c : ConnId} {p p' : Phase} {i : In} {e : Effect} {k : Conn}
    (h : Uses mode (some discardAll) c p i p' e) (hk : CleanAt p k) (s : SessionId) :
    CleanAt p' (k.perform s e) := by
  cases h with
  | copy | carry | copied | cleared | begin | read | lost | terminate | drainLost => trivial
  | forward m ok | send m ok => cases ok <;> trivial
  | client r => exact cleanAt_clientArm c r _
  | deliver m ok =>
    cases ok
    · trivial
    · exact cleanAt_relayed mode c m _
  | reset m ok =>
    cases ok
    · trivial
    · cases hk
      exact ⟨k.log, rfl⟩
  | drain m =>
    obtain ⟨l, hl⟩ := hk
    exact cleanAt_drainArm s c m hl

theorem clean_local (replicas : List Bytes) (mode : PoolMode) :
    Local (.withConnector replicas mode) (fun _ _ => True) (fun _ _ => CleanAt) Clean where
  reuse hk _ := hk
  fresh _ := .inl nofun
  spare _ := .inl nofun
  use hu _ _ hj := cleanAt_uses hu hj _
  checkin hj := hj
  checkin_params hj := hj
  backend {_ _ p k k'} _ hb hj := by
    have hlog := (Conn.act_frame hb).2.2.2.2
    cases p <;> first | exact hj | simpa [CleanAt, Clean, hlog] using hj
  backend_idle hb hk := by
    have hlog := (Conn.act_frame hb).2.2.2.2
    simpa [Clean, hlog] using hk

/-- **Only clean connections are idle.** In every state a run of any number of sessions reaches, in
every mode and whichever sessions were dropped on the way, an idle connection is clean; a lease
that ends leaves its connection idle and clean or discards it; and a discarded connection is never
idle or leased again. -/
theorem idle_connections_are_clean (replicas : List Bytes) (mode : PoolMode) {as : List Action}
    {w : World} (h : run (.withConnector replicas mode) as = some w) :
    (∀ c, (w.conns c).place = .idle → Clean (w.conns c)) ∧
    (∀ s c a w', (w.conns c).place = .leased s → step (.withConnector replicas mode) w a = some w' →
      (w'.conns c).place = .leased s ∨ (w'.conns c).place = .gone ∨
        (w'.conns c).place = .idle ∧ Clean (w'.conns c)) ∧
    (∀ c bs w', (w.conns c).place = .gone →
      exec (step (.withConnector replicas mode)) w bs = some w' → (w'.conns c).place = .gone) := by
  have hg := (clean_local replicas mode).run (along_true _ _) h
  refine ⟨fun c => (hg c).idle, fun s c a w' hp ha => ?_, fun c bs w' hp hb => ?_⟩
  · have hm := moved_step hg ha c
    have hg' := (clean_local replicas mode).step hg trivial ha
    rw [hp] at hm
    generalize hnew : (w'.conns c).place = new at hm
    cases hm with
    | same => exact .inl rfl
    | discarded => exact .inr (.inl rfl)
    | checkin => exact .inr (.inr ⟨rfl, (hg' c).idle hnew⟩)
  · refine (exec_inv' (I := fun w => (∀ c, Good _ _ w c) ∧ (w.conns c).place = .gone) ?_
      ⟨hg, hp⟩ hb).2
    intro w₁ a w₂ ⟨hg₁, hp₁⟩ ha
    have hm := moved_step hg₁ ha c
    rw [hp₁] at hm
    refine ⟨(clean_local replicas mode).step hg₁ trivial ha, ?_⟩
    generalize (w₂.conns c).place = new at hm
    cases hm
    rfl

theorem idle_connection_is_clean_after_release :
    ∃ w, run (.withConnector [ascii "db"] .transaction)
        (Sample.arrive 0 aliceInApp 0 ++ Sample.lease 0 0 ++ Sample.release 0 0) = some w ∧
      (w.conns 0).place = .idle ∧ (w.conns 0).log.length = 3 ∧ Clean (w.conns 0) := by
  have h : (run (.withConnector [ascii "db"] .transaction)
      (Sample.arrive 0 aliceInApp 0 ++ Sample.lease 0 0 ++ Sample.release 0 0)).map
        (fun w => ((w.conns 0).place, (w.conns 0).log.length)) = some (.idle, 3) := by
    decide +kernel
  obtain ⟨w, hw, hp⟩ := Option.map_eq_some_iff.mp h
  simp only [Prod.mk.injEq] at hp
  exact ⟨w, hw, hp.1, hp.2, (idle_connections_are_clean _ _ hw).1 0 hp.1⟩

end RamaPg.Pool
