import RamaPg.Lib.Turns
import RamaPg.Pool.StartupParams

/-!
# Replicas take turns

`next_replica` is one atomic counter for all sessions, so the replicas are given out in the order of
`Lib.turns` whatever the sessions do in between. `InTurn` says so of a run, together with what the
turns are for: a session connects to, and then holds, a connection of the replica it was given last.
-/

namespace RamaPg.Pool

open RamaPg.Lib RamaPg.Codec RamaPg.Startup

/-- The session that takes a turn, and the replica it is given. -/
def Action.pick : Action → Option (SessionId × Bytes)
  | .session s (.replica shard) => some (s, shard)
  | _ => none

def picks (as : List Action) : List (SessionId × Bytes) := as.filterMap Action.pick

/-- The replica a session was given last. -/
def lastPick (s : SessionId) (as : List Action) : Option Bytes :=
  ((picks as).filter (·.1 = s)).getLast?.map (·.2)

structure InTurn (pool : BackendPool) (as : List Action) (w : World) : Prop where
  next : w.next = (picks as).length % 2 ^ 64
  order : (picks as).map (·.2) = turns pool.replicas (2 ^ 64) (picks as).length
  connecting : ∀ s id, (w.sessions s).requestId = some id → lastPick s as = some id.shard
  holding : ∀ s c, (w.sessions s).phase.holds = some c → lastPick s as = some (w.conns c).id.shard

section

variable {pool : BackendPool} {as : List Action} {w w' : World} {a : Action} {s : SessionId}
  {c : ConnId}

theorem picks_snoc (as : List Action) (a : Action) : picks (as ++ [a]) = picks as ++ a.pick.toList := by
  rw [picks, List.filterMap_append]
  cases h : a.pick with
  | none => rw [List.filterMap_cons_none h]; rfl
  | some x => rw [List.filterMap_cons_some h]; rfl

theorem lastPick_snoc (s : SessionId) (as : List Action) (a : Action) :
    lastPick s (as ++ [a]) =
      match a.pick with
      | some (s', shard) => if s' = s then some shard else lastPick s as
      | none => lastPick s as := by
  unfold lastPick
  rw [picks_snoc]
  cases h : a.pick with
  | none => simp
  | some x =>
    obtain ⟨s', shard⟩ := x
    by_cases he : s' = s
    · simp [he]
    · simp [he]

/-- Only a turn leads to the connector. -/
theorem on_connect {mode : PoolMode} {reset : Option RawMessage} {p p' : Phase} {i : In} {e : Effect}
    {want : Want} {shard : Bytes} (h : p.on mode reset i = some (p', e))
    (hp : p' = .connect want shard) : i = .replica shard := by
  have hholds : ∀ {q : Phase} {c : ConnId}, q.holds = some c → q = .connect want shard → False := by
    rintro q c hq rfl
    cases hq
  unfold Phase.on at h
  split at h <;> cases h
  all_goals first
    | (cases hp; rfl)
    | (cases hp)
    | exact (hholds (holds_clientArm _ _) hp).elim
    | exact (hholds (holds_drainArm _ _) hp).elim
    | (split at hp
       · first
         | (cases hp)
         | exact (hholds (holds_relayed _ _ _ _) hp).elim
       · cases hp)
    | (unfold firstFrame at hp
       split at hp
       · split at hp <;> cases hp
       · cases hp)

theorem requestId_connect {x : Session} {id : PgConnId} (h : x.requestId = some id) :
    ∃ want, x.phase = .connect want id.shard := by
  unfold Session.requestId at h
  split at h
  next want shard hp =>
    cases h
    exact ⟨want, hp⟩
  · cases h

/-- A step that takes no turn leaves the counter alone; one that does is given the replica in turn. -/
theorem next_step (h : step pool w a = some w') :
    (a.pick = none ∧ w'.next = w.next) ∨
    ∃ s shard, a = .session s (.replica shard) ∧ pool.nextReplica w.next = some shard ∧
      w'.next = (w.next + 1) % 2 ^ 64 ∧ ∃ want, (w'.sessions s).phase = .connect want shard := by
  cases stepped h with
  | @session s i p e hon hof =>
    cases i with
    | replica shard =>
      refine .inr ⟨s, shard, rfl, by simpa [World.offers] using hof, rfl, ?_⟩
      rw [World.phase_advance]
      unfold Phase.on at hon
      split at hon <;> first | contradiction | skip
      rename_i heq
      cases heq
      cases hon
      exact ⟨_, rfl⟩
    | _ => exact .inl ⟨rfl, rfl⟩
  | begin | drop | abandon | evict | backend | cancel | readSlot | readEmpty | deliver =>
    exact .inl ⟨rfl, rfl⟩

/-- What a session connects to, or holds, after a step in which it takes no turn, it connected to or
held before, or it is the connection it has just been given for its request. -/
theorem holding_step (hg : OwnIdentity w) (h : step pool w a = some w')
    (hpick : ∀ shard, a.pick ≠ some (s, shard)) :
    (∀ id, (w'.sessions s).requestId = some id → ∃ id', (w.sessions s).requestId = some id' ∧
      id'.shard = id.shard) ∧
    (∀ c, (w'.sessions s).phase.holds = some c →
      ((w.sessions s).phase.holds = some c ∧ (w'.conns c).id = (w.conns c).id) ∨
      (w.sessions s).requestId = some (w'.conns c).id) := by
  -- a session that takes no step keeps its phase, and what it holds is no new connection
  have hkeep : (w'.sessions s) = w.sessions s →
      (∀ id, (w'.sessions s).requestId = some id → ∃ id', (w.sessions s).requestId = some id' ∧
        id'.shard = id.shard) ∧
      (∀ c, (w'.sessions s).phase.holds = some c →
        ((w.sessions s).phase.holds = some c ∧ (w'.conns c).id = (w.conns c).id) ∨
        (w.sessions s).requestId = some (w'.conns c).id) := by
    intro he
    rw [he]
    refine ⟨fun id hid => ⟨id, hid, rfl⟩, fun c hc => .inl ⟨hc, ?_⟩⟩
    exact (grows_step h (by rw [((hg c).owner s).mp hc]; rintro ⟨⟩)).id
  cases stepped h with
  | @begin s₀ _ _ _ p _ _ hp =>
    by_cases he : s = s₀
    · subst he
      rw [World.sessions_setSession]
      rcases hp with rfl | rfl
      · exact ⟨by rintro id ⟨⟩, by rintro c ⟨⟩⟩
      · exact ⟨by rintro id ⟨⟩, by rintro c ⟨⟩⟩
    · exact hkeep (World.sessions_setSession_ne _ he)
  | @session s₀ i p e hon hof =>
    by_cases he : s = s₀
    · subst he
      refine ⟨fun id hid => ?_, fun c hc => ?_⟩
      · obtain ⟨want, hp⟩ := requestId_connect hid
        rw [World.phase_advance] at hp
        obtain rfl := on_connect hon hp
        exact absurd rfl (hpick id.shard)
      · rw [World.phase_advance] at hc
        rcases Phase.on_touch hon with
          ⟨want, shard, c₀, rfl, rfl, hp, rfl⟩ | ⟨want, shard, c₀, frames, hasKey, rfl, rfl, hp, rfl⟩ |
          ⟨hp, -, -, -, -⟩ | ⟨c₀, rfl, hp, hp', -, -⟩ | ⟨c₀, rfl, hp, hp', -, -⟩
        · cases hc
          refine .inr ?_
          simp only [World.offers, Bool.decide_and, Bool.and_eq_true, decide_eq_true_eq] at hof
          rw [World.conns_advance (by rfl)]
          exact hof.2
        · cases hc
          refine .inr ?_
          have hid : (w.sessions s).requestId =
              some ⟨(w.sessions s).identity.1, (w.sessions s).identity.2, shard⟩ := by
            simp [Session.requestId, hp]
          rw [World.conns_advance (by rfl)]
          simp [World.changed, established, hid]
        · rw [hp] at hc
          refine .inl ⟨hc, (grows_step h ?_).id⟩
          rw [((hg c).owner s).mp hc]
          rintro ⟨⟩
        · rw [hp'] at hc; cases hc
        · rw [hp'] at hc; cases hc
    · exact hkeep (World.sessions_advance he)
  | @drop s₀ | @abandon s₀ =>
    by_cases he : s = s₀
    · subst he
      refine ⟨fun id hid => ?_, fun c hc => ?_⟩
      · obtain ⟨want, hp⟩ := requestId_connect hid
        rw [World.phase_abort] at hp
        cases hp
      · rw [World.phase_abort] at hc
        cases hc
    · exact hkeep (World.sessions_abort he)
  | evict | backend | cancel | readSlot | readEmpty | deliver => exact hkeep rfl

theorem InTurn.step (hi : InTurn pool as w) (hg : OwnIdentity w)
    (h : Pool.step pool w a = some w') : InTurn pool (as ++ [a]) w' := by
  have hkept : ∀ s, (∀ shard, a.pick ≠ some (s, shard)) → lastPick s (as ++ [a]) = lastPick s as := by
    intro s hpick
    rw [lastPick_snoc]
    cases hp : a.pick with
    | none => rfl
    | some x =>
      obtain ⟨s', shard⟩ := x
      have hs : s' ≠ s := by
        rintro rfl
        exact hpick shard hp
      simp only [hs, ↓reduceIte]
  have hconnecting : ∀ s, (∀ shard, a.pick ≠ some (s, shard)) → ∀ id,
      (w'.sessions s).requestId = some id → lastPick s (as ++ [a]) = some id.shard := by
    intro s hpick id hid
    obtain ⟨id', hid', hshard⟩ := (holding_step hg h hpick).1 id hid
    rw [hkept s hpick, hi.connecting s id' hid', hshard]
  have hholding : ∀ s, (∀ shard, a.pick ≠ some (s, shard)) → ∀ c,
      (w'.sessions s).phase.holds = some c → lastPick s (as ++ [a]) = some (w'.conns c).id.shard := by
    intro s hpick c hc
    rw [hkept s hpick]
    rcases (holding_step hg h hpick).2 c hc with ⟨hc, hid⟩ | hid
    · rw [hid]
      exact hi.holding s c hc
    · exact hi.connecting s _ hid
  rcases next_step h with ⟨hpick, hnext⟩ | ⟨s₀, shard, rfl, hturn, hnext, want, hphase⟩
  · have hpicks : picks (as ++ [a]) = picks as := by
      rw [picks_snoc, hpick]
      exact List.append_nil _
    have hnone : ∀ s shard, a.pick ≠ some (s, shard) := by
      intro s shard
      rw [hpick]
      rintro ⟨⟩
    exact ⟨by rw [hpicks, hnext, hi.next], by rw [hpicks, hi.order],
      fun s => hconnecting s (hnone s), fun s => hholding s (hnone s)⟩
  · have hpick : (Action.session s₀ (.replica shard)).pick = some (s₀, shard) := rfl
    have hlast : lastPick s₀ (as ++ [.session s₀ (.replica shard)]) = some shard := by
      rw [lastPick_snoc, hpick]
      exact if_pos rfl
    have hother : ∀ s, s ≠ s₀ → ∀ shard', (Action.session s₀ (.replica shard)).pick ≠ some (s, shard') := by
      intro s hs shard' he
      cases he
      exact hs rfl
    refine ⟨?_, ?_, fun s id hid => ?_, fun s c hc => ?_⟩
    · rw [hnext, hi.next, picks_snoc, hpick, List.length_append, Nat.mod_add_mod]
      rfl
    · rw [picks_snoc, hpick, List.map_append, hi.order, List.length_append]
      refine (turns_succ ?_).symm
      rw [turn, ← hi.next]
      exact hturn
    · by_cases hs : s = s₀
      · subst hs
        obtain ⟨want', hp⟩ := requestId_connect hid
        rw [hphase] at hp
        cases hp
        exact hlast
      · exact hconnecting s (hother s hs) id hid
    · by_cases hs : s = s₀
      · subst hs
        rw [hphase] at hc
        cases hc
      · exact hholding s (hother s hs) c hc

end

/-- **Replicas take turns.** In every run of any sessions over one pool: between two wraps of the
counter, any stretch of leases as many as there are replicas goes to each of them once, in the order
of the list; over the whole run two replicas have been given out equally often, up to one and the
number of times the 64-bit counter has wrapped; and what a session holds is a connection of the
replica it was given last. -/
theorem replicas_take_turns (pool : BackendPool) (hne : pool.replicas ≠ []) {as : List Action}
    {w : World} (h : run pool as = some w) :
    (∀ i, i + pool.replicas.length ≤ (picks as).length → i % 2 ^ 64 + pool.replicas.length ≤ 2 ^ 64 →
      (((picks as).map (·.2)).drop i).take pool.replicas.length = pool.replicas.rotate (i % 2 ^ 64)) ∧
    (pool.replicas.Nodup → ∀ a ∈ pool.replicas, ∀ b ∈ pool.replicas,
      ((picks as).map (·.2)).count a ≤
        ((picks as).map (·.2)).count b + (picks as).length / 2 ^ 64 + 1) ∧
    (∀ s c, (w.sessions s).phase.holds = some c →
      ∃ shard ∈ pool.replicas, lastPick s as = some shard ∧ (w.conns c).id.shard = shard) := by
  obtain ⟨hown, hturn⟩ := exec_history (I := fun as w => OwnIdentity w ∧ InTurn pool as w)
    ⟨Good.init, rfl, rfl, by rintro s id ⟨⟩, by rintro s c ⟨⟩⟩
    (fun as w a w' _ hi ha => ⟨(identity_local pool (fun _ _ => True)).step hi.1 trivial ha,
      hi.2.step hi.1 ha⟩) h
  refine ⟨fun i hi hw => ?_, fun hnd a ha b hb => ?_, fun s c hc => ?_⟩
  · rw [hturn.order]
    exact turns_window hne hi hw
  · rw [hturn.order]
    exact turns_fair hnd (by decide) ha hb _
  · have hlast := hturn.holding s c hc
    refine ⟨_, ?_, hlast, rfl⟩
    obtain ⟨x, hx, he⟩ := Option.map_eq_some_iff.mp hlast
    have hmem : x ∈ picks as := List.mem_of_mem_filter (List.mem_of_getLast? hx)
    have hshard : x.2 ∈ turns pool.replicas (2 ^ 64) (picks as).length :=
      hturn.order ▸ List.mem_map_of_mem hmem
    rw [← he]
    obtain ⟨i, -, hi⟩ := List.mem_filterMap.mp hshard
    exact List.mem_of_getElem? hi

/-- The first client's parameters come from the primary, its first transaction goes to the standby. -/
def twoReplicas : List Action :=
  Sample.arrive 0 aliceInApp 0 ++
    [.client (.ok (some Sample.select1)), .replica (ascii "standby"),
      .established 1 [] true].map (.session 0)

theorem replicas_take_turns_for_two : ∃ w,
    run (.withConnector [ascii "db", ascii "standby"] .transaction) twoReplicas = some w ∧
    (w.conns 1).id.shard = ascii "standby" := by
  have h : (run (.withConnector [ascii "db", ascii "standby"] .transaction) twoReplicas).map
      (fun w => (w.sessions 0).phase.holds) = some (some 1) := by
    decide +kernel
  obtain ⟨w, hw, hc⟩ := Option.map_eq_some_iff.mp h
  obtain ⟨-, -, hheld⟩ := replicas_take_turns _ (by rintro ⟨⟩) hw
  obtain ⟨shard, -, hlast, hshard⟩ := hheld 0 1 hc
  have hpick : lastPick 0 twoReplicas = some (ascii "standby") := by decide +kernel
  refine ⟨w, hw, hshard.trans ?_⟩
  exact Option.some.inj (hlast.symm.trans hpick)

end RamaPg.Pool
