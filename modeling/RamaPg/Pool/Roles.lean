import RamaPg.Pool.Cancellation
import RamaPg.Pool.Isolation
import RamaPg.Pool.StartupParams

/-!
# Roles stay apart

What a session has to do with a connection: it holds it, wrote to it, was relayed from it, names it
in its cancel slot, or is the reason or the victim of a cancel that came there. Each of these
begins while the session holds the connection (`involved_step`), and it is leased connections of its
own user and database only. So two sessions of different users or databases never meet at a
connection, not even by a cancel that comes late.
-/

namespace RamaPg.Pool

open RamaPg.Lib RamaPg.Codec RamaPg.Startup

/-- The session whose bytes these are. -/
def Wrote.author : Wrote → Option SessionId
  | .client s _ => some s
  | .carried s _ => some s
  | .reset _ => none
  | .resetOk => none

inductive Involved (w : World) (s : SessionId) (c : ConnId) : Prop where
  | holds (h : (w.sessions s).phase.holds = some c)
  | wrote (x : Wrote) (h : x ∈ (w.conns c).log) (ha : x.author = some s)
  | relayed (r : Response) (h : (c, r) ∈ (w.sessions s).relayed)
  | slot (h : (w.sessions s).slot = some c)
  | target (h : .target s c ∈ w.cancels)
  | delivered (place : Place) (h : ⟨s, c, place⟩ ∈ w.delivered)
  /-- A cancel with somebody's key reached the connection while the session held it. -/
  | hit (key : SessionId) (h : ⟨key, c, .leased s⟩ ∈ w.delivered)

/-- The connection is one of the session's own user and database. -/
structure OwnRole (w : World) (s : SessionId) (c : ConnId) : Prop where
  present : (w.sessions s).phase ≠ .absent
  established : (w.conns c).place ≠ .fresh
  identity : (w.conns c).id.identity = (w.sessions s).identity

section

variable {pool : BackendPool} {w w' : World} {a : Action} {s : SessionId} {c : ConnId}

theorem ne_absent_of_holds {p : Phase} (h : p.holds = some c) : p ≠ .absent := by
  rintro rfl
  cases h

/-- A session that has begun stays begun. -/
theorem on_begun {mode : PoolMode} {reset : Option RawMessage} {p p' : Phase} {i : In} {e : Effect}
    (h : p.on mode reset i = some (p', e)) : p' ≠ .absent := by
  unfold Phase.on at h
  split at h <;> cases h
  all_goals first
    | (rintro ⟨⟩)
    | exact ne_absent_of_holds (holds_clientArm _ _)
    | exact ne_absent_of_holds (holds_drainArm _ _)
    | split
      · first
        | (rintro ⟨⟩)
        | exact ne_absent_of_holds (holds_relayed _ _ _ _)
      · rintro ⟨⟩
    | unfold firstFrame
      split
      · split <;> rintro ⟨⟩
      · rintro ⟨⟩

/-- A begun session keeps its startup message, and stays begun. -/
theorem begun_step (h : step pool w a = some w') (hs : (w.sessions s).phase ≠ .absent) :
    (w'.sessions s).phase ≠ .absent ∧ (w'.sessions s).startup = (w.sessions s).startup := by
  cases stepped h with
  | @begin s₀ _ _ _ _ _ habs =>
    have he : s ≠ s₀ := by
      rintro rfl
      exact hs habs
    rw [World.sessions_setSession_ne _ he]
    exact ⟨hs, rfl⟩
  | @session s₀ i p e hon =>
    by_cases he : s = s₀
    · subst he
      rw [World.phase_advance]
      exact ⟨on_begun hon, World.startup_advance⟩
    · rw [World.sessions_advance he]
      exact ⟨hs, rfl⟩
  | @drop s₀ | @abandon s₀ =>
    by_cases he : s = s₀
    · subst he
      rw [World.phase_abort]
      refine ⟨by rintro ⟨⟩, ?_⟩
      simp [World.abort, World.setConn]
    · rw [World.sessions_abort he]
      exact ⟨hs, rfl⟩
  | evict | backend | cancel | readSlot | readEmpty | deliver => exact ⟨hs, rfl⟩

theorem OwnRole.step (hr : OwnRole w s c) (hg : OwnIdentity w) (h : Pool.step pool w a = some w') :
    OwnRole w' s c := by
  obtain ⟨hpresent, hstartup⟩ := begun_step h hr.present
  refine ⟨hpresent, not_fresh_step hg h hr.established, ?_⟩
  rw [(grows_step h hr.established).id, hr.identity, Session.identity, Session.identity, hstartup]

/-- What a session writes to a connection is its own. -/
theorem log_perform {s' : SessionId} {k : Conn} {e : Effect} {x : Wrote}
    (hx : x ∈ (k.perform s' e).log) (ha : x.author = some s) : x ∈ k.log ∨ s = s' := by
  have hnew : ∀ {y : Wrote}, x ∈ k.log ++ [y] → (y.author = some s → s = s') →
      x ∈ k.log ∨ s = s' := by
    intro y hx hy
    rcases List.mem_append.mp hx with hx | hx
    · exact .inl hx
    · obtain rfl := List.mem_singleton.mp hx
      exact .inr (hy ha)
  cases e with
  | send c₀ m ok => exact hnew hx fun ha => (Option.some.inj ha).symm
  | carry c₀ bytes => exact hnew hx fun ha => (Option.some.inj ha).symm
  | reset c₀ m ok => exact hnew hx (by rintro ⟨⟩)
  | drained c₀ m ok =>
    cases ok with
    | false =>
      rcases List.mem_append.mp hx with hx | hx
      · exact .inl hx
      · cases hx
    | true => exact hnew hx (by rintro ⟨⟩)
  | _ => exact .inl hx

/-- Bytes of a session get to a connection while the session holds it. -/
theorem log_step (h : step pool w a = some w') {x : Wrote} (hx : x ∈ (w'.conns c).log)
    (ha : x.author = some s) :
    x ∈ (w.conns c).log ∨ (w'.sessions s).phase.holds = some c := by
  cases stepped h with
  | @session s₀ i p e hon =>
    by_cases ht : World.target i e = some c
    · rw [World.conns_advance ht] at hx
      rcases Phase.on_touch hon with
        ⟨want, shard, c₀, rfl, rfl, hp, rfl⟩ | ⟨want, shard, c₀, frames, hasKey, rfl, rfl, hp, rfl⟩ |
        ⟨hp, hc, hi, ht', -⟩ | ⟨c₀, rfl, hp, hp', hi, ht'⟩ | ⟨c₀, rfl, hp, hp', hi, ht'⟩
      · exact .inl hx
      · cases hx
      · rw [hi] at hx
        rcases log_perform hx ha with hx | rfl
        · exact .inl hx
        · refine .inr ?_
          rw [World.phase_advance, hp]
          exact hc c (ht'.symm.trans ht)
      · rw [hi] at hx
        exact .inl hx
      · rw [hi] at hx
        exact .inl hx
    · rw [World.conns_advance_ne ht] at hx
      exact .inl hx
  | @drop s₀ =>
    by_cases he : (w.sessions s₀).phase.holds = some c
    · rw [World.conns_abort_held he] at hx
      exact .inl hx
    · rw [World.conns_abort he] at hx
      exact .inl hx
  | @abandon s₀ c₀ frames hasKey id hid =>
    rw [World.conns_abort (by simp [holds_of_requestId hid])] at hx
    by_cases he : c = c₀
    · subst he
      rw [World.conns_setConn] at hx
      cases hx
    · rw [World.conns_setConn_ne _ he] at hx
      exact .inl hx
  | @evict c₀ =>
    by_cases he : c = c₀
    · subst he
      rw [World.conns_setConn] at hx
      exact .inl hx
    · rw [World.conns_setConn_ne _ he] at hx
      exact .inl hx
  | @backend c₀ _ k hb =>
    by_cases he : c = c₀
    · subst he
      rw [World.conns_setConn, (Conn.act_frame hb).2.2.2.2] at hx
      exact .inl hx
    · rw [World.conns_setConn_ne _ he] at hx
      exact .inl hx
  | begin | cancel | readSlot | readEmpty | deliver => exact .inl hx

/-- Frames of a connection are taken for a session while it holds it. -/
theorem relayed_step_holds (h : step pool w a = some w') {r : Response}
    (hr : (c, r) ∈ (w'.sessions s).relayed) :
    (c, r) ∈ (w.sessions s).relayed ∨ (w'.sessions s).phase.holds = some c := by
  cases stepped h with
  | @begin s₀ =>
    by_cases he : s = s₀
    · subst he
      rw [World.sessions_setSession] at hr
      cases hr
    · rw [World.sessions_setSession_ne _ he] at hr
      exact .inl hr
  | @session s₀ i p e hon =>
    by_cases he : s = s₀
    · subst he
      have hr : (c, r) ∈ ((w.sessions s).perform w.conns e).relayed := by
        simpa [World.advance] using hr
      rcases relayed_perform hr with hr | ⟨m, rfl, -⟩
      · exact .inl hr
      · obtain ⟨hp, rfl⟩ := Phase.on_take hon
        rw [hp] at hon
        cases hon
        exact .inr (congrArg Phase.holds World.phase_advance)
    · rw [World.sessions_advance he] at hr
      exact .inl hr
  | @drop s₀ | @abandon s₀ =>
    by_cases he : s = s₀
    · subst he
      exact .inl (by simpa [World.abort, World.setConn] using hr)
    · rw [World.sessions_abort he] at hr
      exact .inl hr
  | evict | backend | cancel | readSlot | readEmpty | deliver => exact .inl hr

/-- A slot is pointed at a connection while its session holds it. -/
theorem slot_step_holds (h : step pool w a = some w') (hs : (w'.sessions s).slot = some c) :
    (w.sessions s).slot = some c ∨
      ((w'.sessions s).phase.holds = some c ∧ (w'.sessions s).phase.armed) := by
  cases stepped h with
  | @begin s₀ =>
    by_cases he : s = s₀
    · subst he
      rw [World.sessions_setSession] at hs
      cases hs
    · rw [World.sessions_setSession_ne _ he] at hs
      exact .inl hs
  | @session s₀ i p e hon =>
    by_cases he : s = s₀
    · subst he
      have hs : ((w.sessions s).perform w.conns e).slot = some c := by
        simpa [World.advance] using hs
      rcases slot_perform hs with ⟨hs, -⟩ | rfl
      · exact .inl hs
      · refine .inr ?_
        rw [World.phase_advance]
        exact (on_set hon).2
    · rw [World.sessions_advance he] at hs
      exact .inl hs
  | @drop s₀ | @abandon s₀ =>
    by_cases he : s = s₀
    · subst he
      exact .inl (by simpa [World.abort, World.setConn] using hs)
    · rw [World.sessions_abort he] at hs
      exact .inl hs
  | evict | backend | cancel | readSlot | readEmpty | deliver => exact .inl hs

/-- A cancel has its target from the slot of the session whose key was presented. -/
theorem target_origin (h : step pool w a = some w') (ht : .target s c ∈ w'.cancels) :
    .target s c ∈ w.cancels ∨ (w.sessions s).slot = some c := by
  cases stepped h with
  | cancel hr => exact .inl (by simpa using ht)
  | @readSlot s₀ c₀ hs =>
    rcases List.mem_cons.mp ht with ht | ht
    · cases ht
      exact .inr hs
    · exact .inl (List.mem_of_mem_erase ht)
  | readEmpty | deliver => exact .inl (List.mem_of_mem_erase ht)
  | begin | session | drop | abandon | evict | backend => exact .inl ht

/-- A cancel is delivered to its target, wherever that connection is by then. -/
theorem delivered_origin (h : step pool w a = some w') {d : Delivery} (hd : d ∈ w'.delivered) :
    d ∈ w.delivered ∨ .target d.key d.conn ∈ w.cancels ∧ d.place = (w.conns d.conn).place := by
  cases stepped h with
  | @deliver s₀ c₀ ht =>
    rcases List.mem_append.mp hd with hd | hd
    · exact .inl hd
    · cases List.mem_singleton.mp hd
      exact .inr ⟨ht, rfl⟩
  | begin | session | drop | abandon | evict | backend | cancel | readSlot | readEmpty =>
    exact .inl hd

/-- A session comes to have to do with a connection only while it holds it. -/
theorem involved_step (hg : OwnIdentity w) (h : step pool w a = some w') (hi : Involved w' s c) :
    Involved w s c ∨ (w'.sessions s).phase.holds = some c := by
  cases hi with
  | holds hh => exact .inr hh
  | wrote x hx ha => exact (log_step h hx ha).imp_left fun hx => .wrote x hx ha
  | relayed r hr => exact (relayed_step_holds h hr).imp_left fun hr => .relayed r hr
  | slot hs => exact (slot_step_holds h hs).imp .slot And.left
  | target ht => exact .inl ((target_origin h ht).elim .target .slot)
  | delivered place hd =>
    exact .inl ((delivered_origin h hd).elim (.delivered place) fun hd => .target hd.1)
  | hit key hd =>
    refine .inl ((delivered_origin h hd).elim (.hit key) fun hd => .holds ?_)
    exact ((hg c).owner s).mpr hd.2.symm

theorem not_involved_init : ¬ Involved World.init s c := by
  intro h
  cases h <;> contradiction

theorem ownRole_step (hg : OwnIdentity w) (hi : ∀ s c, Involved w s c → OwnRole w s c)
    (h : step pool w a = some w') : ∀ s c, Involved w' s c → OwnRole w' s c := by
  intro s c hinv
  rcases involved_step hg h hinv with hinv | hholds
  · exact (hi s c hinv).step hg h
  · have hg' : OwnIdentity w' :=
      (identity_local pool (fun _ _ => True)).step hg trivial h
    have hplace := ((hg' c).owner s).mp hholds
    exact ⟨ne_absent_of_holds hholds, by rw [hplace]; rintro ⟨⟩, (hg' c).leased s hplace⟩

end

/-- What holds of the identities in every run. -/
theorem roles_run {pool : BackendPool} {as : List Action} {w : World} (h : run pool as = some w) :
    OwnIdentity w ∧ Traced (clients as) w ∧ ∀ s c, Involved w s c → OwnRole w s c := by
  have hG : Along (step pool)
      (fun _ a => ∀ m, a.client = some m → m ∈ clients as) World.init as :=
    along_of_forall _ fun a ha _ m hm => List.mem_filterMap.mpr ⟨a, ha, hm⟩
  exact exec_inv
    (I := fun w => OwnIdentity w ∧ Traced (clients as) w ∧ ∀ s c, Involved w s c → OwnRole w s c)
    (fun w a w' hi hG ha => ⟨(identity_local _ (fun _ _ => True)).step hi.1 trivial ha,
      traced_step hi.1 hi.2.1 hG ha, ownRole_step hi.1 hi.2.2 ha⟩)
    ⟨Good.init, ⟨nofun, nofun, nofun, nofun, nofun⟩, fun s c hi => (not_involved_init hi).elim⟩ hG h

/-- **Roles never meet at a connection.** In every run of any sessions over one pool, in any mode:
whatever a session has to do with a connection, the connection is one of its own user and database,
and was established for a client of that user and database; so two sessions that have to do with one
connection have the same user and database. The parameters replayed to a session were captured from
such a connection too. -/
theorem roles_stay_apart (pool : BackendPool) {as : List Action} {w : World}
    (h : run pool as = some w) :
    (∀ s c, Involved w s c → (w.conns c).id.identity = (w.sessions s).identity ∧
      (w.conns c).startup ∈ clients as ∧
      proxyIdentity (w.conns c).startup = (w.sessions s).identity) ∧
    (∀ s s' c, Involved w s c → Involved w s' c →
      (w.sessions s).identity = (w.sessions s').identity) ∧
    (∀ s ps, (w.sessions s).replayed = some ps → ps.frames = (w.conns ps.origin).params ∧
      (w.conns ps.origin).id.identity = (w.sessions s).identity) := by
  obtain ⟨-, htr, hrole⟩ := roles_run h
  refine ⟨fun s c hi => ?_, fun s s' c hi hi' => ?_, fun s ps hp => ?_⟩
  · obtain ⟨-, hne, hid⟩ := hrole s c hi
    obtain ⟨hmem, hst⟩ := htr.conn c hne
    exact ⟨hid, hmem, hst.symm.trans hid⟩
  · exact (hrole s c hi).identity.symm.trans (hrole s' c hi').identity
  · obtain ⟨-, hcap⟩ := htr.replayed s ps hp
    exact ⟨hcap.frames, hcap.identity⟩

/-- A cancel that comes late hits another session (session 1), of the same user and database. -/
theorem roles_stay_apart_in_window : ∃ w,
    run (.withConnector [ascii "db"] .transaction) cancelInWindow = some w ∧
    w.delivered = [⟨0, 0, .leased 1⟩] ∧ (w.sessions 0).identity = (w.sessions 1).identity := by
  have h : (run (.withConnector [ascii "db"] .transaction) cancelInWindow).map (·.delivered) =
      some [⟨0, 0, .leased 1⟩] := by
    decide +kernel
  obtain ⟨w, hw, hd⟩ := Option.map_eq_some_iff.mp h
  obtain ⟨-, happart, -⟩ := roles_stay_apart _ hw
  have hmem : ⟨0, 0, .leased 1⟩ ∈ w.delivered := by rw [hd]; exact List.mem_singleton_self _
  exact ⟨w, hw, hd, happart 0 1 0 (.delivered _ hmem) (.hit 0 hmem)⟩

end RamaPg.Pool
