import RamaPg.Cancel.Registry

/-!
# Cancel requests under way

`RegistryCancellation::cancel` locks twice: it finds the slot of the presented key, and later reads
the slot and invokes the target. Between the two the sessions go on. `System` is a registry whose
sessions are forwarders of one kind and whose requests are at any of these points; `Forwarder`
says of a kind of session which target its slot should hold, and that each of its steps keeps the
slot so. `cancel_exact` and `invoked_origin` then say what a request does: what is current, when it
reads the slot, in the session that held the key when it looked it up.
-/

namespace RamaPg.Cancel

open RamaPg.Lib RamaPg.Codec RamaPg.Startup

/-- A kind of session. `react` is one step of its forwarder, with what it writes to the slot. -/
structure Forwarder (ι σ α τ : Type) where
  start : ι → Session → CancelKey → σ
  react : σ → α → Option (σ × Option (Option τ))
  current : σ → Option τ
  start_current : ∀ i s key, current (start i s key) = none
  react_current : ∀ x a x' w, react x a = some (x', w) → current x' = w.getD (current x)

variable {ι σ α τ : Type}

/-- The registry, the sessions (kept when they have ended), the slots the requests hold and the
targets invoked. -/
structure System (σ τ : Type) where
  registry : RegistryCancellation τ
  sessions : Session → Option σ
  held : Nat → Option CancelSlot
  invoked : List (Nat × τ)

/-- A step of a session or of a request. -/
inductive Move (ι α : Type) where
  | begin (version : ProtocolVersion) (draw : Vector UInt8 (keyLen version)) (i : ι)
  | react (s : Session) (a : α)
  | finish (s : Session)
  | find (request : Nat) (key : CancelKey)
  | invoke (request : Nat)

/-- The request that moves. -/
def Move.request : Move ι α → Option Nat
  | .find r _ | .invoke r => some r
  | .begin _ _ _ | .react _ _ | .finish _ => none

namespace System

def new : System σ τ := ⟨.new, fun _ => none, fun _ => none, []⟩

/-- What a forwarder does to its slot. -/
def writeSlot (h : CancelHandle) (w : Option (Option τ)) (r : RegistryCancellation τ) :
    RegistryCancellation τ :=
  match w with
  | none => r
  | some target => r.write target h

def step (F : Forwarder ι σ α τ) (w : System σ τ) : Move ι α → Option (System σ τ)
  | .begin version draw i =>
    let key := mint version draw
    some { w with registry := w.registry.begin key
                  sessions := Function.update w.sessions w.registry.next
                    (some (F.start i w.registry.next key)) }
  | .react s a =>
    match w.registry.handles s, w.sessions s with
    | some h, some x => (F.react x a).map fun (x', t) =>
        { w with registry := writeSlot h t w.registry
                 sessions := Function.update w.sessions s (some x') }
    | _, _ => none
  | .finish s => (w.registry.handles s).map fun h => { w with registry := w.registry.drop s h }
  | .find r key => some { w with held := Function.update w.held r (w.registry.sessions key) }
  | .invoke r => (w.held r).map fun slot =>
      { w with held := Function.update w.held r none
               invoked := w.invoked ++ (w.registry.slots slot).toList.map (r, ·) }

/-- A key that is minted is none of a live session. -/
def Distinct (w : System σ τ) : Move ι α → Prop
  | .begin version draw _ => ∀ s h, w.registry.handles s = some h → h.registered ≠ mint version draw
  | _ => True

/-- What every step keeps. -/
structure Current (F : Forwarder ι σ α τ) (w : System σ τ) : Prop where
  handle : ∀ s h, w.registry.handles s = some h → h.slot = s ∧ ∃ x, w.sessions s = some x
  slot : ∀ s x, w.sessions s = some x → s < w.registry.next ∧ w.registry.slots s = F.current x
  registered : ∀ key slot, w.registry.sessions key = some slot → w.registry.handles slot = some ⟨slot, key⟩
  held : ∀ r slot, w.held r = some slot → ∃ x, w.sessions slot = some x

variable {F : Forwarder ι σ α τ} {w w' : System σ τ} {m : Move ι α} {ms : List (Move ι α)}
  {r : Nat} {s : Session} {key : CancelKey}

theorem current_new : Current F (new : System σ τ) where
  handle := by rintro s h ⟨⟩
  slot := by rintro s x ⟨⟩
  registered := by rintro key slot ⟨⟩
  held := by rintro r slot ⟨⟩

/-- A session that moves on does not lose its place. -/
theorem exists_update {x' : σ} {s' : Session} (h : ∃ x, w.sessions s' = some x) :
    ∃ x, Function.update w.sessions s (some x') s' = some x := by
  by_cases hs : s' = s
  · subst hs
    exact ⟨x', Function.update_self ..⟩
  · rw [Function.update_of_ne hs]
    exact h

theorem Current.begin (h : Current F w) {version : ProtocolVersion}
    {draw : Vector UInt8 (keyLen version)} {i : ι}
    (hw : w.step F (.begin version draw i) = some w') : Current F w' := by
  cases hw
  have hfresh : ∀ s x, w.sessions s = some x → s ≠ w.registry.next := fun s x hx =>
    Nat.ne_of_lt (h.slot s x hx).1
  refine ⟨?_, ?_, ?_, ?_⟩
  · intro s hh hs
    replace hs : Function.update w.registry.handles w.registry.next
      (some ⟨w.registry.next, mint version draw⟩) s = some hh := hs
    by_cases he : s = w.registry.next
    · subst he
      rw [Function.update_self] at hs
      cases hs
      exact ⟨rfl, _, Function.update_self ..⟩
    · rw [Function.update_of_ne he] at hs
      exact ⟨(h.handle s hh hs).1, exists_update (h.handle s hh hs).2⟩
  · intro s x hx
    show s < w.registry.next + 1 ∧ Function.update w.registry.slots w.registry.next none s = F.current x
    replace hx : Function.update w.sessions w.registry.next _ s = some x := hx
    by_cases he : s = w.registry.next
    · subst he
      rw [Function.update_self] at hx ⊢
      cases hx
      exact ⟨Nat.lt_succ_self _, (F.start_current _ _ _).symm⟩
    · rw [Function.update_of_ne he] at hx ⊢
      exact ⟨Nat.lt_succ_of_lt (h.slot s x hx).1, (h.slot s x hx).2⟩
  · intro key slot hk
    show Function.update w.registry.handles w.registry.next _ slot = _
    replace hk : Function.update w.registry.sessions (mint version draw) (some w.registry.next) key =
      some slot := hk
    by_cases he : key = mint version draw
    · subst he
      rw [Function.update_self] at hk
      cases hk
      rw [Function.update_self]
    · rw [Function.update_of_ne he] at hk
      have hh := h.registered key slot hk
      obtain ⟨x, hx⟩ := (h.handle slot _ hh).2
      rw [Function.update_of_ne (hfresh slot x hx)]
      exact hh
  · intro r slot hr
    exact exists_update (h.held r slot hr)

theorem Current.react (h : Current F w) {a : α} (hw : w.step F (.react s a) = some w') :
    Current F w' := by
  simp only [step] at hw
  split at hw
  · rename_i hh x hhandle hx
    obtain ⟨⟨x', t⟩, hreact, rfl⟩ := Option.map_eq_some_iff.mp hw
    have hcur := F.react_current x a x' t hreact
    have hslot := (h.handle s hh hhandle).1
    refine ⟨?_, ?_, ?_, ?_⟩
    · intro s' hh' hs'
      have hs'' : w.registry.handles s' = some hh' := by cases t <;> exact hs'
      exact ⟨(h.handle s' hh' hs'').1, exists_update (h.handle s' hh' hs'').2⟩
    · intro s' y hy
      replace hy : Function.update w.sessions s (some x') s' = some y := hy
      have hnext : (writeSlot hh t w.registry).next = w.registry.next := by cases t <;> rfl
      rw [hnext]
      by_cases he : s' = s
      · subst he
        rw [Function.update_self] at hy
        cases hy
        refine ⟨(h.slot s' x hx).1, ?_⟩
        cases t with
        | none =>
          rw [hcur]
          exact (h.slot s' x hx).2
        | some target =>
          show Function.update w.registry.slots hh.slot target s' = _
          rw [hslot, Function.update_self, hcur]
          rfl
      · rw [Function.update_of_ne he] at hy
        refine ⟨(h.slot s' y hy).1, ?_⟩
        cases t with
        | none => exact (h.slot s' y hy).2
        | some target =>
          show Function.update w.registry.slots hh.slot target s' = _
          rw [hslot, Function.update_of_ne he]
          exact (h.slot s' y hy).2
    · intro key slot hk
      cases t <;> exact h.registered key slot hk
    · intro r slot hr
      exact exists_update (h.held r slot hr)
  · cases hw

theorem Current.finish (h : Current F w) (hw : w.step F (.finish s : Move ι α) = some w') :
    Current F w' := by
  obtain ⟨hh, hhandle, rfl⟩ := Option.map_eq_some_iff.mp hw
  refine ⟨?_, h.slot, ?_, h.held⟩
  · intro s' hh' hs'
    replace hs' : Function.update w.registry.handles s none s' = some hh' := hs'
    by_cases he : s' = s
    · subst he
      rw [Function.update_self] at hs'
      cases hs'
    · rw [Function.update_of_ne he] at hs'
      exact h.handle s' hh' hs'
  · intro key slot hk
    show Function.update w.registry.handles s none slot = _
    replace hk : Function.update w.registry.sessions hh.registered none key = some slot := hk
    by_cases he : key = hh.registered
    · subst he
      rw [Function.update_self] at hk
      cases hk
    · rw [Function.update_of_ne he] at hk
      have hs := h.registered key slot hk
      have hne : slot ≠ s := by
        rintro rfl
        rw [hhandle] at hs
        cases hs
        exact he rfl
      rw [Function.update_of_ne hne]
      exact hs

/-- **One step.** -/
theorem Current.step (h : Current F w) (hw : w.step F m = some w') : Current F w' := by
  cases m with
  | begin version draw i => exact h.begin hw
  | react s a => exact h.react hw
  | finish s => exact h.finish hw
  | find r key =>
    cases hw
    refine ⟨h.handle, h.slot, h.registered, ?_⟩
    intro r' slot hr
    replace hr : Function.update w.held r (w.registry.sessions key) r' = some slot := hr
    by_cases he : r' = r
    · subst he
      rw [Function.update_self] at hr
      exact (h.handle slot _ (h.registered key slot hr)).2
    · rw [Function.update_of_ne he] at hr
      exact h.held r' slot hr
  | invoke r =>
    obtain ⟨slot, hslot, rfl⟩ := Option.map_eq_some_iff.mp hw
    refine ⟨h.handle, h.slot, h.registered, ?_⟩
    intro r' slot' hr
    replace hr : Function.update w.held r none r' = some slot' := hr
    by_cases he : r' = r
    · subst he
      rw [Function.update_self] at hr
      cases hr
    · rw [Function.update_of_ne he] at hr
      exact h.held r' slot' hr

/-- **Every run.** -/
theorem Current.run (h : Current F w) (hw : exec (System.step F) w ms = some w') : Current F w' :=
  exec_inv' (fun _ _ _ hi hs => Current.step hi hs) h hw

/-- Every live session is found by its key. -/
def Findable (w : System σ τ) : Prop :=
  ∀ s h, w.registry.handles s = some h → w.registry.sessions h.registered = some s

theorem findable_new : Findable (new : System σ τ) := by
  rintro s h ⟨⟩

theorem Findable.step (h : Findable w) (hd : w.Distinct m) (hw : w.step F m = some w') : Findable w' := by
  cases m with
  | begin version draw i =>
    cases hw
    intro s hh hs
    show Function.update w.registry.sessions (mint version draw) _ hh.registered = some s
    replace hs : Function.update w.registry.handles w.registry.next
      (some ⟨w.registry.next, mint version draw⟩) s = some hh := hs
    by_cases he : s = w.registry.next
    · subst he
      rw [Function.update_self] at hs
      cases hs
      rw [Function.update_self]
    · rw [Function.update_of_ne he] at hs
      rw [Function.update_of_ne (hd s hh hs)]
      exact h s hh hs
  | react s a =>
    simp only [System.step] at hw
    split at hw
    · obtain ⟨⟨x', t⟩, -, rfl⟩ := Option.map_eq_some_iff.mp hw
      intro s' hh hs
      cases t <;> exact h s' hh hs
    · cases hw
  | finish s =>
    obtain ⟨hh, hhandle, rfl⟩ := Option.map_eq_some_iff.mp hw
    intro s' hh' hs
    show Function.update w.registry.sessions hh.registered none hh'.registered = some s'
    replace hs : Function.update w.registry.handles s none s' = some hh' := hs
    by_cases he : s' = s
    · subst he
      rw [Function.update_self] at hs
      cases hs
    · rw [Function.update_of_ne he] at hs
      have hfound := h s' hh' hs
      -- Two live sessions with one key would be found at one place.
      have hne : hh'.registered ≠ hh.registered := by
        intro hk
        rw [hk, h s hh hhandle] at hfound
        exact he (Option.some.inj hfound).symm
      rw [Function.update_of_ne hne]
      exact hfound
  | find r key => cases hw; exact h
  | invoke r =>
    obtain ⟨slot, -, rfl⟩ := Option.map_eq_some_iff.mp hw
    exact h

theorem Findable.run (h : Findable w) (hd : Along (System.step F) Distinct w ms)
    (hw : exec (System.step F) w ms = some w') : Findable w' :=
  exec_inv (fun _ _ _ hi hg hs => Findable.step hi hg hs) h hd hw

/-- A request that does not move keeps its slot. -/
theorem held_step (hne : m.request ≠ some r) (hw : w.step F m = some w') : w'.held r = w.held r := by
  cases m with
  | begin version draw i => cases hw; rfl
  | react s a =>
    simp only [System.step] at hw
    split at hw
    · obtain ⟨y, -, rfl⟩ := Option.map_eq_some_iff.mp hw
      rfl
    · cases hw
  | finish s =>
    obtain ⟨hh, -, rfl⟩ := Option.map_eq_some_iff.mp hw
    rfl
  | find r' key =>
    cases hw
    have he : r ≠ r' := by rintro rfl; exact hne rfl
    exact Function.update_of_ne he ..
  | invoke r' =>
    obtain ⟨slot, -, rfl⟩ := Option.map_eq_some_iff.mp hw
    have he : r ≠ r' := by rintro rfl; exact hne rfl
    exact Function.update_of_ne he ..

theorem held_run : ∀ {ms : List (Move ι α)} {w : System σ τ}, (∀ m ∈ ms, m.request ≠ some r) →
    exec (step F) w ms = some w' → w'.held r = w.held r
  | [], w, _, hw => by cases hw; rfl
  | m :: ms, w, hne, hw => by
    obtain ⟨u, hu, hr⟩ := exec_cons hw
    rw [held_run (fun m hm => hne m (.tail _ hm)) hr, held_step (hne m List.mem_cons_self) hu]

/-- A request holds the slot of the session that had its key, and of no other. -/
theorem find_spec (hw : w.step F (.find r key : Move ι α) = some w') :
    w'.held r = w.registry.sessions key := by
  cases hw
  exact Function.update_self ..

theorem invoke_spec (hcur : Current F w) {x : σ} (hheld : w.held r = some s)
    (hx : w.sessions s = some x) (hw : w.step F (.invoke r : Move ι α) = some w') :
    w'.invoked = w.invoked ++ (F.current x).toList.map (r, ·) := by
  simp only [step, hheld, Option.map_some, (hcur.slot s x hx).2] at hw
  cases hw
  rfl

/-- **What a request does.** In every run, a request that looks a key up and reads the slot later
invokes what is then current in the session that was live under that key; and one whose key belongs
to no live session never reads a slot. -/
theorem cancel_exact {before between : List (Move ι α)} {w₁ w₂ w₃ : System σ τ}
    (hbefore : exec (step F) new before = some w₁) (hd : Along (step F) Distinct new before)
    (hfind : w₁.step F (.find r key) = some w₂) (hbetween : exec (step F) w₂ between = some w₃)
    (hr : ∀ m ∈ between, m.request ≠ some r) :
    (∀ s h, w₁.registry.handles s = some h → h.registered = key →
      ∃ x w₄, w₃.sessions s = some x ∧ w₃.step F (.invoke r) = some w₄ ∧
        w₄.invoked = w₃.invoked ++ (F.current x).toList.map (r, ·)) ∧
    ((∀ s h, w₁.registry.handles s = some h → h.registered ≠ key) →
      w₃.step F (.invoke r) = none) := by
  have hcur := current_new.run hbefore
  have hfindable := findable_new.run hd hbefore
  have hcur₃ := (hcur.step hfind).run hbetween
  have hheld : w₃.held r = w₁.registry.sessions key := by
    rw [held_run hr hbetween, find_spec hfind]
  constructor
  · rintro s h hs rfl
    rw [hfindable s h hs] at hheld
    obtain ⟨x, hx⟩ := hcur₃.held r s hheld
    obtain ⟨w₄, hinvoke⟩ : ∃ w₄, w₃.step F (.invoke r) = some w₄ := by
      rw [step, hheld, Option.map_some]
      exact ⟨_, rfl⟩
    exact ⟨x, w₄, hx, hinvoke, invoke_spec hcur₃ hheld hx hinvoke⟩
  · intro hnone
    have hk : w₁.registry.sessions key = none := by
      cases hs : w₁.registry.sessions key with
      | none => rfl
      | some slot => exact absurd rfl (hnone slot _ (hcur.registered key slot hs))
    rw [step, hheld, hk]
    rfl

/-- Where an invocation comes from: a request that found the key of a session, and the target that
was current in that session when it was invoked. -/
def Origin (F : Forwarder ι σ α τ) (ms : List (Move ι α)) (r : Nat) (t : τ) : Prop :=
  ∃ before between after key s w₁ w₃ x, ms = before ++ .find r key :: (between ++ .invoke r :: after) ∧
    exec (step F) new before = some w₁ ∧ w₁.registry.handles s = some ⟨s, key⟩ ∧
    exec (step F) new (before ++ .find r key :: between) = some w₃ ∧ w₃.sessions s = some x ∧
    F.current x = some t

/-- What is held was found. -/
def Found (F : Forwarder ι σ α τ) (ms : List (Move ι α)) (r : Nat) (s : Session) : Prop :=
  ∃ before between key w₁, ms = before ++ .find r key :: between ∧
    exec (step F) new before = some w₁ ∧ w₁.registry.handles s = some ⟨s, key⟩

theorem Found.append {m : Move ι α} (h : Found F ms r s) : Found F (ms ++ [m]) r s := by
  obtain ⟨before, between, key, w₁, rfl, hb, hs⟩ := h
  exact ⟨before, between ++ [m], key, w₁, by rw [List.append_assoc]; rfl, hb, hs⟩

theorem Origin.append {t : τ} {m : Move ι α} (h : Origin F ms r t) : Origin F (ms ++ [m]) r t := by
  obtain ⟨before, between, after, key, s, w₁, w₃, x, rfl, h⟩ := h
  exact ⟨before, between, after ++ [m], key, s, w₁, w₃, x, by simp, h⟩

/-- **No invocation without a cause.** Whatever keys are minted, each target that is invoked was the
current one of a session whose key the request had presented, when the request read its slot. -/
theorem invoked_origin (hw : exec (step F) new ms = some w) :
    (∀ r s, w.held r = some s → Found F ms r s) ∧ ∀ r t, (r, t) ∈ w.invoked → Origin F ms r t := by
  refine exec_history (I := fun ms w => (∀ r s, w.held r = some s → Found F ms r s) ∧
    ∀ r t, (r, t) ∈ w.invoked → Origin F ms r t) ⟨by rintro r s ⟨⟩, by rintro r t ⟨⟩⟩ ?_ hw
  rintro before w₁ m w₂ hbefore ⟨hheld, hinvoked⟩ hm
  have hcur := current_new.run hbefore
  constructor
  · intro r s hr
    by_cases hreq : m.request = some r
    · cases m with
      | find r' key =>
        cases hreq
        rw [find_spec hm] at hr
        exact ⟨before, [], key, w₁, rfl, hbefore, hcur.registered key s hr⟩
      | invoke r' =>
        cases hreq
        obtain ⟨slot, -, rfl⟩ := Option.map_eq_some_iff.mp hm
        replace hr : Function.update w₁.held r none r = some s := hr
        rw [Function.update_self] at hr
        cases hr
      | begin _ _ _ | react _ _ | finish _ => cases hreq
    · rw [held_step hreq hm] at hr
      exact (hheld r s hr).append
  · intro r t hrt
    by_cases hold : (r, t) ∈ w₁.invoked
    · exact (hinvoked r t hold).append
    cases m with
    | invoke r' =>
      obtain ⟨slot, hslot, -⟩ := Option.map_eq_some_iff.mp hm
      obtain ⟨x, hx⟩ := hcur.held r' slot hslot
      rw [invoke_spec hcur hslot hx hm] at hrt
      rcases List.mem_append.mp hrt with hrt | hrt
      · exact (hold hrt).elim
      obtain ⟨t', ht', heq⟩ := List.mem_map.mp hrt
      cases heq
      obtain ⟨before, between, key, w₀, rfl, hb, hs⟩ := hheld r slot hslot
      refine ⟨before, between, [], key, slot, w₀, w₁, x, ?_, hb, hs, hbefore, hx, ?_⟩
      · rw [List.append_assoc, List.cons_append]
      · exact Option.mem_toList.mp ht'
    | begin _ _ _ =>
      cases hm
      exact (hold hrt).elim
    | react s a =>
      simp only [System.step] at hm
      split at hm
      · obtain ⟨y, -, rfl⟩ := Option.map_eq_some_iff.mp hm
        exact (hold hrt).elim
      · cases hm
    | finish s =>
      obtain ⟨hh, -, rfl⟩ := Option.map_eq_some_iff.mp hm
      exact (hold hrt).elim
    | find r' key =>
      cases hm
      exact (hold hrt).elim

/-! ## What the sessions keep -/

/-- The sessions after a step: one begins, one moves on, or all are as they were. -/
theorem sessions_step (hw : w.step F m = some w') :
    (∃ version draw i, m = .begin version draw i ∧
      w'.registry.handles = Function.update w.registry.handles w.registry.next
        (some ⟨w.registry.next, mint version draw⟩) ∧
      w'.sessions = Function.update w.sessions w.registry.next
        (some (F.start i w.registry.next (mint version draw)))) ∨
    (∃ s a x x' t, m = .react s a ∧ w.sessions s = some x ∧ F.react x a = some (x', t) ∧
      w'.registry.handles = w.registry.handles ∧
      w'.sessions = Function.update w.sessions s (some x')) ∨
    (w'.sessions = w.sessions ∧
      ∀ s h, w'.registry.handles s = some h → w.registry.handles s = some h) := by
  cases m with
  | begin version draw i =>
    cases hw
    exact .inl ⟨version, draw, i, rfl, rfl, rfl⟩
  | react s a =>
    simp only [System.step] at hw
    split at hw
    · rename_i hh x hhandle hx
      obtain ⟨⟨x', t⟩, hreact, rfl⟩ := Option.map_eq_some_iff.mp hw
      exact .inr (.inl ⟨s, a, x, x', t, rfl, hx, hreact, by cases t <;> rfl, rfl⟩)
    · cases hw
  | finish s =>
    obtain ⟨hh, -, rfl⟩ := Option.map_eq_some_iff.mp hw
    refine .inr (.inr ⟨rfl, fun s' h' hs' => ?_⟩)
    replace hs' : Function.update w.registry.handles s none s' = some h' := hs'
    by_cases he : s' = s
    · subst he
      rw [Function.update_self] at hs'
      cases hs'
    · rwa [Function.update_of_ne he] at hs'
  | find r key =>
    cases hw
    exact .inr (.inr ⟨rfl, fun _ _ h => h⟩)
  | invoke r =>
    obtain ⟨slot, -, rfl⟩ := Option.map_eq_some_iff.mp hw
    exact .inr (.inr ⟨rfl, fun _ _ h => h⟩)

/-- What a session keeps from its beginning, live or not. -/
theorem session_inv {P : Session → σ → Prop} (hstart : ∀ i s key, P s (F.start i s key))
    (hreact : ∀ s x a x' t, P s x → F.react x a = some (x', t) → P s x')
    (hw : exec (step F) new ms = some w) : ∀ s x, w.sessions s = some x → P s x := by
  refine exec_inv' (I := fun w => ∀ s x, w.sessions s = some x → P s x) ?_ (by rintro s x ⟨⟩) hw
  intro w m w' hinv hm s x hx
  rcases sessions_step hm with ⟨version, draw, i, -, -, hs⟩ | ⟨s', a, y, y', t, -, hy, hr, -, hs⟩ |
    ⟨hs, -⟩
  · rw [hs] at hx
    by_cases he : s = w.registry.next
    · subst he
      rw [Function.update_self] at hx
      cases hx
      exact hstart i _ _
    · rw [Function.update_of_ne he] at hx
      exact hinv s x hx
  · rw [hs] at hx
    by_cases he : s = s'
    · subst he
      rw [Function.update_self] at hx
      cases hx
      exact hreact s y a _ t (hinv s y hy) hr
    · rw [Function.update_of_ne he] at hx
      exact hinv s x hx
  · rw [hs] at hx
    exact hinv s x hx

/-- Where a session goes on from a state, by steps that are in a preorder. -/
theorem session_run {R : σ → σ → Prop} (hrefl : ∀ x, R x x) (htrans : ∀ x y z, R x y → R y z → R x z)
    (hreact : ∀ x a x' t, F.react x a = some (x', t) → R x x') (h : Current F w)
    (hw : exec (step F) w ms = some w') {x : σ} (hx : w.sessions s = some x) :
    ∃ x', w'.sessions s = some x' ∧ R x x' := by
  have hinv := exec_inv' (I := fun w => Current F w ∧ ∃ x', w.sessions s = some x' ∧ R x x') ?_
    ⟨h, x, hx, hrefl x⟩ hw
  · exact hinv.2
  rintro u m u' ⟨hcur, y, hy, hxy⟩ hm
  refine ⟨hcur.step hm, ?_⟩
  rcases sessions_step hm with ⟨version, draw, i, -, -, hs⟩ | ⟨s', a, z, z', t, -, hz, hr, -, hs⟩ |
    ⟨hs, -⟩
  · have hne : s ≠ u.registry.next := Nat.ne_of_lt (hcur.slot s y hy).1
    exact ⟨y, by rw [hs, Function.update_of_ne hne, hy], hxy⟩
  · rw [hs]
    by_cases he : s = s'
    · subst he
      obtain rfl : y = z := by rw [hy] at hz; exact Option.some.inj hz
      exact ⟨z', Function.update_self .., htrans _ _ _ hxy (hreact y a z' t hr)⟩
    · exact ⟨y, by rw [Function.update_of_ne he, hy], hxy⟩
  · exact ⟨y, by rw [hs, hy], hxy⟩

/-- What a live session keeps, together with its key. -/
theorem handle_inv {P : CancelKey → σ → Prop}
    (hstart : ∀ i s version draw, P (mint version draw) (F.start i s (mint version draw)))
    (hreact : ∀ key x a x' t, P key x → F.react x a = some (x', t) → P key x')
    (hw : exec (step F) new ms = some w) :
    ∀ s h x, w.registry.handles s = some h → w.sessions s = some x → P h.registered x := by
  refine exec_inv' (I := fun w => ∀ s h x, w.registry.handles s = some h → w.sessions s = some x →
    P h.registered x) ?_ (by rintro s h x ⟨⟩) hw
  intro w m w' hinv hm s h x hh hx
  rcases sessions_step hm with ⟨version, draw, i, -, hhs, hs⟩ |
    ⟨s', a, y, y', t, -, hy, hr, hhs, hs⟩ | ⟨hs, hhs⟩
  · rw [hhs] at hh
    rw [hs] at hx
    by_cases he : s = w.registry.next
    · subst he
      rw [Function.update_self] at hh hx
      cases hh
      cases hx
      exact hstart i _ version draw
    · rw [Function.update_of_ne he] at hh hx
      exact hinv s h x hh hx
  · rw [hhs] at hh
    rw [hs] at hx
    by_cases he : s = s'
    · subst he
      rw [Function.update_self] at hx
      cases hx
      exact hreact _ y a _ t (hinv s h y hh hy) hr
    · rw [Function.update_of_ne he] at hx
      exact hinv s h x hh hx
  · rw [hs] at hx
    exact hinv s h x (hhs s h hh) hx

end System

end RamaPg.Cancel
