import Mathlib.Data.List.Basic

/-!
# Runs of a partial step function

`exec step s as` performs the actions `as` one after the other from `s` and is `none` as soon
as one of them is not enabled. `Along step G s as` says that every step of the run meets `G`,
a condition on the state before the step and the action taken. `exec_inv` is the invariant
rule: what every step meeting `G` preserves holds in every state such a run reaches. `exec_descent`
is for machines whose actions commute: one run into a state with no way on bounds every run.
-/

namespace RamaPg.Lib

variable {σ α : Type}

def exec (step : σ → α → Option σ) : σ → List α → Option σ
  | s, [] => some s
  | s, a :: as => (step s a).bind fun s' => exec step s' as

def Along (step : σ → α → Option σ) (G : σ → α → Prop) : σ → List α → Prop
  | _, [] => True
  | s, a :: as => G s a ∧ ∀ s', step s a = some s' → Along step G s' as

variable {step : σ → α → Option σ} {G : σ → α → Prop} {s s' : σ} {a : α} {as : List α}

theorem exec_cons (h : exec step s (a :: as) = some s') :
    ∃ t, step s a = some t ∧ exec step t as = some s' := by
  simpa [exec, Option.bind_eq_some_iff] using h

/-- **The invariant rule.** -/
theorem exec_inv {I : σ → Prop}
    (hstep : ∀ s a s', I s → G s a → step s a = some s' → I s')
    (hi : I s) (hg : Along step G s as) (hr : exec step s as = some s') : I s' := by
  induction as generalizing s with
  | nil => cases hr; exact hi
  | cons a as ih =>
    obtain ⟨t, ht, hr⟩ := exec_cons hr
    exact ih (hstep s a t hi hg.1 ht) (hg.2 t ht) hr

/-- A condition that all the actions of a run meet whatever the state. -/
theorem along_of_forall : ∀ {as : List α} (s : σ), (∀ a ∈ as, ∀ s, G s a) → Along step G s as
  | [], _, _ => trivial
  | a :: _, s, h =>
    ⟨h a List.mem_cons_self s, fun s' _ => along_of_forall s' fun b hb => h b (.tail _ hb)⟩

theorem along_true (s : σ) (as : List α) : Along step (fun _ _ => True) s as :=
  along_of_forall s fun _ _ _ => trivial

/-- The invariant rule for runs without a side condition. -/
theorem exec_inv' {I : σ → Prop} (hstep : ∀ s a s', I s → step s a = some s' → I s')
    (hi : I s) (hr : exec step s as = some s') : I s' :=
  exec_inv (fun s a s' h _ => hstep s a s' h) hi (along_true s as) hr

/-- `Along` for a decidable condition, by running it. -/
def checkAlong (step : σ → α → Option σ) (g : σ → α → Bool) : σ → List α → Bool
  | _, [] => true
  | s, a :: as => g s a && (step s a).all fun s' => checkAlong step g s' as

theorem checkAlong_along {g : σ → α → Bool} : ∀ {s : σ} {as : List α},
    checkAlong step g s as = true → Along step (fun s a => g s a = true) s as
  | _, [], _ => trivial
  | _, _ :: _, h => by
    simp only [checkAlong, Bool.and_eq_true] at h
    refine ⟨h.1, fun s' hs' => checkAlong_along ?_⟩
    simpa [hs'] using h.2

/-! ## Commuting actions -/

theorem exec_append {bs : List α} (h : exec step s as = some s') :
    exec step s (as ++ bs) = exec step s' bs := by
  induction as generalizing s with
  | nil => cases h; rfl
  | cons a as ih =>
    obtain ⟨t, ht, hr⟩ := exec_cons h
    rw [List.cons_append, exec, ht, Option.bind_some, ih hr]

/-- **The history rule**, for what is said of a state together with the run that led to it. -/
theorem exec_history {I : List α → σ → Prop} (hi : I [] s)
    (hstep : ∀ as t a t', exec step s as = some t → I as t → step t a = some t' → I (as ++ [a]) t')
    (hr : exec step s as = some s') : I as s' := by
  suffices h : ∀ bs as t, exec step s as = some t → I as t → exec step t bs = some s' →
      I (as ++ bs) s' from h as [] s rfl hi hr
  intro bs
  induction bs with
  | nil =>
    intro as t _ ht hr
    cases hr
    rwa [List.append_nil]
  | cons b bs ih =>
    intro as t has ht hr
    obtain ⟨u, hu, hr⟩ := exec_cons hr
    have h := ih (as ++ [b]) u (by rw [exec_append has, exec, hu]; rfl) (hstep as t b u has ht hu) hr
    rwa [List.append_assoc] at h

/-- Two different actions enabled together can be taken in either order. -/
def Commutes (step : σ → α → Option σ) : Prop :=
  ∀ s a b s₁ s₂, step s a = some s₁ → step s b = some s₂ → a ≠ b →
    ∃ t, step s₁ b = some t ∧ step s₂ a = some t

/-- A step out of a state that runs to `f` is a step nearer to `f`. -/
theorem exec_step_nearer [DecidableEq α] (hc : Commutes step) {f : σ} (hf : ∀ a, step f a = none) :
    ∀ {as : List α} {s t : σ} {b : α}, exec step s as = some f → step s b = some t →
      ∃ bs, exec step t bs = some f ∧ bs.length + 1 = as.length := by
  intro as
  induction as with
  | nil => intro s t b h hb; cases h; rw [hf] at hb; cases hb
  | cons a as ih =>
    intro s t b h hb
    obtain ⟨u, hu, hr⟩ := exec_cons h
    by_cases hab : a = b
    · subst hab
      obtain rfl : u = t := by rw [hu] at hb; cases hb; rfl
      exact ⟨as, hr, rfl⟩
    · obtain ⟨v, hv, hv'⟩ := hc s a b u t hu hb hab
      obtain ⟨bs, hbs, hl⟩ := ih hr hv
      exact ⟨a :: bs, by rw [exec, hv']; exact hbs, by simp only [List.length_cons]; omega⟩

/-- **Random descent.** If one run ends in a state with no way on, every run is the beginning of
one of the same length that ends there. -/
theorem exec_descent [DecidableEq α] (hc : Commutes step) {f : σ} (hf : ∀ a, step f a = none)
    {as : List α} (h : exec step s as = some f) : ∀ {bs : List α} {t : σ},
    exec step s bs = some t → ∃ cs, exec step t cs = some f ∧ bs.length + cs.length = as.length := by
  intro bs
  induction bs generalizing s as with
  | nil => intro t ht; cases ht; exact ⟨as, h, by simp⟩
  | cons b bs ih =>
    intro t ht
    obtain ⟨u, hu, hr⟩ := exec_cons ht
    obtain ⟨as', has, hl⟩ := exec_step_nearer hc hf h hu
    obtain ⟨cs, hcs, hl'⟩ := ih has hr
    exact ⟨cs, hcs, by simp only [List.length_cons]; omega⟩

end RamaPg.Lib
