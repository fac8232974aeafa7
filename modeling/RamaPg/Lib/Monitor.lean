import RamaPg.Lib.Machine

/-!
# Reactive machines and monitors

A reactive machine takes one input at a time, changes its state and emits events, or stops. A
`Monitor` follows the events of a run with a state of its own and says which event it allows next:
a safety property that looks back over the whole history. `accepts_outputs_iff` is the rule for
both: when the two states stay related, the events of a run are accepted exactly if every input
that the machine takes meets the condition under which its step is accepted.
-/

namespace RamaPg.Lib

variable {τ ι ε σ γ : Type}

/-! ## Machines -/

/-- The inputs taken, each with the events it led to. -/
def replies (step : τ → ι → Option (τ × List ε)) : τ → List ι → List (ι × List ε)
  | _, [] => []
  | t, i :: is =>
    match step t i with
    | none => []
    | some (t', es) => (i, es) :: replies step t' is

def outputs (step : τ → ι → Option (τ × List ε)) (t : τ) (is : List ι) : List ε :=
  (replies step t is).flatMap Prod.snd

/-- What is left of a step when the events are forgotten. -/
def moves (step : τ → ι → Option (τ × List ε)) (t : τ) (i : ι) : Option τ := (step t i).map Prod.fst

variable {step : τ → ι → Option (τ × List ε)} {t t' : τ} {i : ι} {is : List ι} {es fs : List ε}

theorem replies_stop (h : step t i = none) : replies step t (i :: is) = [] := by
  rw [replies, h]

theorem replies_cons (h : step t i = some (t', es)) :
    replies step t (i :: is) = (i, es) :: replies step t' is := by
  rw [replies, h]

theorem outputs_stop (h : step t i = none) : outputs step t (i :: is) = [] := by
  rw [outputs, replies_stop h]; rfl

theorem outputs_cons (h : step t i = some (t', es)) :
    outputs step t (i :: is) = es ++ outputs step t' is := by
  rw [outputs, replies_cons h]; rfl

/-- One more input at the end. -/
theorem outputs_snoc {u : τ} (hm : exec (moves step) t is = some t') (h : step t' i = some (u, es)) :
    outputs step t (is ++ [i]) = outputs step t is ++ es ∧
    exec (moves step) t (is ++ [i]) = some u := by
  induction is generalizing t with
  | nil =>
    cases hm
    refine ⟨by rw [List.nil_append, outputs_cons h, outputs, replies]; simp [outputs, replies], ?_⟩
    rw [List.nil_append, exec, moves, h]
    rfl
  | cons j is ih =>
    obtain ⟨v, hv, hm⟩ := exec_cons hm
    obtain ⟨⟨v', fs⟩, hstep, rfl⟩ := Option.map_eq_some_iff.mp hv
    obtain ⟨hout, hexec⟩ := ih hm
    constructor
    · rw [List.cons_append, outputs_cons hstep, outputs_cons hstep, hout, List.append_assoc]
    · rw [List.cons_append, exec, hv, Option.bind_some, hexec]

/-- The same machine with a note about the past beside its state. -/
def noting (note : γ → τ → ι → γ) (step : τ → ι → Option (τ × List ε)) (p : τ × γ) (i : ι) :
    Option ((τ × γ) × List ε) :=
  (step p.1 i).map fun x => ((x.1, note p.2 p.1 i), x.2)

theorem noting_eq_some {note : γ → τ → ι → γ} {c c' : γ}
    (h : noting note step (t, c) i = some ((t', c'), es)) :
    step t i = some (t', es) ∧ c' = note c t i := by
  obtain ⟨x, hx, he⟩ := Option.map_eq_some_iff.mp h
  cases he
  exact ⟨hx, rfl⟩

theorem noting_eq_none {note : γ → τ → ι → γ} {c : γ} (h : noting note step (t, c) i = none) :
    step t i = none := Option.map_eq_none_iff.mp h

/-- Notes do not change what a machine does. -/
theorem outputs_noting (note : γ → τ → ι → γ) : ∀ (is : List ι) (t : τ) (c : γ),
    outputs (noting note step) (t, c) is = outputs step t is
  | [], _, _ => rfl
  | i :: is, t, c => by
    cases h : step t i with
    | none =>
      have hn : noting note step (t, c) i = none := by rw [noting, h]; rfl
      rw [outputs_stop h, outputs_stop hn]
    | some x =>
      obtain ⟨t', es⟩ := x
      have hn : noting note step (t, c) i = some ((t', note c t i), es) := by rw [noting, h]; rfl
      rw [outputs_cons h, outputs_cons hn, outputs_noting note is]

/-! ## Monitors -/

structure Monitor (σ ε : Type) where
  next : σ → ε → σ
  allows : σ → ε → Prop

namespace Monitor

variable (M : Monitor σ ε)

/-- The state after some events. -/
def after (s : σ) (es : List ε) : σ := es.foldl M.next s

/-- Every event is allowed in the state before it. -/
def Accepts : σ → List ε → Prop
  | _, [] => True
  | s, e :: es => M.allows s e ∧ Accepts (M.next s e) es

variable {M} {s : σ} {e : ε}

@[simp] theorem accepts_nil : M.Accepts s [] := trivial

@[simp] theorem accepts_cons :
    M.Accepts s (e :: es) ↔ M.allows s e ∧ M.Accepts (M.next s e) es := Iff.rfl

@[simp] theorem after_nil : M.after s [] = s := rfl

@[simp] theorem after_cons : M.after s (e :: es) = M.after (M.next s e) es := rfl

@[simp] theorem after_append : M.after s (es ++ fs) = M.after (M.after s es) fs := List.foldl_append

@[simp] theorem accepts_append : M.Accepts s (es ++ fs) ↔ M.Accepts s es ∧ M.Accepts (M.after s es) fs := by
  induction es generalizing s with
  | nil => simp
  | cons e es ih =>
    rw [List.cons_append, accepts_cons, accepts_cons, after_cons, ih, and_assoc]

/-- A run that is cut short is accepted as far as it goes. -/
theorem Accepts.of_prefix (h : M.Accepts s fs) (hp : es <+: fs) : M.Accepts s es := by
  obtain ⟨rest, rfl⟩ := hp
  exact (accepts_append.mp h).1

theorem accepts_prefixes_iff : (∀ run, run <+: es → M.Accepts s run) ↔ M.Accepts s es :=
  ⟨fun h => h es (List.prefix_refl es), fun h _ hp => h.of_prefix hp⟩

/-- Events the monitor allows in a state they do not change. -/
theorem accepts_quiet (h : ∀ e ∈ es, M.allows s e ∧ M.next s e = s) :
    M.Accepts s es ∧ M.after s es = s := by
  induction es with
  | nil => exact ⟨trivial, rfl⟩
  | cons e es ih =>
    obtain ⟨ha, hn⟩ := h e List.mem_cons_self
    obtain ⟨ih₁, ih₂⟩ := ih fun e' he' => h e' (.tail _ he')
    constructor
    · rw [accepts_cons, hn]; exact ⟨ha, ih₁⟩
    · rw [after_cons, hn]; exact ih₂

/-- **The rule for runs.** `R` relates the machine's state to the monitor's, `G` is the condition
under which a step is accepted, for inputs of the kind `V`. -/
theorem accepts_outputs_iff {R : τ → σ → Prop} {G : τ → ι → Prop} {V : ι → Prop}
    (hstep : ∀ t s i t' es, V i → R t s → step t i = some (t', es) →
      (M.Accepts s es ↔ G t i) ∧ (G t i → R t' (M.after s es)))
    (hstop : ∀ t i, step t i = none → G t i) :
    ∀ {is : List ι} {t : τ} {s : σ}, (∀ i ∈ is, V i) → R t s →
      (M.Accepts s (outputs step t is) ↔ Along (moves step) G t is) := by
  intro is
  induction is with
  | nil => intro t s _ _; exact ⟨fun _ => trivial, fun _ => trivial⟩
  | cons i is ih =>
    intro t s hv hr
    have hv' : ∀ i' ∈ is, V i' := fun i' hi' => hv i' (.tail _ hi')
    cases h : step t i with
    | none =>
      rw [outputs_stop h]
      refine ⟨fun _ => ⟨hstop t i h, fun t' ht' => ?_⟩, fun _ => trivial⟩
      rw [moves, h] at ht'; cases ht'
    | some x =>
      obtain ⟨t', es⟩ := x
      obtain ⟨hacc, hnext⟩ := hstep t s i t' es (hv i List.mem_cons_self) hr h
      have hm : moves step t i = some t' := by rw [moves, h]; rfl
      rw [outputs_cons h, accepts_append, hacc]
      constructor
      · rintro ⟨hg, hrest⟩
        refine ⟨hg, fun t'' ht'' => ?_⟩
        obtain rfl : t' = t'' := by rw [hm] at ht''; cases ht''; rfl
        exact (ih hv' (hnext hg)).mp hrest
      · rintro ⟨hg, hrest⟩
        exact ⟨hg, (ih hv' (hnext hg)).mpr (hrest t' hm)⟩

end Monitor

end RamaPg.Lib
