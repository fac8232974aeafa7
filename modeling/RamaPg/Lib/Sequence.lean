import RamaPg.Lib.Dialog

/-!
# Dialogues one after the other

A dialogue of two parties runs the same with more of each program behind it: `Net.Reaches.bind`
puts two dialogues in sequence, and `Prog.feed_bind` does so for the run of one party against the
messages it is given. `Prog.ask` changes how a program asks for its messages, so that dialogues with
different kinds of reads can share a net.
-/

namespace RamaPg.Lib

variable {ρ ρ' ι ε α β γ δ : Type}

/-! ## Sequences -/

theorem Prog.bind_assoc (f : α → Prog ρ ι ε β) (g : β → Prog ρ ι ε γ) :
    ∀ p : Prog ρ ι ε α, (p >>= f) >>= g = p >>= fun a => f a >>= g
  | .done (.ok _) => rfl
  | .done (.error _) => rfl
  | .write bs k => congrArg (Prog.write bs) (Prog.bind_assoc f g k)
  | .read q k => congrArg (Prog.read q) (funext fun m => Prog.bind_assoc f g (k m))

/-- Write the byte strings one after the other. -/
def Prog.sendAll (bss : List Bytes) (k : Prog ρ ι ε α) : Prog ρ ι ε α := bss.foldr Prog.write k

/-! ## One party and its messages -/

/-- What a run leaves for the rest of a sequence. -/
theorem Prog.feed_bind (f : α → Prog ρ ι ε β) : ∀ (p : Prog ρ ι ε α) (ms : List ι),
    (p >>= f).feed ms = match p.feed ms with
      | (es, some (.ok a), rest) => (es ++ ((f a).feed rest).1, ((f a).feed rest).2)
      | (es, some (.error e), rest) => (es, some (.error e), rest)
      | (es, none, rest) => (es, none, rest)
  | .done (.ok a), ms => rfl
  | .done (.error e), ms => rfl
  | .write bs k, ms => by
    rw [Prog.write_bind, Prog.feed, Prog.feed, Prog.feed_bind f k ms]
    obtain ⟨es, r, rest⟩ := k.feed ms
    rcases r with - | (e | a) <;> rfl
  | .read q k, [] => rfl
  | .read q k, m :: ms => by
    rw [Prog.read_bind, Prog.feed, Prog.feed, Prog.feed_bind f (k m) ms]
    obtain ⟨es, r, rest⟩ := (k m).feed ms
    rcases r with - | (e | a) <;> rfl

/-- The message a read gave. -/
def Event.read : Event ρ ι → Option ι
  | .sent _ => none
  | .torn _ _ => none
  | .received _ m => some m

/-- A program reads its messages in order and leaves the others. -/
theorem Prog.feed_reads : ∀ (p : Prog ρ ι ε α) (ms : List ι),
    (p.feed ms).1.filterMap Event.read ++ (p.feed ms).2.2 = ms
  | .done _, _ => rfl
  | .write _ k, ms => Prog.feed_reads k ms
  | .read _ _, [] => rfl
  | .read _ k, m :: ms => congrArg (m :: ·) (Prog.feed_reads (k m) ms)

/-- A step that may fail: the run ends there without an event, or goes on with the value. -/
theorem Runs.lift_inv {x : Except ε α} {f : α → Prog ρ ι ε β} {es : List (Event ρ ι)}
    {r : Option (Except ε β)} (h : Runs (Prog.lift x >>= f) es r) :
    (Unfinished r ∧ es = []) ∨ ∃ a, x = .ok a ∧ Runs (f a) es r := by
  cases x with
  | ok a => exact .inr ⟨a, rfl, h⟩
  | error e =>
    obtain ⟨rfl, rfl | rfl⟩ := Runs.done_inv h
    · exact .inl ⟨unfinished_none, rfl⟩
    · exact .inl ⟨unfinished_error e, rfl⟩

/-! ## Two parties -/

variable {rc : Receive ρ ι ε}

theorem Prog.step_bind {p p' : Prog ρ ι ε α} {inbox inbox' out : Bytes}
    (h : p.step rc inbox = some (p', inbox', out)) (f : α → Prog ρ ι ε β) :
    (p >>= f).step rc inbox = some (p' >>= f, inbox', out) := by
  cases p with
  | done r => cases h
  | write bs k => cases bs <;> cases h <;> rfl
  | read q k =>
    rw [Prog.read_bind, Prog.step] at *
    split at h
    · cases h
    · cases h; rfl
    · cases h; rfl

theorem Net.step_bind {n n' : Net ρ ι ε α β} {x : Side} (h : n.step rc x = some n')
    (f : α → Prog ρ ι ε γ) (g : β → Prog ρ ι ε δ) :
    (⟨n.left >>= f, n.right >>= g, n.toRight, n.toLeft⟩ : Net ρ ι ε γ δ).step rc x =
      some ⟨n'.left >>= f, n'.right >>= g, n'.toRight, n'.toLeft⟩ := by
  cases x with
  | left =>
    obtain ⟨p, inbox, out, hp, rfl⟩ := Net.step_left h
    simp only [Net.step, Prog.step_bind hp f, Option.map_some]
  | right =>
    obtain ⟨p, inbox, out, hp, rfl⟩ := Net.step_right h
    simp only [Net.step, Prog.step_bind hp g, Option.map_some]

theorem Net.reaches_bind {n t : Net ρ ι ε α β} (h : Net.Reaches rc n t)
    (f : α → Prog ρ ι ε γ) (g : β → Prog ρ ι ε δ) :
    Net.Reaches rc ⟨n.left >>= f, n.right >>= g, n.toRight, n.toLeft⟩
      ⟨t.left >>= f, t.right >>= g, t.toRight, t.toLeft⟩ := by
  obtain ⟨sched, h⟩ := h
  induction sched generalizing n with
  | nil => cases h; exact .refl _
  | cons x sched ih =>
    obtain ⟨u, hu, hr⟩ := exec_cons h
    exact .step (Net.step_bind hu f g) (ih hr)

/-- **Sequencing.** A dialogue that comes to both results goes on with what each side does next. -/
theorem Net.Reaches.bind {p : Prog ρ ι ε α} {p' : Prog ρ ι ε β} {toRight toLeft : Bytes} {a : α}
    {b : β} (h : Net.Reaches rc ⟨p, p', toRight, toLeft⟩ ⟨.done (.ok a), .done (.ok b), [], []⟩)
    (f : α → Prog ρ ι ε γ) (g : β → Prog ρ ι ε δ) :
    Net.Reaches rc ⟨p >>= f, p' >>= g, toRight, toLeft⟩ ⟨f a, g b, [], []⟩ :=
  Net.reaches_bind h f g

/-- From every state on the way the end can still be reached. -/
theorem Net.Ends.reaches {n t : Net ρ ι ε α β} {a : Except ε α} {b : Except ε β}
    (h : Net.Ends rc n a b) (ht : Net.Reaches rc n t) :
    Net.Reaches rc t ⟨.done a, .done b, [], []⟩ := by
  obtain ⟨len, h⟩ := h
  obtain ⟨sched, ht⟩ := ht
  obtain ⟨rest, hr, -⟩ := h sched t ht
  exact ⟨rest, hr⟩

/-- The left party takes the message at the head of its queue. -/
theorem Net.take_left {q : ρ} {m : ι} {inbox rest toRight : Bytes} (k : ι → Prog ρ ι ε α)
    (p : Prog ρ ι ε β) (h : rc q inbox = some (.ok m, rest)) :
    Net.Reaches rc ⟨.read q k, p, toRight, inbox⟩ ⟨k m, p, toRight, rest⟩ := by
  refine .step (x := .left) ?_ (.refl _)
  simp only [Net.step, Prog.step, h, Option.map_some, List.append_nil]

/-! ## Other kinds of reads -/

/-- Ask for the messages in the words of another kind of read. -/
def Prog.ask (f : ρ → ρ') : Prog ρ ι ε α → Prog ρ' ι ε α
  | done r => done r
  | write bs k => write bs (k.ask f)
  | read q k => read (f q) fun m => (k m).ask f

theorem Prog.step_ask {f : ρ → ρ'} {rc' : Receive ρ' ι ε} (hf : ∀ q bs, rc' (f q) bs = rc q bs)
    {p p' : Prog ρ ι ε α} {inbox inbox' out : Bytes}
    (h : p.step rc inbox = some (p', inbox', out)) :
    (p.ask f).step rc' inbox = some (p'.ask f, inbox', out) := by
  cases p with
  | done r => cases h
  | write bs k => cases bs <;> cases h <;> rfl
  | read q k =>
    rw [Prog.step] at h
    rw [Prog.ask, Prog.step, hf]
    split at h
    · cases h
    · cases h; rfl
    · cases h; rfl

/-- The dialogue of two programs is the same over a stream that also answers other reads. -/
theorem Net.Reaches.ask {f : ρ → ρ'} {rc' : Receive ρ' ι ε} (hf : ∀ q bs, rc' (f q) bs = rc q bs)
    {n t : Net ρ ι ε α β} (h : Net.Reaches rc n t) :
    Net.Reaches rc' ⟨n.left.ask f, n.right.ask f, n.toRight, n.toLeft⟩
      ⟨t.left.ask f, t.right.ask f, t.toRight, t.toLeft⟩ := by
  obtain ⟨sched, h⟩ := h
  induction sched generalizing n with
  | nil => cases h; exact .refl _
  | cons x sched ih =>
    obtain ⟨u, hu, hr⟩ := exec_cons h
    refine .step (x := x) ?_ (ih hr)
    cases x with
    | left =>
      obtain ⟨p, inbox, out, hp, rfl⟩ := Net.step_left hu
      simp only [Net.step, Prog.step_ask hf hp, Option.map_some]
    | right =>
      obtain ⟨p, inbox, out, hp, rfl⟩ := Net.step_right hu
      simp only [Net.step, Prog.step_ask hf hp, Option.map_some]

end RamaPg.Lib
