import RamaPg.Lib.Bytes
import Mathlib.Data.List.TakeWhile
import Mathlib.Data.Nat.Digits.Lemmas
import Mathlib.Tactic.IntervalCases

/-!
# Text as bytes

Text is its UTF-8 bytes; the separators searched for are ASCII, so cutting at a byte is cutting at
a character. `isUtf8` is the well-formedness of a byte sequence, `Many` repetition in a grammar,
`splitOnce` cuts at the first occurrence of a byte, `rsplitOnce` at the last occurrence of a
pattern, `chars` into characters, and `decimal` and `parseU32` print and read unsigned 32-bit
numbers.
-/

namespace RamaPg.Lib

/-! ## UTF-8 -/

/-- A continuation byte. -/
def isTail (b : UInt8) : Bool := 0x80 ≤ b && b ≤ 0xBF

def isUtf8Two (a b : UInt8) : Bool := 0xC2 ≤ a && a ≤ 0xDF && isTail b

def isUtf8Three (a b c : UInt8) : Bool :=
  ((a == 0xE0 && 0xA0 ≤ b && b ≤ 0xBF) || (0xE1 ≤ a && a ≤ 0xEC && isTail b) ||
    (a == 0xED && 0x80 ≤ b && b ≤ 0x9F) || (0xEE ≤ a && a ≤ 0xEF && isTail b)) && isTail c

def isUtf8Four (a b c d : UInt8) : Bool :=
  ((a == 0xF0 && 0x90 ≤ b && b ≤ 0xBF) || (0xF1 ≤ a && a ≤ 0xF3 && isTail b) ||
    (a == 0xF4 && 0x80 ≤ b && b ≤ 0x8F)) && isTail c && isTail d

/-- The bytes are well-formed UTF-8. -/
def isUtf8 : Bytes → Bool
  | [] => true
  | a :: rest =>
    if a < 0x80 then isUtf8 rest
    else match rest with
      | [] => false
      | b :: rest =>
        if isUtf8Two a b then isUtf8 rest
        else match rest with
          | [] => false
          | c :: rest =>
            if isUtf8Three a b c then isUtf8 rest
            else match rest with
              | [] => false
              | d :: rest => isUtf8Four a b c d && isUtf8 rest

/-- The ranges of the bytes of a character of two bytes. -/
theorem isUtf8Two_bytes {a b : UInt8} (h : isUtf8Two a b = true) :
    0xC2 ≤ a ∧ a ≤ 0xDF ∧ 0x80 ≤ b := by
  simp only [isUtf8Two, isTail, Bool.and_eq_true, decide_eq_true_eq] at h
  exact ⟨h.1.1, h.1.2, h.2.1⟩

theorem isUtf8Three_bytes {a b c : UInt8} (h : isUtf8Three a b c = true) :
    0xE0 ≤ a ∧ a ≤ 0xEF ∧ 0x80 ≤ b ∧ 0x80 ≤ c := by
  simp only [isUtf8Three, isTail, Bool.and_eq_true, Bool.or_eq_true, decide_eq_true_eq, beq_iff_eq,
    UInt8.le_iff_toNat_le, ← UInt8.toNat_inj, UInt8.toNat_ofNat] at h ⊢
  omega

theorem isUtf8Four_bytes {a b c d : UInt8} (h : isUtf8Four a b c d = true) :
    0xF0 ≤ a ∧ 0x80 ≤ b ∧ 0x80 ≤ c ∧ 0x80 ≤ d := by
  simp only [isUtf8Four, isTail, Bool.and_eq_true, Bool.or_eq_true, decide_eq_true_eq, beq_iff_eq,
    UInt8.le_iff_toNat_le, ← UInt8.toNat_inj, UInt8.toNat_ofNat] at h ⊢
  omega

theorem isUtf8_two {a b : UInt8} (h : isUtf8Two a b = true) : isUtf8 [a, b] = true := by
  have ha : ¬ a < 0x80 := UInt8.not_lt.mpr (UInt8.le_trans (by decide) (isUtf8Two_bytes h).1)
  rw [isUtf8.eq_def]
  simp only [ha, h, ↓reduceIte]
  rfl

-- the first byte tells the number of bytes, so the shorter forms do not apply
theorem isUtf8_three {a b c : UInt8} (h : isUtf8Three a b c = true) : isUtf8 [a, b, c] = true := by
  have hb := (isUtf8Three_bytes h).1
  have ha : ¬ a < 0x80 := UInt8.not_lt.mpr (UInt8.le_trans (by decide) hb)
  have h₂ : ¬ isUtf8Two a b = true := fun h₂ =>
    absurd (UInt8.le_trans hb (isUtf8Two_bytes h₂).2.1) (by decide)
  rw [isUtf8.eq_def]
  simp only [ha, h, h₂, ↓reduceIte]
  rfl

theorem isUtf8_four {a b c d : UInt8} (h : isUtf8Four a b c d = true) :
    isUtf8 [a, b, c, d] = true := by
  have hb := (isUtf8Four_bytes h).1
  have ha : ¬ a < 0x80 := UInt8.not_lt.mpr (UInt8.le_trans (by decide) hb)
  have h₂ : ¬ isUtf8Two a b = true := fun h₂ =>
    absurd (UInt8.le_trans hb (isUtf8Two_bytes h₂).2.1) (by decide)
  have h₃ : ¬ isUtf8Three a b c = true := fun h₃ =>
    absurd (UInt8.le_trans hb (isUtf8Three_bytes h₃).2.1) (by decide)
  rw [isUtf8.eq_def]
  simp only [ha, h, h₂, h₃, ↓reduceIte]
  rfl

/-- Every byte is ASCII. -/
def IsAscii (bs : Bytes) : Prop := ∀ b ∈ bs, b < 0x80

instance (bs : Bytes) : Decidable (IsAscii bs) :=
  @List.decidableBAll _ (· < 0x80) (fun b => UInt8.decLt b 0x80) bs

theorem isUtf8_of_isAscii : ∀ {bs : Bytes}, IsAscii bs → isUtf8 bs = true
  | [], _ => rfl
  | b :: bs, h => by
    rw [isUtf8.eq_def]
    simp only [h b (by simp), ↓reduceIte]
    exact isUtf8_of_isAscii fun c hc => h c (by simp [hc])

theorem IsAscii.append {a b : Bytes} (ha : IsAscii a) (hb : IsAscii b) : IsAscii (a ++ b) := by
  intro x hx
  rcases List.mem_append.mp hx with h | h
  · exact ha x h
  · exact hb x h

theorem isUtf8_append {a : Bytes} (ha : isUtf8 a = true) (b : Bytes) :
    isUtf8 (a ++ b) = isUtf8 b := by
  fun_induction isUtf8 a with
  | case1 => rfl
  | case2 a rest h₁ ih =>
    rw [List.cons_append, isUtf8.eq_def]
    simp only [h₁, ↓reduceIte]
    exact ih ha
  | case4 a h₁ c rest h₂ ih =>
    rw [List.cons_append, List.cons_append, isUtf8.eq_def]
    simp only [h₁, h₂, ↓reduceIte]
    exact ih ha
  | case6 a h₁ c h₂ d rest h₃ ih =>
    rw [List.cons_append, List.cons_append, List.cons_append, isUtf8.eq_def]
    simp only [h₁, h₂, h₃, ↓reduceIte]
    exact ih ha
  | case8 a h₁ c h₂ d h₃ e rest ih =>
    obtain ⟨h₄, ha⟩ := Bool.and_eq_true_iff.mp ha
    rw [List.cons_append, List.cons_append, List.cons_append, List.cons_append, isUtf8.eq_def]
    simp only [h₁, h₂, h₃, h₄, ↓reduceIte]
    exact ih ha
  | case3 | case5 | case7 => cases ha

/-- One or more strings of a class, one after the other. -/
inductive Many (P : Bytes → Prop) : Bytes → Prop where
  | one {c : Bytes} : P c → Many P c
  | more {c s : Bytes} : P c → Many P s → Many P (c ++ s)

/-! ## Cutting -/

/-- Cut at the first occurrence of `sep`: what stands before it and after it. -/
def splitOnce (sep : UInt8) : Bytes → Option (Bytes × Bytes)
  | [] => none
  | b :: bs => if b = sep then some ([], bs) else (splitOnce sep bs).map fun p => (b :: p.1, p.2)

theorem splitOnce_append {sep : UInt8} : ∀ {a : Bytes}, sep ∉ a → ∀ rest,
    splitOnce sep (a ++ sep :: rest) = some (a, rest)
  | [], _, rest => by simp [splitOnce]
  | b :: a, h, rest => by
    simp only [List.mem_cons, not_or] at h
    rw [List.cons_append, splitOnce, if_neg (Ne.symm h.1), splitOnce_append h.2]; rfl

theorem splitOnce_eq_some {sep : UInt8} : ∀ {s a rest : Bytes}, splitOnce sep s = some (a, rest) →
    s = a ++ sep :: rest ∧ sep ∉ a
  | [], _, _, h => by cases h
  | b :: bs, a, rest, h => by
    rw [splitOnce] at h
    split at h
    · rename_i he
      cases h; subst he; simp
    · rename_i hne
      simp only [Option.map_eq_some_iff, Prod.exists, Prod.mk.injEq] at h
      obtain ⟨a', r', hs, rfl, rfl⟩ := h
      obtain ⟨rfl, hn⟩ := splitOnce_eq_some hs
      exact ⟨rfl, by simp [hn, Ne.symm hne]⟩

/-- Drop a prefix, if it is one. -/
def stripPrefix (pre s : Bytes) : Option Bytes :=
  if pre.isPrefixOf s then some (s.drop pre.length) else none

@[simp] theorem stripPrefix_append (pre s : Bytes) : stripPrefix pre (pre ++ s) = some s := by
  simp [stripPrefix]

theorem stripPrefix_eq_some {pre s v : Bytes} : stripPrefix pre s = some v ↔ s = pre ++ v := by
  constructor
  · intro h
    unfold stripPrefix at h
    split at h
    · rename_i hp
      obtain ⟨t, rfl⟩ := List.isPrefixOf_iff_prefix.mp hp
      cases h; simp
    · cases h
  · rintro rfl; exact stripPrefix_append _ _

/-- Cut at the last occurrence of `pat`: what stands before it and after it. -/
def rsplitOnce (pat : Bytes) : Bytes → Option (Bytes × Bytes)
  | [] => (stripPrefix pat []).map fun v => ([], v)
  | b :: bs =>
    match rsplitOnce pat bs with
    | some p => some (b :: p.1, p.2)
    | none => (stripPrefix pat (b :: bs)).map fun v => ([], v)

theorem rsplitOnce_eq_some {pat : Bytes} : ∀ {s a rest : Bytes},
    rsplitOnce pat s = some (a, rest) → s = a ++ pat ++ rest
  | [], a, rest, h => by
    simp only [rsplitOnce, Option.map_eq_some_iff, Prod.mk.injEq] at h
    obtain ⟨v, hv, rfl, rfl⟩ := h
    simpa using stripPrefix_eq_some.mp hv
  | b :: bs, a, rest, h => by
    rw [rsplitOnce] at h
    split at h
    · rename_i p hp
      cases h
      rw [rsplitOnce_eq_some hp]; rfl
    · simp only [Option.map_eq_some_iff, Prod.mk.injEq] at h
      obtain ⟨v, hv, rfl, rfl⟩ := h
      simpa using stripPrefix_eq_some.mp hv

/-- A pattern that starts with a byte the text has not does not occur in it. -/
theorem rsplitOnce_none {p : UInt8} {pat : Bytes} : ∀ {s : Bytes}, p ∉ s →
    rsplitOnce (p :: pat) s = none
  | [], _ => by simp [rsplitOnce, stripPrefix]
  | b :: bs, h => by
    simp only [List.mem_cons, not_or] at h
    rw [rsplitOnce, rsplitOnce_none h.2]
    simp [stripPrefix, h.1]

theorem rsplitOnce_append {p : UInt8} {pat : Bytes} : ∀ (a : Bytes) {rest : Bytes},
    p ∉ pat → p ∉ rest → rsplitOnce (p :: pat) (a ++ (p :: pat) ++ rest) = some (a, rest)
  | [], rest, hp, hr => by
    simp only [List.nil_append, List.cons_append]
    rw [rsplitOnce, rsplitOnce_none (by simp [hp, hr])]
    simp only
    rw [← List.cons_append, stripPrefix_append]; rfl
  | b :: a, rest, hp, hr => by
    have ih := rsplitOnce_append a hp hr
    simp only [List.cons_append] at ih ⊢
    rw [rsplitOnce, ih]

/-- The value of the first field of a comma-separated list that starts with `pre`. -/
def fieldOf (pre : Bytes) (s : Bytes) : Option Bytes := (s.splitOn 44).findSome? (stripPrefix pre)

theorem fieldOf_single {pre f : Bytes} (h : 44 ∉ f) : fieldOf pre f = stripPrefix pre f := by
  rw [fieldOf, List.splitOn_eq_singleton h, List.findSome?_singleton]

theorem fieldOf_cons {pre f : Bytes} (h : 44 ∉ f) (rest : Bytes) :
    fieldOf pre (f ++ 44 :: rest) = (stripPrefix pre f).or (fieldOf pre rest) := by
  rw [fieldOf, fieldOf, List.splitOn_append_cons_self_of_not_mem h, List.findSome?_cons]
  cases stripPrefix pre f <;> rfl

/-- The value of the last such field. -/
def lastFieldOf (pre : Bytes) (s : Bytes) : Option Bytes :=
  ((s.splitOn 44).filterMap (stripPrefix pre)).getLast?

/-- Fields joined with commas. -/
theorem intercalate_cons (f : Bytes) (fs : List Bytes) :
    [44].intercalate (f :: fs) = f ++ fs.flatMap (44 :: ·) := by
  induction fs generalizing f with
  | nil => simp
  | cons g fs ih =>
    rw [List.intercalate_cons_cons, ih]
    simp

/-! ## Characters and words -/

/-- The characters of UTF-8 text, each as its bytes: a byte and the continuation bytes after it. -/
def chars : Bytes → List Bytes
  | [] => []
  | b :: rest =>
    match chars rest with
    | (t :: c) :: cs => if isTail t then (b :: t :: c) :: cs else [b] :: (t :: c) :: cs
    | cs => [b] :: cs

/-- Text starts with a whole character. -/
def StartsWhole (bs : Bytes) : Prop := ∀ b ∈ bs.head?, isTail b = false

theorem startsWhole_of_isUtf8 {bs : Bytes} (h : isUtf8 bs = true) : StartsWhole bs := by
  intro b hb
  cases bs with
  | nil => cases hb
  | cons a rest =>
    obtain rfl : a = b := by simpa using hb
    by_contra ht
    simp only [isTail, Bool.not_eq_false, Bool.and_eq_true, decide_eq_true_eq] at ht
    have hlt : ∀ n : UInt8, 0xC2 ≤ n → ¬ n ≤ a := fun n hn hle =>
      absurd (UInt8.le_trans hn (UInt8.le_trans hle ht.2)) (by decide)
    have h₂ : ∀ b, ¬ isUtf8Two a b = true := fun b h => hlt _ (by decide) (isUtf8Two_bytes h).1
    have h₃ : ∀ b c, ¬ isUtf8Three a b c = true := fun b c h =>
      hlt _ (by decide) (isUtf8Three_bytes h).1
    have h₄ : ∀ b c d, ¬ isUtf8Four a b c d = true := fun b c d h =>
      hlt _ (by decide) (isUtf8Four_bytes h).1
    have h₁ : ¬ a < 0x80 := UInt8.not_lt.mpr ht.1
    match rest with
    | [] => simp [isUtf8.eq_def [a], h₁] at h
    | [b] => simp [isUtf8.eq_def [a, b], h₁, h₂] at h
    | [b, c] => simp [isUtf8.eq_def [a, b, c], h₁, h₂, h₃] at h
    | b :: c :: d :: rest => simp [isUtf8.eq_def (a :: b :: c :: d :: rest), h₁, h₂, h₃, h₄] at h

theorem chars_cons (b : UInt8) (bs : Bytes) : ∃ c cs, chars (b :: bs) = (b :: c) :: cs := by
  rw [chars]
  split
  · split
    · exact ⟨_, _, rfl⟩
    · exact ⟨_, _, rfl⟩
  · exact ⟨_, _, rfl⟩

theorem flatten_chars (bs : Bytes) : (chars bs).flatten = bs := by
  induction bs with
  | nil => rfl
  | cons b bs ih =>
    rw [chars]
    split
    · rename_i t c cs hc
      rw [hc] at ih
      split
      · simpa using ih
      · simpa using ih
    · simp [ih]

/-- A cut in front of a whole character. -/
theorem chars_append (a : Bytes) {b : Bytes} (hb : StartsWhole b) :
    chars (a ++ b) = chars a ++ chars b := by
  induction a with
  | nil => rfl
  | cons x a ih =>
    cases a with
    | nil =>
      cases b with
      | nil => simp [chars]
      | cons y b =>
        obtain ⟨c, cs, hc⟩ := chars_cons y b
        have hy : isTail y = false := hb y rfl
        rw [List.singleton_append, chars, hc]
        simp [hy, chars]
    | cons y a =>
      obtain ⟨c, cs, hc⟩ := chars_cons y a
      rw [hc] at ih
      rw [List.cons_append, chars, ih, chars, hc]
      simp only [List.cons_append]
      split <;> rfl

/-- A list of characters: each a byte with the continuation bytes after it, and each but the first
one whole. -/
def AreChars (cs : List Bytes) : Prop :=
  (∀ c ∈ cs, ∃ b t, c = b :: t ∧ ∀ x ∈ t, isTail x = true) ∧ ∀ c ∈ cs.tail, StartsWhole c

theorem areChars_chars (bs : Bytes) : AreChars (chars bs) := by
  induction bs with
  | nil => exact ⟨by rintro c ⟨⟩, by rintro c ⟨⟩⟩
  | cons b bs ih =>
    rw [chars]
    split
    · rename_i t c cs hc
      rw [hc] at ih
      obtain ⟨b', t', heq, htails⟩ := ih.1 _ List.mem_cons_self
      cases heq
      split
      · rename_i ht
        refine ⟨fun d hd => ?_, ih.2⟩
        rcases List.mem_cons.mp hd with rfl | hd
        · refine ⟨b, t :: c, rfl, fun x hx => ?_⟩
          rcases List.mem_cons.mp hx with rfl | hx
          · exact ht
          · exact htails x hx
        · exact ih.1 d (.tail _ hd)
      · rename_i ht
        refine ⟨fun d hd => ?_, fun d hd => ?_⟩
        · rcases List.mem_cons.mp hd with rfl | hd
          · exact ⟨b, [], rfl, by rintro x ⟨⟩⟩
          · exact ih.1 d hd
        · rcases List.mem_cons.mp hd with rfl | hd
          · rintro x hx
            cases hx
            exact eq_false_of_ne_true ht
          · exact ih.2 d hd
    · rename_i hne
      refine ⟨fun d hd => ?_, fun d hd => ?_⟩
      · rcases List.mem_cons.mp hd with rfl | hd
        · exact ⟨b, [], rfl, by rintro x ⟨⟩⟩
        · exact ih.1 d hd
      · cases hcs : chars bs with
        | nil =>
          rw [hcs] at hd
          cases hd
        | cons c cs =>
          obtain ⟨b', t', rfl, -⟩ := ih.1 c (by rw [hcs]; exact List.mem_cons_self)
          exact (hne b' t' cs hcs).elim

/-- What is cut out of a list of characters. -/
theorem AreChars.cut {as bs cs : List Bytes} (h : AreChars (as ++ bs ++ cs)) : AreChars bs := by
  refine ⟨fun c hc => h.1 c (by simp [hc]), fun c hc => ?_⟩
  cases as with
  | nil =>
    cases bs with
    | nil => cases hc
    | cons b bs => exact h.2 c (List.mem_append_left cs hc)
  | cons a as =>
    have hmem : c ∈ bs := List.mem_of_mem_tail hc
    exact h.2 c (by simp [hmem])

theorem chars_one {b : UInt8} : ∀ {t : Bytes}, (∀ x ∈ t, isTail x = true) → chars (b :: t) = [b :: t]
  | [], _ => rfl
  | x :: t, h => by
    have ih := chars_one (b := x) fun y hy => h y (.tail _ hy)
    rw [chars, ih]
    simp only [h x List.mem_cons_self, ↓reduceIte]

theorem chars_flatten {cs : List Bytes} (h : AreChars cs) : chars cs.flatten = cs := by
  induction cs with
  | nil => rfl
  | cons c cs ih =>
    obtain ⟨b, t, rfl, ht⟩ := h.1 c List.mem_cons_self
    have hrest : AreChars cs := ⟨fun d hd => h.1 d (.tail _ hd), fun d hd => h.2 d (List.mem_of_mem_tail hd)⟩
    have hwhole : StartsWhole cs.flatten := by
      cases cs with
      | nil => rintro x ⟨⟩
      | cons d ds =>
        obtain ⟨b', t', rfl, -⟩ := hrest.1 d List.mem_cons_self
        rintro x hx
        cases hx
        exact h.2 _ List.mem_cons_self b' rfl
    rw [List.flatten_cons, chars_append _ hwhole, ih hrest, chars_one ht]
    rfl

/-- The Unicode property `White_Space` of a character. -/
def isWhitespace : Bytes → Bool
  | [a] => (9 ≤ a && a ≤ 13) || a == 32
  | [a, b] => a == 0xC2 && (b == 0x85 || b == 0xA0)
  | [a, b, c] =>
    (a == 0xE1 && b == 0x9A && c == 0x80) ||
    (a == 0xE2 && b == 0x80 && ((0x80 ≤ c && c ≤ 0x8A) || c == 0xA8 || c == 0xA9 || c == 0xAF)) ||
    (a == 0xE2 && b == 0x81 && c == 0x9F) || (a == 0xE3 && b == 0x80 && c == 0x80)
  | _ => false

/-- `trim_end_matches`. -/
def trimEndMatches (p : Bytes → Bool) (cs : List Bytes) : List Bytes :=
  (cs.reverse.dropWhile p).reverse

/-- `trim`. -/
def trim (cs : List Bytes) : List Bytes := trimEndMatches isWhitespace (cs.dropWhile isWhitespace)

section

variable {p : Bytes → Bool}

theorem dropWhile_append_cons {m : Bytes} (hm : p m = false) (xs ys : List Bytes) :
    (xs ++ m :: ys).dropWhile p = xs.dropWhile p ++ m :: ys := by
  induction xs with
  | nil => simp [hm]
  | cons x xs ih =>
    rw [List.cons_append, List.dropWhile_cons, List.dropWhile_cons]
    split
    · exact ih
    · rfl

/-- What is kept starts with a character that does not match. -/
theorem dropWhile_head {c : Bytes} {xs ys : List Bytes} (h : xs.dropWhile p = c :: ys) :
    p c = false := by
  have hpos : 0 < (xs.dropWhile p).length := by rw [h]; simp
  simpa [h] using List.dropWhile_get_zero_not p xs hpos

/-- What stands before a character that is kept is kept. -/
theorem trimEndMatches_append_cons {m : Bytes} (hm : p m = false) (xs ys : List Bytes) :
    trimEndMatches p (xs ++ m :: ys) = xs ++ m :: trimEndMatches p ys := by
  have hrev : (xs ++ m :: ys).reverse = ys.reverse ++ m :: xs.reverse := by simp
  rw [trimEndMatches, hrev, dropWhile_append_cons hm, trimEndMatches]
  simp

theorem trimEndMatches_isPrefix (p : Bytes → Bool) (xs : List Bytes) : trimEndMatches p xs <+: xs := by
  have h := List.dropWhile_suffix p (l := xs.reverse)
  simpa [trimEndMatches] using List.reverse_prefix.mpr h

theorem trimEndMatches_eq_nil {xs : List Bytes} (h : ∀ c ∈ xs, p c = true) :
    trimEndMatches p xs = [] := by
  have hrev : xs.reverse.dropWhile p = [] := by
    rw [List.dropWhile_eq_nil_iff]
    exact fun c hc => h c (List.mem_reverse.mp hc)
  rw [trimEndMatches, hrev]
  rfl

end

/-- A trimmed text does not begin with white space, and neither does a beginning of it. -/
theorem dropWhile_trim {xs ys : List Bytes} (h : ys <+: trim xs) : ys.dropWhile isWhitespace = ys := by
  cases ys with
  | nil => rfl
  | cons c ds =>
    obtain ⟨rest, hrest⟩ := h.trans (trimEndMatches_isPrefix isWhitespace (xs.dropWhile isWhitespace))
    rw [List.dropWhile_cons, dropWhile_head hrest.symm]
    rfl

/-- The first word of `split_whitespace`, empty if there is none. -/
def firstWord (cs : List Bytes) : Bytes :=
  ((cs.dropWhile isWhitespace).takeWhile fun c => !isWhitespace c).flatten

/-- `to_ascii_uppercase`. -/
def toAsciiUppercase (bs : Bytes) : Bytes := bs.map fun b => if 97 ≤ b && b ≤ 122 then b - 32 else b

/-! ## Unsigned 32-bit numbers -/

/-- The decimal digits of a number. -/
def decimal (n : Nat) : Bytes :=
  if n = 0 then [48] else (Nat.digits 10 n).reverse.map fun d => UInt8.ofNat (48 + d)

def isDigit (b : UInt8) : Bool := 48 ≤ b && b ≤ 57

/-- `u32::from_str`: an optional plus sign and at least one digit, below `2 ^ 32`. -/
def parseU32 (s : Bytes) : Option UInt32 :=
  let digits := (stripPrefix [43] s).getD s
  let n := digits.foldl (fun n d => n * 10 + (d.toNat - 48)) 0
  if digits ≠ [] ∧ digits.all isDigit ∧ n < 2 ^ 32 then some (UInt32.ofNat n) else none

theorem decimal_digit (n : Nat) : ∀ b ∈ decimal n, isDigit b = true := by
  intro b hb
  unfold decimal at hb
  split at hb
  · obtain rfl : b = 48 := by simpa using hb
    decide
  · simp only [List.mem_map, List.mem_reverse] at hb
    obtain ⟨d, hd, rfl⟩ := hb
    have := Nat.digits_lt_base (by norm_num) hd
    interval_cases d <;> decide

theorem decimal_ne_nil (n : Nat) : decimal n ≠ [] := by
  unfold decimal
  split
  · simp
  · rename_i h
    simpa [Nat.digits_eq_nil_iff_eq_zero] using h

theorem foldl_decimal (n : Nat) :
    (decimal n).foldl (fun n d => n * 10 + (d.toNat - 48)) 0 = n := by
  unfold decimal
  split
  · rename_i h; subst h; rfl
  · conv_rhs => rw [← Nat.ofDigits_digits 10 n]
    have hlt : ∀ d ∈ Nat.digits 10 n, d < 10 := fun d hd => Nat.digits_lt_base (by norm_num) hd
    generalize Nat.digits 10 n = ds at hlt
    induction ds with
    | nil => rfl
    | cons d ds ih =>
      have hd := hlt d (by simp)
      rw [List.reverse_cons, List.map_append, List.foldl_append,
        ih fun d hd => hlt d (by simp [hd]), Nat.ofDigits_cons]
      simp only [List.map_cons, List.map_nil, List.foldl_cons, List.foldl_nil, UInt8.toNat_ofNat']
      omega

/-- Printing a number and reading it back. -/
theorem parseU32_decimal (n : UInt32) : parseU32 (decimal n.toNat) = some n := by
  have hplus : stripPrefix [43] (decimal n.toNat) = none := by
    cases hd : decimal n.toNat with
    | nil => rfl
    | cons b bs =>
      have hb := decimal_digit n.toNat b (by simp [hd])
      have : (43 : UInt8) ≠ b := by rintro rfl; revert hb; decide
      simp [stripPrefix, this]
  unfold parseU32
  rw [hplus, Option.getD_none]
  simp only [foldl_decimal]
  rw [if_pos ⟨decimal_ne_nil _, List.all_eq_true.mpr (decimal_digit _), n.toNat_lt⟩]
  simp

/-- `from_str` of an unsigned type with this many values. -/
def parseBelow (bound : Nat) (s : Bytes) : Option Nat :=
  let digits := (stripPrefix [43] s).getD s
  let n := digits.foldl (fun n d => n * 10 + (d.toNat - 48)) 0
  if digits ≠ [] ∧ digits.all isDigit ∧ n < bound then some n else none

theorem stripPrefix_plus_decimal (n : Nat) : stripPrefix [43] (decimal n) = none := by
  cases hd : decimal n with
  | nil => rfl
  | cons b bs =>
    have hb := decimal_digit n b (by simp [hd])
    have hne : (43 : UInt8) ≠ b := by rintro rfl; revert hb; decide
    simp [stripPrefix, hne]

theorem parseBelow_decimal {bound n : Nat} (h : n < bound) : parseBelow bound (decimal n) = some n := by
  unfold parseBelow
  rw [stripPrefix_plus_decimal, Option.getD_none]
  simp only [foldl_decimal]
  rw [if_pos ⟨decimal_ne_nil _, List.all_eq_true.mpr (decimal_digit _), h⟩]

theorem length_decimal {n k : Nat} (hk : 0 < k) (h : n < 10 ^ k) : (decimal n).length ≤ k := by
  unfold decimal
  split
  · exact hk
  · rw [List.length_map, List.length_reverse]
    exact (Nat.digits_length_le_iff (by omega) n).mpr h

end RamaPg.Lib
