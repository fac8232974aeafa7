import RamaPg.Lib.Text
import Mathlib.Data.List.DropRight

/-!
# White space around a text

Texts as lists of characters. `Spaces` is a text of white space only, `Trimmed` one with none at its
ends: every text is its trimmed form between two runs of white space. `splitOnceAt` cuts a text at the
first occurrence of a character.
-/

namespace RamaPg.Lib

/-- A text, as its characters. -/
abbrev Str := List Bytes

/-- White space only. -/
def Spaces (s : Str) : Prop := ∀ c ∈ s, isWhitespace c = true

/-- No white space at either end. -/
def Trimmed (s : Str) : Prop := ∀ c, s.head? = some c ∨ s.getLast? = some c → isWhitespace c = false

section

variable {a b s : Str}

theorem Spaces.cons {c : Bytes} (hc : isWhitespace c = true) (h : Spaces s) : Spaces (c :: s) := by
  intro d hd
  rcases List.mem_cons.mp hd with rfl | hd
  · exact hc
  · exact h d hd

theorem spaces_takeWhile (s : Str) : Spaces (s.takeWhile isWhitespace) := fun _ hc =>
  List.mem_takeWhile_imp hc

theorem trim_left (ha : Spaces a) : trim (a ++ s) = trim s := by
  rw [trim, List.dropWhile_append_of_pos ha, trim]

theorem trim_right (hb : Spaces b) : trim (s ++ b) = trim s := by
  rw [trim, trim, List.dropWhile_append]
  split
  · rename_i hs
    rw [List.isEmpty_iff.mp hs, List.dropWhile_eq_nil_iff.mpr hb]
  · rw [trimEndMatches, List.reverse_append,
      List.dropWhile_append_of_pos fun c hc => hb c (List.mem_reverse.mp hc), trimEndMatches]

/-- White space around a text is trimmed away. -/
theorem trim_pad (ha : Spaces a) (hb : Spaces b) : trim (a ++ s ++ b) = trim s := by
  rw [trim_right hb, trim_left ha]

theorem trim_spaces (h : Spaces s) : trim s = [] := by
  rw [← List.append_nil s, trim_left h]
  rfl

/-- A text with nothing to trim is left alone. -/
theorem Trimmed.trim_eq (h : Trimmed s) : trim s = s := by
  rcases List.eq_nil_or_concat s with rfl | ⟨init, m, rfl⟩
  · rfl
  rw [List.concat_eq_append] at h ⊢
  have hlast : isWhitespace m = false := h m (.inr List.getLast?_concat)
  have hfront : (init ++ [m]).dropWhile isWhitespace = init ++ [m] := by
    cases init with
    | nil => rw [List.nil_append, List.dropWhile_cons, hlast]; rfl
    | cons c init => rw [List.cons_append, List.dropWhile_cons, h c (.inl rfl)]; rfl
  rw [trim, hfront, trimEndMatches_append_cons hlast]
  rfl

theorem trim_trimmed (s : Str) : Trimmed (trim s) := by
  rintro c (hc | hc)
  · obtain ⟨rest, hrest⟩ := trimEndMatches_isPrefix isWhitespace (s.dropWhile isWhitespace)
    obtain ⟨t, ht⟩ := List.head?_eq_some_iff.mp hc
    rw [trim] at ht
    rw [ht, List.cons_append] at hrest
    exact dropWhile_head hrest.symm
  · rw [trim, trimEndMatches, List.getLast?_reverse] at hc
    obtain ⟨t, ht⟩ := List.head?_eq_some_iff.mp hc
    exact dropWhile_head ht

/-- Every text is its trimmed form with white space around it. -/
theorem trim_split (s : Str) : ∃ a b, Spaces a ∧ Spaces b ∧ s = a ++ trim s ++ b := by
  let d := s.dropWhile isWhitespace
  refine ⟨s.takeWhile isWhitespace, (d.reverse.takeWhile isWhitespace).reverse, spaces_takeWhile s,
    fun c hc => spaces_takeWhile _ c (List.mem_reverse.mp hc), ?_⟩
  have hd : trim s ++ (d.reverse.takeWhile isWhitespace).reverse = d := by
    rw [trim, trimEndMatches, ← List.reverse_append, List.takeWhile_append_dropWhile,
      List.reverse_reverse]
  rw [List.append_assoc, hd, List.takeWhile_append_dropWhile]

theorem trim_eq_nil : trim s = [] ↔ Spaces s := by
  refine ⟨fun h => ?_, trim_spaces⟩
  obtain ⟨a, b, ha, hb, hs⟩ := trim_split s
  rw [h, List.append_nil] at hs
  rw [hs]
  intro c hc
  rcases List.mem_append.mp hc with hc | hc
  · exact ha c hc
  · exact hb c hc

theorem trim_dropWhile (s : Str) : trim (s.dropWhile isWhitespace) = trim s := by
  rw [trim, List.dropWhile_idempotent, trim]

theorem trim_trimEnd (s : Str) : trim (trimEndMatches isWhitespace s) = trim s := by
  have hb : Spaces (s.reverse.takeWhile isWhitespace).reverse := fun c hc =>
    spaces_takeWhile _ c (List.mem_reverse.mp hc)
  have hs : trimEndMatches isWhitespace s ++ (s.reverse.takeWhile isWhitespace).reverse = s := by
    rw [trimEndMatches, ← List.reverse_append, List.takeWhile_append_dropWhile, List.reverse_reverse]
  rw [← @trim_right _ (trimEndMatches isWhitespace s) hb, hs]

/-- A character that is kept parts what is trimmed before it from what is trimmed behind it. -/
theorem trim_append_cons {m : Bytes} (hm : isWhitespace m = false) (xs ys : Str) :
    trim (xs ++ m :: ys) = xs.dropWhile isWhitespace ++ m :: trimEndMatches isWhitespace ys := by
  rw [trim, dropWhile_append_cons hm, trimEndMatches_append_cons hm]

theorem mem_trim {c : Bytes} (h : c ∈ trim s) : c ∈ s :=
  (List.dropWhile_suffix _).mem ((trimEndMatches_isPrefix _ _).mem h)

end

/-! ## Cutting at a character -/

/-- `split_once` at a character. -/
def splitOnceAt (sep : Bytes) (s : Str) : Option (Str × Str) :=
  match s.dropWhile (· ≠ sep) with
  | [] => none
  | _ :: after => some (s.takeWhile (· ≠ sep), after)

section

variable {sep : Bytes} {a b s : Str}

theorem splitOnceAt_append (h : sep ∉ a) (b : Str) : splitOnceAt sep (a ++ sep :: b) = some (a, b) := by
  have hp : ∀ c ∈ a, decide (c ≠ sep) = true := fun c hc =>
    decide_eq_true fun he => h (he ▸ hc)
  unfold splitOnceAt
  rw [List.dropWhile_append_of_pos hp, List.takeWhile_append_of_pos hp]
  simp

theorem splitOnceAt_none (h : sep ∉ s) : splitOnceAt sep s = none := by
  have hp : s.dropWhile (· ≠ sep) = [] :=
    List.dropWhile_eq_nil_iff.mpr fun c hc => decide_eq_true fun he => h (he ▸ hc)
  rw [splitOnceAt, hp]

theorem splitOnceAt_eq_some (h : splitOnceAt sep s = some (a, b)) : s = a ++ sep :: b ∧ sep ∉ a := by
  by_cases hmem : sep ∈ s
  · obtain ⟨a', b', rfl, hno⟩ := List.eq_append_cons_of_mem hmem
    rw [splitOnceAt_append hno] at h
    cases h
    exact ⟨rfl, hno⟩
  · rw [splitOnceAt_none hmem] at h
    cases h

end

end RamaPg.Lib
