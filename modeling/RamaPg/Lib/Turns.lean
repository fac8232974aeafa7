import Mathlib.Data.Int.CardIntervalMod
import Mathlib.Data.List.Rotate

/-!
# Taking turns

A list whose members are served in turn by a counter that wraps around at `wrap`. Between two wraps
any stretch as long as the list is a rotation of it (`turns_window`); over any number of turns two
members are served equally often up to one turn for each wrap, and one more (`turns_fair`).
-/

namespace RamaPg.Lib

variable {α : Type}

/-- Whose turn it is when the counter has been read `i` times. -/
def turn (xs : List α) (wrap i : Nat) : Option α := xs[i % wrap % xs.length]?

/-- The first `n` turns. -/
def turns (xs : List α) (wrap n : Nat) : List α := (List.range n).filterMap (turn xs wrap)

variable {xs : List α} {wrap n : Nat} {a b : α}

@[simp] theorem turns_zero : turns xs wrap 0 = [] := rfl

theorem turns_succ (h : turn xs wrap n = some a) : turns xs wrap (n + 1) = turns xs wrap n ++ [a] := by
  rw [turns, List.range_succ, List.filterMap_append, ← turns, List.filterMap_cons_some h,
    List.filterMap_nil]

theorem turn_isSome (h : xs ≠ []) (i : Nat) : ∃ a, turn xs wrap i = some a := by
  have hlt : i % wrap % xs.length < xs.length := Nat.mod_lt _ (List.length_pos_iff.mpr h)
  exact ⟨_, List.getElem?_eq_getElem hlt⟩

theorem getElem?_turns (h : xs ≠ []) {i : Nat} (hi : i < n) : (turns xs wrap n)[i]? = turn xs wrap i := by
  induction n with
  | zero => omega
  | succ n ih =>
    obtain ⟨a, ha⟩ := @turn_isSome α xs wrap h n
    have hlen : ∀ m, (turns xs wrap m).length = m := by
      intro m
      induction m with
      | zero => rfl
      | succ m ihm =>
        obtain ⟨b, hb⟩ := @turn_isSome α xs wrap h m
        rw [turns_succ hb, List.length_append, ihm]
        rfl
    rw [turns_succ ha]
    by_cases hlt : i < n
    · rw [List.getElem?_append_left (by rw [hlen]; exact hlt)]
      exact ih hlt
    · obtain rfl : i = n := by omega
      rw [List.getElem?_append_right (by rw [hlen]), hlen, Nat.sub_self, ha]
      rfl

/-- Away from a wrap, every stretch as long as the list serves each place of it once. -/
theorem turns_window (h : xs ≠ []) {i : Nat} (hn : i + xs.length ≤ n)
    (hw : i % wrap + xs.length ≤ wrap) :
    ((turns xs wrap n).drop i).take xs.length = xs.rotate (i % wrap) := by
  apply List.ext_getElem?
  intro k
  by_cases hk : k < xs.length
  · have hmod : (i + k) % wrap = i % wrap + k := by
      rw [Nat.add_mod, Nat.mod_eq_of_lt (show k < wrap by omega), Nat.mod_eq_of_lt (by omega)]
    rw [List.getElem?_take_of_lt hk, List.getElem?_drop, getElem?_turns h (by omega), turn, hmod,
      List.getElem?_rotate hk, Nat.add_comm k]
  · rw [List.getElem?_eq_none (by rw [List.length_take]; omega),
      List.getElem?_eq_none (by rw [List.length_rotate]; omega)]

/-! ## Counting -/

theorem count_turns [BEq α] [LawfulBEq α] (hx : xs.Nodup) {j : Nat} (hj : xs[j]? = some a) (n : Nat) :
    (turns xs wrap n).count a = Nat.count (fun i => i % wrap % xs.length = j) n := by
  obtain ⟨hlt, hget⟩ := List.getElem?_eq_some_iff.mp hj
  have hne : xs ≠ [] := List.ne_nil_of_length_pos (by omega)
  induction n with
  | zero => rfl
  | succ n ih =>
    obtain ⟨b, hb⟩ := @turn_isSome α xs wrap hne n
    have hlt' : n % wrap % xs.length < xs.length := Nat.mod_lt _ (List.length_pos_iff.mpr hne)
    have hget' : xs[n % wrap % xs.length] = b := by
      rw [turn, List.getElem?_eq_getElem hlt'] at hb
      exact Option.some.inj hb
    rw [turns_succ hb, List.count_append, ih, Nat.count_succ, List.count_singleton]
    congr 1
    have hiff : b = a ↔ n % wrap % xs.length = j := by
      rw [← hget', ← hget]
      exact hx.getElem_inj_iff
    by_cases he : b = a
    · rw [if_pos (hiff.mp he), if_pos (by simpa using he)]
    · rw [if_neg (fun h => he (hiff.mpr h)), if_neg (by simpa using he)]

theorem count_congr {p q : Nat → Prop} [DecidablePred p] [DecidablePred q] {n : Nat}
    (h : ∀ i < n, p i ↔ q i) : Nat.count p n = Nat.count q n :=
  Nat.le_antisymm (Nat.count_mono_left fun i hi => (h i hi).mp)
    (Nat.count_mono_left fun i hi => (h i hi).mpr)

/-- How often a residue comes up among the first `m` numbers. -/
theorem count_residue {k j : Nat} (hk : 0 < k) (hj : j < k) (m : Nat) :
    Nat.count (fun i => i % k = j) m = m / k + if j < m % k then 1 else 0 := by
  have h := Nat.count_modEq_card m hk j
  rw [Nat.mod_eq_of_lt hj] at h
  rw [← h]
  apply count_congr
  intro i _
  rw [Nat.ModEq, Nat.mod_eq_of_lt hj]

/-- A counter that wraps around starts anew each time. -/
theorem count_wrapped (k j : Nat) {r : Nat} (hr : r ≤ wrap) (q : Nat) :
    Nat.count (fun i => i % wrap % k = j) (wrap * q + r) =
      q * Nat.count (fun i => i % k = j) wrap + Nat.count (fun i => i % k = j) r := by
  have hone : ∀ m ≤ wrap, Nat.count (fun i => i % wrap % k = j) m =
      Nat.count (fun i => i % k = j) m := by
    intro m hm
    apply count_congr
    intro i hi
    rw [Nat.mod_eq_of_lt (show i < wrap by omega)]
  induction q with
  | zero => rw [Nat.mul_zero, Nat.zero_add, hone r hr, Nat.zero_mul, Nat.zero_add]
  | succ q ih =>
    have hsplit : wrap * (q + 1) + r = wrap + (wrap * q + r) := by
      rw [Nat.mul_succ]
      omega
    have hrest : Nat.count (fun i => (wrap + i) % wrap % k = j) (wrap * q + r) =
        Nat.count (fun i => i % wrap % k = j) (wrap * q + r) := by
      apply count_congr
      intro i _
      rw [Nat.add_mod_left]
    rw [hsplit, Nat.count_add, hone wrap (Nat.le_refl _), hrest, ih, Nat.succ_mul]
    omega

/-- **Turns are fair.** Two members have been served equally often, up to one turn for each time the
counter has wrapped around and one more. -/
theorem turns_fair [BEq α] [LawfulBEq α] (hx : xs.Nodup) (hw : 0 < wrap) (ha : a ∈ xs) (hb : b ∈ xs)
    (n : Nat) :
    (turns xs wrap n).count a ≤ (turns xs wrap n).count b + n / wrap + 1 := by
  obtain ⟨i, hi, rfl⟩ := List.mem_iff_getElem.mp ha
  obtain ⟨j, hj, rfl⟩ := List.mem_iff_getElem.mp hb
  have hk : 0 < xs.length := by omega
  have hcount : ∀ l (hl : l < xs.length), (turns xs wrap n).count xs[l] =
      n / wrap * Nat.count (fun i => i % xs.length = l) wrap +
        Nat.count (fun i => i % xs.length = l) (n % wrap) := by
    intro l hl
    rw [count_turns hx (List.getElem?_eq_getElem hl),
      ← count_wrapped xs.length l (Nat.le_of_lt (Nat.mod_lt n hw)), Nat.div_add_mod]
  have hnear : ∀ m, Nat.count (fun l => l % xs.length = i) m ≤
      Nat.count (fun l => l % xs.length = j) m + 1 := by
    intro m
    rw [count_residue hk hi, count_residue hk hj]
    split <;> split <;> omega
  rw [hcount i hi, hcount j hj]
  have hwraps := Nat.mul_le_mul_left (n / wrap) (hnear wrap)
  have hlast := hnear (n % wrap)
  rw [Nat.mul_add, Nat.mul_one] at hwraps
  omega

end RamaPg.Lib
