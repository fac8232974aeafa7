import Mathlib.Data.List.Nodup
import Mathlib.Data.List.Perm.Subperm
import Mathlib.Logic.Function.Basic

/-!
# Rosters

A list kept beside a partial map, with one entry for each key of the map. `Roster f es` says that
`es` lists what `f` maps its keys to, each key once, in some order. The rules are those of the three
ways it is kept so: a key that is new is appended, a key that goes is filtered out by a test that
tells its entry from the others, and a map that changes elsewhere is none of its business.
-/

namespace RamaPg.Lib

variable {κ ε : Type}

/-- The entries of a partial map, each key once. -/
def Roster (f : κ → Option ε) (es : List ε) : Prop :=
  ∃ live : List κ, live.Nodup ∧ (∀ k, k ∈ live ↔ (f k).isSome) ∧ es.map some = live.map f

namespace Roster

variable {f g : κ → Option ε} {es : List ε} {k : κ} {e : ε}

theorem nil (h : ∀ k, f k = none) : Roster f [] :=
  ⟨[], List.nodup_nil, fun k => by simp [h k], rfl⟩

theorem congr (h : Roster f es) (hg : ∀ k, g k = f k) : Roster g es := by
  obtain rfl : g = f := funext hg
  exact h

theorem push [DecidableEq κ] (h : Roster f es) (hk : f k = none) :
    Roster (Function.update f k (some e)) (es ++ [e]) := by
  obtain ⟨live, hnodup, hmem, hes⟩ := h
  have hnot : k ∉ live := fun hin => by
    have := (hmem k).mp hin
    rw [hk] at this
    cases this
  refine ⟨live ++ [k], ?_, fun k' => ?_, ?_⟩
  · exact List.nodup_append.mpr ⟨hnodup, List.nodup_singleton k, by
      rintro a ha b hb rfl
      obtain rfl := List.mem_singleton.mp hb
      exact hnot ha⟩
  · by_cases hkk : k' = k
    · subst hkk
      simp
    · rw [Function.update_of_ne hkk, ← hmem k', List.mem_append, List.mem_singleton]
      exact or_iff_left hkk
  · rw [List.map_append, List.map_append, hes]
    congr 1
    · refine List.map_congr_left fun k' hk' => ?_
      have hne : k' ≠ k := by rintro rfl; exact hnot hk'
      rw [Function.update_of_ne hne]
    · simp

/-- Filtering by a test and by the keys whose entries pass it. -/
theorem filter_map_some {p : ε → Bool} {q : κ → Bool} : ∀ {live : List κ} {es : List ε},
    es.map some = live.map f → (∀ k ∈ live, ∀ e, f k = some e → p e = q k) →
    (es.filter p).map some = (live.filter q).map f
  | [], [], _, _ => rfl
  | [], _ :: _, h, _ => by cases h
  | _ :: _, [], h, _ => by cases h
  | k :: live, e :: es, h, hpq => by
    simp only [List.map_cons, List.cons.injEq] at h
    have ih := filter_map_some h.2 fun k' hk' => hpq k' (.tail _ hk')
    have hk := hpq k List.mem_cons_self e h.1.symm
    rw [List.filter_cons, List.filter_cons, hk]
    split
    · rw [List.map_cons, List.map_cons, ih, h.1]
    · exact ih

theorem retain [DecidableEq κ] {p : ε → Bool} (h : Roster f es)
    (hp : ∀ k' e, f k' = some e → (p e = true ↔ k' ≠ k)) :
    Roster (Function.update f k none) (es.filter p) := by
  obtain ⟨live, hnodup, hmem, hes⟩ := h
  refine ⟨live.filter (· ≠ k), hnodup.filter _, fun k' => ?_, ?_⟩
  · by_cases hkk : k' = k
    · subst hkk
      simp
    · rw [Function.update_of_ne hkk, ← hmem k']
      simp [hkk]
  · rw [filter_map_some (q := fun k' => decide (k' ≠ k)) hes fun k' _ e he => ?_]
    · refine List.map_congr_left fun k' hk' => ?_
      rw [Function.update_of_ne (by simpa using (List.mem_filter.mp hk').2)]
    · rw [Bool.eq_iff_iff, hp k' e he, decide_eq_true_iff]

/-- A map of which one key is taken away has a roster too, and no longer one. -/
theorem drop [DecidableEq κ] (h : Roster f es) (k : κ) :
    ∃ es', Roster (Function.update f k none) es' ∧ es'.length ≤ es.length := by
  obtain ⟨live, hnodup, hmem, hes⟩ := h
  have hall : ∀ {l : List κ}, (∀ k' ∈ l, (f k').isSome) → (l.filterMap f).map some = l.map f := by
    intro l hl
    induction l with
    | nil => rfl
    | cons k' l ih =>
      obtain ⟨e, he⟩ := Option.isSome_iff_exists.mp (hl k' List.mem_cons_self)
      rw [List.filterMap_cons_some he, List.map_cons, List.map_cons, he,
        ih fun k'' hk'' => hl k'' (.tail _ hk'')]
  have hlive : ∀ k' ∈ live.filter (· ≠ k), (f k').isSome := fun k' hk' =>
    (hmem k').mp (List.mem_of_mem_filter hk')
  refine ⟨(live.filter (· ≠ k)).filterMap f, ⟨live.filter (· ≠ k), hnodup.filter _, fun k' => ?_, ?_⟩, ?_⟩
  · by_cases hkk : k' = k
    · subst hkk
      simp
    · rw [Function.update_of_ne hkk, ← hmem k']
      simp [hkk]
  · rw [hall hlive]
    refine List.map_congr_left fun k' hk' => ?_
    rw [Function.update_of_ne (by simpa using (List.mem_filter.mp hk').2)]
  · have hl : es.length = live.length := by simpa using congrArg List.length hes
    have hle := List.length_filterMap_le f (live.filter (· ≠ k))
    have hle' := List.length_filter_le (fun k' => decide (k' ≠ k)) live
    omega

/-- A map with fewer keys has the shorter roster. -/
theorem length_le {ε' : Type} {g : κ → Option ε'} {es' : List ε'} (h : Roster f es)
    (h' : Roster g es') (hfg : ∀ k, (f k).isSome → (g k).isSome) : es.length ≤ es'.length := by
  obtain ⟨live, hnodup, hmem, hes⟩ := h
  obtain ⟨live', -, hmem', hes'⟩ := h'
  have hsub : live ⊆ live' := fun k hk => (hmem' k).mpr (hfg k ((hmem k).mp hk))
  have hle := (hnodup.subperm hsub).length_le
  have hl : es.length = live.length := by simpa using congrArg List.length hes
  have hl' : es'.length = live'.length := by simpa using congrArg List.length hes'
  omega

theorem mem_iff (h : Roster f es) : e ∈ es ↔ ∃ k, f k = some e := by
  obtain ⟨live, -, hmem, hes⟩ := h
  have hin : e ∈ es ↔ some e ∈ es.map some := by simp
  rw [hin, hes, List.mem_map]
  constructor
  · rintro ⟨k, -, hk⟩
    exact ⟨k, hk⟩
  · rintro ⟨k, hk⟩
    exact ⟨k, (hmem k).mpr (by rw [hk]; rfl), hk⟩

end Roster

end RamaPg.Lib
