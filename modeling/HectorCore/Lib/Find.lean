import Mathlib.Data.List.Basic

/-!
# Find — searching in a buffer that grows

The first position of a pattern in a list, from a position on. What is found in a prefix of a
list is what is found in the list, if it lies within the prefix: the search in a buffer that is
still being filled does not depend on how far it has been filled, except that the last
occurrences may not have arrived.

* `find_eq_some_iff`      — the first position;
* `find_take_eq_some_iff` — the search in a prefix;
* `substr_take`           — a part of a prefix;
* `Replaces`              — occurrences replaced from left to right, as a relation.
-/

namespace HectorCore.Lib

variable {α : Type} [DecidableEq α]

/-- `pat` is in `s` at position `p`. -/
def OccursAt (s pat : List α) (p : Nat) : Prop := pat <+: s.drop p

instance (s pat : List α) (p : Nat) : Decidable (OccursAt s pat p) :=
  inferInstanceAs (Decidable (pat <+: s.drop p))

/-- The first position of `pat` in `s`, from position `start` on. -/
def find (s pat : List α) (start : Nat) : Option Nat :=
  (List.range s.length).find? fun p => decide (start ≤ p ∧ OccursAt s pat p)

/-- At most `n` elements of `s`, from position `pos` on. -/
def substr (s : List α) (pos n : Nat) : List α := (s.drop pos).take n

variable {s pat : List α} {start p q m : Nat}

omit [DecidableEq α] in
theorem OccursAt.le (h : OccursAt s pat p) : p + pat.length ≤ s.length ∨ pat = [] := by
  have hLength := h.length_le
  rw [List.length_drop] at hLength
  by_cases hEmpty : pat = []
  · exact .inr hEmpty
  · have := List.length_pos_of_ne_nil hEmpty
    exact .inl (by omega)

omit [DecidableEq α] in
/-- The elements of an occurrence. -/
theorem OccursAt.getElem? (h : OccursAt s pat p) {i : Nat} (hi : i < pat.length) :
    s[p + i]? = pat[i]? := by
  obtain ⟨rest, hRest⟩ := h
  rw [← List.getElem?_drop, ← hRest, List.getElem?_append_left hi]

omit [DecidableEq α] in
/-- An occurrence of a single element. -/
theorem occursAt_singleton {x : α} : OccursAt s [x] p ↔ s[p]? = some x := by
  constructor
  · intro h
    have hHead := h.getElem? (i := 0) (by simp)
    simpa using hHead
  · intro h
    obtain ⟨hLt, rfl⟩ := List.getElem?_eq_some_iff.mp h
    exact ⟨s.drop (p + 1), (List.drop_eq_getElem_cons hLt).symm⟩

theorem find_eq_some_iff (hPat : pat ≠ []) :
    find s pat start = some p ↔
      start ≤ p ∧ OccursAt s pat p ∧ ∀ q, start ≤ q → q < p → ¬ OccursAt s pat q := by
  unfold find
  rw [List.find?_range_eq_some]
  simp only [decide_eq_true_eq, List.mem_range, Bool.not_eq_true', decide_eq_false_iff_not, not_and]
  constructor
  · rintro ⟨⟨hStart, hHere⟩, -, hBefore⟩
    exact ⟨hStart, hHere, fun q hq hLt => hBefore q hLt hq⟩
  · rintro ⟨hStart, hHere, hBefore⟩
    have hPos := List.length_pos_of_ne_nil hPat
    have hLe := hHere.le.resolve_right hPat
    exact ⟨⟨hStart, hHere⟩, by omega, fun q hLt hq => hBefore q hq hLt⟩

/-- Whatever occurs is found, not behind it. -/
theorem exists_find (hPat : pat ≠ []) (hStart : start ≤ q) (h : OccursAt s pat q) :
    ∃ p, find s pat start = some p ∧ p ≤ q := by
  cases hFind : find s pat start with
  | none =>
    have hLe := h.le.resolve_right hPat
    have hPos := List.length_pos_of_ne_nil hPat
    have hNone := List.find?_range_eq_none.mp hFind q (by omega)
    simp only [Bool.not_eq_true', decide_eq_false_iff_not, not_and] at hNone
    exact absurd h (hNone hStart)
  | some p =>
    refine ⟨p, rfl, ?_⟩
    by_contra hLt
    exact ((find_eq_some_iff hPat).mp hFind).2.2 q hStart (by omega) h

omit [DecidableEq α] in
theorem occursAt_take_iff (hPat : pat ≠ []) :
    OccursAt (s.take m) pat p ↔ OccursAt s pat p ∧ p + pat.length ≤ m := by
  have hPos := List.length_pos_of_ne_nil hPat
  unfold OccursAt
  rw [List.drop_take, List.prefix_take_iff]
  refine and_congr_right fun _ => ⟨fun h => by omega, fun h => by omega⟩

/-- **The search in a prefix.** -/
theorem find_take_eq_some_iff (hPat : pat ≠ []) :
    find (s.take m) pat start = some p ↔ find s pat start = some p ∧ p + pat.length ≤ m := by
  rw [find_eq_some_iff hPat, find_eq_some_iff hPat]
  constructor
  · rintro ⟨hStart, hHere, hBefore⟩
    obtain ⟨hOccurs, hLe⟩ := (occursAt_take_iff hPat).mp hHere
    refine ⟨⟨hStart, hOccurs, fun q hq hLt hThere => ?_⟩, hLe⟩
    exact hBefore q hq hLt ((occursAt_take_iff hPat).mpr ⟨hThere, by omega⟩)
  · rintro ⟨⟨hStart, hOccurs, hBefore⟩, hLe⟩
    refine ⟨hStart, (occursAt_take_iff hPat).mpr ⟨hOccurs, hLe⟩, fun q hq hLt hThere => ?_⟩
    exact hBefore q hq hLt ((occursAt_take_iff hPat).mp hThere).1

/-- Nothing is found in a prefix that ends before the first occurrence does. -/
theorem find_take_eq_none_iff (hPat : pat ≠ []) :
    find (s.take m) pat start = none ↔ ∀ p, find s pat start = some p → m < p + pat.length := by
  constructor
  · intro hNone p hFind
    by_contra hLe
    have hSome := (find_take_eq_some_iff (m := m) hPat).mpr ⟨hFind, by omega⟩
    rw [hNone] at hSome
    exact absurd hSome (by simp)
  · intro hAll
    cases hFind : find (s.take m) pat start with
    | none => rfl
    | some p =>
      obtain ⟨hSome, hLe⟩ := (find_take_eq_some_iff hPat).mp hFind
      have := hAll p hSome
      omega

omit [DecidableEq α] in
theorem substr_take {pos n : Nat} (h : pos + n ≤ m) : substr (s.take m) pos n = substr s pos n := by
  unfold substr
  rw [List.drop_take, List.take_take, Nat.min_eq_left (by omega)]

-- ---------------------------------------------------------------------------
-- Replacing
-- ---------------------------------------------------------------------------

theorem find_of_occursAt (hPat : pat ≠ []) (h : OccursAt s pat start) :
    find s pat start = some start :=
  (find_eq_some_iff hPat).mpr ⟨Nat.le_refl start, h, fun q hq hLt => absurd hLt (by omega)⟩

/-- A position where there is no occurrence is passed. -/
theorem find_succ (h : ¬ OccursAt s pat start) : find s pat start = find s pat (start + 1) := by
  unfold find
  congr 1
  funext p
  rw [decide_eq_decide]
  constructor
  · rintro ⟨hStart, hHere⟩
    have hNe : start ≠ p := fun hSame => h (hSame ▸ hHere)
    exact ⟨by omega, hHere⟩
  · rintro ⟨hStart, hHere⟩
    exact ⟨by omega, hHere⟩

theorem find_length : find s pat s.length = none := by
  unfold find
  rw [List.find?_eq_none]
  intro p hp
  have hLt := List.mem_range.mp hp
  simp only [decide_eq_true_eq, not_and]
  intro hLe
  omega

/-- The occurrences of `sub`, from left to right, replaced by `other`. -/
inductive Replaces (sub other : List α) : List α → List α → Prop where
  | nil : Replaces sub other [] []
  | hit {s t : List α} : Replaces sub other s t → Replaces sub other (sub ++ s) (other ++ t)
  | miss {c : α} {s t : List α} : ¬ sub <+: c :: s → Replaces sub other s t →
      Replaces sub other (c :: s) (c :: t)

/-- A single element is replaced wherever it is. -/
theorem replaces_singleton (x : α) (other : List α) : ∀ s : List α,
    Replaces [x] other s (s.flatMap fun c => if c = x then other else [c]) := by
  intro s
  induction s with
  | nil => exact .nil
  | cons c s ih =>
    rw [List.flatMap_cons]
    by_cases hc : c = x
    · rw [if_pos hc, hc]
      exact .hit ih
    · rw [if_neg hc]
      refine .miss ?_ ih
      rintro ⟨t, ht⟩
      exact hc (List.cons.inj ht).1.symm

end HectorCore.Lib
