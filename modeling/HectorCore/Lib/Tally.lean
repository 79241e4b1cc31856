import Mathlib.Algebra.BigOperators.Group.Finset.Basic
import Mathlib.Algebra.Order.BigOperators.Group.Finset
import Mathlib.Algebra.Order.Ring.Int
import Mathlib.Data.Fintype.BigOperators

/-!
# Tallies — what the members of a group add up to

Members `t` belong to groups `key t`. The tally of a group is the sum of a value over its
members; when one member's value changes, the tally of its group changes by the difference
and no other one does.

* `tally_change`    — one member's value changes;
* `eq_one_of_tally` — if every member counts at most one and the tally is the size of the
  group, every member counts one.
-/

namespace HectorCore.Lib

variable {T K : Type} [Fintype T] [DecidableEq K]

/-- The sum of `f` over the members of group `k`. -/
def tally (key : T → K) (f : T → Int) (k : K) : Int := ∑ t, if key t = k then f t else 0

/-- The sum over all members. -/
def total (f : T → Int) : Int := tally (fun _ => ()) f ()

/-- The number of members of group `k`. -/
def size (key : T → K) (k : K) : Int := tally key (fun _ => 1) k

variable {key : T → K} {f g : T → Int} {k : K}

/-- If `g` differs from `f` at `t` only, the tallies differ by the change at `t`. -/
theorem tally_change (t : T) (hOff : ∀ t', t' ≠ t → g t' = f t') (k : K) :
    tally key g k = tally key f k + if key t = k then g t - f t else 0 := by
  classical
  unfold tally
  rw [← Finset.add_sum_erase _ _ (Finset.mem_univ t),
    ← Finset.add_sum_erase _ (fun t => if key t = k then f t else 0) (Finset.mem_univ t)]
  have hRest : ∑ t' ∈ Finset.univ.erase t, (if key t' = k then g t' else 0) =
      ∑ t' ∈ Finset.univ.erase t, if key t' = k then f t' else 0 :=
    Finset.sum_congr rfl fun t' hMem => by rw [hOff t' (Finset.ne_of_mem_erase hMem)]
  rw [hRest]
  split_ifs <;> omega

theorem tally_congr (h : ∀ t, key t = k → g t = f t) : tally key g k = tally key f k := by
  refine Finset.sum_congr rfl fun t _ => ?_
  split_ifs with ht
  · exact h t ht
  · rfl

theorem tally_le (h : ∀ t, key t = k → f t ≤ g t) : tally key f k ≤ tally key g k := by
  refine Finset.sum_le_sum fun t _ => ?_
  split_ifs with ht
  · exact h t ht
  · exact le_refl 0

theorem tally_nonneg (h : ∀ t, key t = k → 0 ≤ f t) : 0 ≤ tally key f k := by
  refine Finset.sum_nonneg fun t _ => ?_
  split_ifs with ht
  · exact h t ht
  · exact le_refl 0

theorem tally_zero : tally key (fun _ => 0) k = 0 := by
  simp [tally]

/-- Strictly less at one member. -/
theorem tally_lt (h : ∀ t, key t = k → f t ≤ g t) {t : T} (ht : key t = k) (hLt : f t < g t) :
    tally key f k < tally key g k := by
  refine Finset.sum_lt_sum (fun t' _ => ?_) ⟨t, Finset.mem_univ t, ?_⟩
  · split_ifs with ht'
    · exact h t' ht'
    · exact le_refl 0
  · rw [if_pos ht, if_pos ht]
    exact hLt

/-- Values that are at most `g` and add up to as much as `g` are `g`. -/
theorem eq_of_tally_le (h : ∀ t, key t = k → f t ≤ g t) (hSum : tally key g k ≤ tally key f k)
    {t : T} (ht : key t = k) : f t = g t := by
  by_contra hNe
  have hLt := tally_lt h ht (lt_of_le_of_ne (h t ht) hNe)
  omega

/-- Every member counts at most one and the tally is full: every member counts one. -/
theorem eq_one_of_tally (hLe : ∀ t, key t = k → f t ≤ 1) (hFull : tally key f k = size key k)
    {t : T} (ht : key t = k) : f t = 1 :=
  eq_of_tally_le (g := fun _ => 1) hLe (le_of_eq hFull.symm) ht

/-- A tally of non-negative values that is zero is zero everywhere. -/
theorem eq_zero_of_tally (hNonneg : ∀ t, key t = k → 0 ≤ f t) (hZero : tally key f k ≤ 0)
    {t : T} (ht : key t = k) : f t = 0 :=
  (eq_of_tally_le (f := fun _ => 0) hNonneg (by rw [tally_zero]; exact hZero) ht).symm

end HectorCore.Lib
