import Mathlib.Logic.Equiv.Basic
import Mathlib.Data.Set.Function
import Mathlib.Order.Interval.Set.Basic

/-!
# Heap order, and a value that moves through the heap

A binary heap in the cells `0, ..., len - 1`: no key is greater than the key of the parent, which is
at `(j - 1) / 2`. While a value looks for its place the order may fail around one cell, the hole:
between the hole and its parent (`UpHole`), or between the children of the hole and the hole
(`DownHole`).

* `Ordered.le_root`                — the greatest key is at the root;
* `UpHole.move`, `DownHole.move`   — an exchange with the parent, or with the greatest child;
* `UpHole.ordered`, `DownHole.ordered` — where the value may stay;
* `Ordered.upHole`, `Ordered.downHole` — one key has changed;
* `Rearranged`                     — exchanges keep the elements.
-/

namespace HectorCore.Lib.Heap

variable {α κ : Type*} [LinearOrder κ]

/-- The parent of a cell; the root is its own parent. -/
def parent (j : Nat) : Nat := (j - 1) / 2

theorem parent_lt {j : Nat} (hj : 0 < j) : parent j < j := by
  unfold parent
  omega

/-- The cells below a cell. -/
theorem parent_eq_iff {j i : Nat} (hj : 0 < j) :
    parent j = i ↔ j = 2 * i + 1 ∨ j = 2 * i + 2 := by
  unfold parent
  omega

def Ordered (key : α → κ) (len : Nat) (f : Nat → α) : Prop :=
  ∀ j, 0 < j → j < len → key (f j) ≤ key (f (parent j))

/-- In order, but for the hole, whose key may be greater than its parent's. -/
structure UpHole (key : α → κ) (len : Nat) (f : Nat → α) (hole : Nat) : Prop where
  others : ∀ j, 0 < j → j < len → j ≠ hole → key (f j) ≤ key (f (parent j))
  grand : 0 < hole → ∀ j, 0 < j → j < len → parent j = hole → key (f j) ≤ key (f (parent hole))

/-- In order, but for the hole, whose key may be less than its children's. -/
structure DownHole (key : α → κ) (len : Nat) (f : Nat → α) (hole : Nat) : Prop where
  others : ∀ j, 0 < j → j < len → parent j ≠ hole → key (f j) ≤ key (f (parent j))
  grand : 0 < hole → ∀ j, 0 < j → j < len → parent j = hole → key (f j) ≤ key (f (parent hole))

variable {key key' : α → κ} {len hole : Nat} {f : Nat → α}

theorem Ordered.le_root (h : Ordered key len f) {j : Nat} (hj : j < len) :
    key (f j) ≤ key (f 0) := by
  induction j using Nat.strongRecOn with
  | _ j ih =>
    obtain rfl | hPos := Nat.eq_zero_or_pos j
    · exact le_refl _
    · have hParent := parent_lt hPos
      exact (h j hPos hj).trans (ih (parent j) hParent (Nat.lt_trans hParent hj))

-- ---------------------------------------------------------------------------
-- Up
-- ---------------------------------------------------------------------------

/-- The value goes up. -/
theorem UpHole.move (h : UpHole key len f hole) (hPos : 0 < hole) (hLen : hole < len)
    (hAbove : key (f (parent hole)) < key (f hole)) :
    UpHole key len (f ∘ Equiv.swap hole (parent hole)) (parent hole) := by
  have hLt := parent_lt hPos
  have hHole : (f ∘ Equiv.swap hole (parent hole)) hole = f (parent hole) := by simp
  have hParent : (f ∘ Equiv.swap hole (parent hole)) (parent hole) = f hole := by simp
  have hOther : ∀ j, j ≠ hole → j ≠ parent hole →
      (f ∘ Equiv.swap hole (parent hole)) j = f j :=
    fun j h₁ h₂ => congrArg f (Equiv.swap_apply_of_ne_of_ne h₁ h₂)
  constructor
  · intro j hj hjLen hjParent
    by_cases hjHole : j = hole
    · rw [hjHole, hHole, hParent]
      exact hAbove.le
    · rw [hOther j hjHole hjParent]
      by_cases hBelowHole : parent j = hole
      · rw [hBelowHole, hHole]
        exact h.grand hPos j hj hjLen hBelowHole
      · by_cases hSibling : parent j = parent hole
        · rw [hSibling, hParent]
          exact (hSibling ▸ h.others j hj hjLen hjHole).trans hAbove.le
        · rw [hOther (parent j) hBelowHole hSibling]
          exact h.others j hj hjLen hjHole
  · intro hParentPos j hj hjLen hjParent
    have hUp := parent_lt hParentPos
    have hTop := h.others (parent hole) hParentPos (Nat.lt_trans hLt hLen) (Nat.ne_of_lt hLt)
    rw [hOther (parent (parent hole)) (by omega) (Nat.ne_of_lt hUp)]
    by_cases hjHole : j = hole
    · rw [hjHole, hHole]
      exact hTop
    · have hBelow := parent_lt hj
      rw [hOther j hjHole (by omega)]
      exact (hjParent ▸ h.others j hj hjLen hjHole).trans hTop

/-- The value may stay. -/
theorem UpHole.ordered (h : UpHole key len f hole)
    (hStay : 0 < hole → key (f hole) ≤ key (f (parent hole))) : Ordered key len f := by
  intro j hj hLen
  by_cases hHole : j = hole
  · subst hHole
    exact hStay hj
  · exact h.others j hj hLen hHole

-- ---------------------------------------------------------------------------
-- Down
-- ---------------------------------------------------------------------------

/-- The value goes down. -/
theorem DownHole.move {child : Nat} (h : DownHole key len f hole) (hPos : 0 < child)
    (hLen : child < len) (hChild : parent child = hole)
    (hGreatest : ∀ j, 0 < j → j < len → parent j = hole → key (f j) ≤ key (f child))
    (hBelow : key (f hole) < key (f child)) :
    DownHole key len (f ∘ Equiv.swap hole child) child := by
  have hLt : hole < child := hChild ▸ parent_lt hPos
  have hAtHole : (f ∘ Equiv.swap hole child) hole = f child := by simp
  have hAtChild : (f ∘ Equiv.swap hole child) child = f hole := by simp
  have hOther : ∀ j, j ≠ hole → j ≠ child → (f ∘ Equiv.swap hole child) j = f j :=
    fun j h₁ h₂ => congrArg f (Equiv.swap_apply_of_ne_of_ne h₁ h₂)
  constructor
  · intro j hj hjLen hjParent
    by_cases hjHole : j = hole
    · subst hjHole
      have hUp := parent_lt hj
      rw [hAtHole, hOther (parent j) (Nat.ne_of_lt hUp) hjParent]
      exact h.grand hj child hPos hLen hChild
    · by_cases hjChild : j = child
      · rw [hjChild, hAtChild, hChild, hAtHole]
        exact hBelow.le
      · rw [hOther j hjHole hjChild]
        by_cases hSibling : parent j = hole
        · rw [hSibling, hAtHole]
          exact hGreatest j hj hjLen hSibling
        · rw [hOther (parent j) hSibling hjParent]
          exact h.others j hj hjLen hSibling
  · intro _ j hj hjLen hjParent
    have hDown := parent_lt hj
    rw [hChild, hAtHole, hOther j (by omega) (by omega)]
    have hSelf := h.others j hj hjLen (by omega)
    rwa [hjParent] at hSelf

/-- The value may stay. -/
theorem DownHole.ordered (h : DownHole key len f hole)
    (hStay : ∀ j, 0 < j → j < len → parent j = hole → key (f j) ≤ key (f hole)) :
    Ordered key len f := by
  intro j hj hLen
  by_cases hParent : parent j = hole
  · rw [hParent]
    exact hStay j hj hLen hParent
  · exact h.others j hj hLen hParent

-- ---------------------------------------------------------------------------
-- One cell has changed
-- ---------------------------------------------------------------------------

/-- A new value behind the last cell. -/
theorem Ordered.upHole_push (h : Ordered key len f) (x : α) :
    UpHole key (len + 1) (Function.update f len x) len := by
  constructor
  · intro j hj hjLen hjNe
    have hUp := parent_lt hj
    rw [Function.update_of_ne hjNe, Function.update_of_ne (by omega)]
    exact h j hj (by omega)
  · intro _ j hj hjLen hjParent
    have hUp := parent_lt hj
    omega

section Change

variable (h : Ordered key len f) (hSame : ∀ j < len, j ≠ hole → key' (f j) = key (f j))
  (hLen : hole < len)

include h hSame hLen

/-- The key of the hole has changed: its children are still below its parent. -/
theorem Ordered.grand (hPos : 0 < hole) {j : Nat} (hj : 0 < j) (hjLen : j < len)
    (hParent : parent j = hole) : key' (f j) ≤ key' (f (parent hole)) := by
  have hUp := parent_lt hPos
  have hDown := parent_lt hj
  rw [hSame j hjLen (by omega), hSame (parent hole) (by omega) (by omega)]
  exact (hParent ▸ h j hj hjLen).trans (h hole hPos hLen)

/-- The key of the hole is greater than its parent's now. -/
theorem Ordered.upHole (hPos : 0 < hole) (hAbove : key' (f (parent hole)) < key' (f hole)) :
    UpHole key' len f hole := by
  refine ⟨?_, fun _ j hj hjLen hParent => h.grand hSame hLen hPos hj hjLen hParent⟩
  intro j hj hjLen hjNe
  by_cases hParent : parent j = hole
  · rw [hParent]
    exact (h.grand hSame hLen hPos hj hjLen hParent).trans hAbove.le
  · have hDown := parent_lt hj
    rw [hSame j hjLen hjNe, hSame (parent j) (by omega) hParent]
    exact h j hj hjLen

/-- The key of the hole is not greater than its parent's now. -/
theorem Ordered.downHole (hBelow : 0 < hole → key' (f hole) ≤ key' (f (parent hole))) :
    DownHole key' len f hole := by
  refine ⟨?_, fun hPos j hj hjLen hParent => h.grand hSame hLen hPos hj hjLen hParent⟩
  intro j hj hjLen hParent
  by_cases hHole : j = hole
  · subst hHole
    exact hBelow hj
  · have hDown := parent_lt hj
    rw [hSame j hjLen hHole, hSame (parent j) (by omega) hParent]
    exact h j hj hjLen

end Change

-- ---------------------------------------------------------------------------
-- The same elements
-- ---------------------------------------------------------------------------

/-- The elements of `f` in another order. -/
def Rearranged (len : Nat) (f f' : Nat → α) : Prop :=
  ∃ σ : Equiv.Perm Nat, (∀ j, σ j < len ↔ j < len) ∧ f' = f ∘ σ

section Rearranging

variable {f' f'' : Nat → α}

theorem Rearranged.refl (len : Nat) (f : Nat → α) : Rearranged len f f :=
  ⟨Equiv.refl _, fun _ => Iff.rfl, rfl⟩

theorem Rearranged.trans (h : Rearranged len f f') (h' : Rearranged len f' f'') :
    Rearranged len f f'' := by
  obtain ⟨σ, hσ, rfl⟩ := h
  obtain ⟨τ, hτ, rfl⟩ := h'
  exact ⟨τ.trans σ, fun j => (hσ (τ j)).trans (hτ j), rfl⟩

theorem Rearranged.swap {i j : Nat} (hi : i < len) (hj : j < len) (f : Nat → α) :
    Rearranged len f (f ∘ Equiv.swap i j) := by
  refine ⟨Equiv.swap i j, ?_, rfl⟩
  intro k
  by_cases hki : k = i
  · simp [hki, hi, hj]
  · by_cases hkj : k = j
    · simp [hkj, hi, hj]
    · rw [Equiv.swap_apply_of_ne_of_ne hki hkj]

theorem Rearranged.injOn (h : Rearranged len f f') (hf : Set.InjOn f (Set.Iio len)) :
    Set.InjOn f' (Set.Iio len) := by
  obtain ⟨σ, hσ, rfl⟩ := h
  intro i hi j hj hSame
  exact σ.injective (hf ((hσ i).mpr hi) ((hσ j).mpr hj) hSame)

/-- An element has a cell in the one order if and only if it has one in the other. -/
theorem Rearranged.mem_iff (h : Rearranged len f f') {x : α} :
    (∃ j < len, f' j = x) ↔ ∃ j < len, f j = x := by
  obtain ⟨σ, hσ, rfl⟩ := h
  constructor
  · rintro ⟨j, hj, rfl⟩
    exact ⟨σ j, (hσ j).mpr hj, rfl⟩
  · rintro ⟨j, hj, rfl⟩
    refine ⟨σ.symm j, ?_, congrArg f (σ.apply_symm_apply j)⟩
    rw [← hσ, σ.apply_symm_apply]
    exact hj

/-- A new element behind the last cell is among the elements of the cells. -/
theorem mem_push {x y : α} :
    (∃ j < len + 1, Function.update f len x j = y) ↔ (∃ j < len, f j = y) ∨ y = x := by
  constructor
  · rintro ⟨j, hj, rfl⟩
    by_cases hLast : j = len
    · right
      rw [hLast, Function.update_self]
    · left
      exact ⟨j, by omega, (Function.update_of_ne hLast ..).symm⟩
  · rintro (⟨j, hj, rfl⟩ | rfl)
    · exact ⟨j, by omega, Function.update_of_ne (Nat.ne_of_lt hj) ..⟩
    · exact ⟨len, Nat.lt_succ_self len, Function.update_self ..⟩

theorem injOn_push {x : α} (hf : Set.InjOn f (Set.Iio len)) (hNew : ∀ j < len, f j ≠ x) :
    Set.InjOn (Function.update f len x) (Set.Iio (len + 1)) := by
  have hLast : ∀ j < len + 1, Function.update f len x j = x → j = len := by
    intro j hj hSame
    by_contra hNe
    rw [Function.update_of_ne hNe] at hSame
    exact hNew j (by omega) hSame
  intro i hi j hj hSame
  by_cases hiLast : i = len
  · rw [hiLast, Function.update_self] at hSame
    rw [hiLast, hLast j hj hSame.symm]
  · by_cases hjLast : j = len
    · rw [hjLast, Function.update_self] at hSame
      rw [hjLast, hLast i hi hSame]
    · rw [Function.update_of_ne hiLast, Function.update_of_ne hjLast] at hSame
      have hi' : i < len := Nat.lt_of_le_of_ne (Nat.le_of_lt_succ hi) hiLast
      have hj' : j < len := Nat.lt_of_le_of_ne (Nat.le_of_lt_succ hj) hjLast
      exact hf hi' hj' hSame

end Rearranging

end HectorCore.Lib.Heap
