import HectorCore.Lib.HeapOrder

/-!
# HeapPlus — a heap whose elements know where they are

`lib/processing_engine/heapplus.h`: `push_heap` and `update_heap_pos`, with `__push_heap`,
`__up_heap`, `__down_heap` and `__update_heap`, which do the work.

A value that looks for its place is in no cell: each loop moves the elements that it passes, and the
value is written at the end. `Moving` looks at the cells as if the value were in the hole.

* `pushHeap_heaped`, `updateHeapPos_heaped` — afterwards the cells are in order, hold the same
  elements, and every element knows its cell.
-/

namespace HectorCore.Perl

open Lib.Heap (parent parent_lt parent_eq_iff Ordered UpHole DownHole Rearranged)

variable {α κ : Type}

/-- What the iterators point to, `*(first + i)`, and where `updatepos` has put the elements. -/
structure Cells (α : Type) where
  first : Nat → α
  pos : α → Nat

/-- The choice of `__largest`. -/
def largest (comp : α → α → Bool) (len index : Nat) (h : Cells α) : Nat :=
  if index * 2 + 2 < len then
    if comp (h.first (index * 2 + 1)) (h.first (index * 2 + 2)) then index * 2 + 2
    else index * 2 + 1
  else if index * 2 + 1 < len then index * 2 + 1
  else len

theorem lt_largest {comp : α → α → Bool} {len index : Nat} {h : Cells α} (hIndex : index < len) :
    index < largest comp len index h := by
  unfold largest
  split <;> split <;> omega

theorem parent_largest {comp : α → α → Bool} {len index : Nat} {h : Cells α}
    (hLen : largest comp len index h < len) : parent (largest comp len index h) = index := by
  have hCases : largest comp len index h = index * 2 + 2 ∨
      largest comp len index h = index * 2 + 1 ∨ largest comp len index h = len := by
    unfold largest
    split <;> split <;> simp
  unfold parent
  omega

section Code

variable [DecidableEq α]

/-- `*(first + i) = x; updatepos(*(first + i), i)` -/
def Cells.put (h : Cells α) (i : Nat) (x : α) : Cells α :=
  ⟨Function.update h.first i x, Function.update h.pos x i⟩

/-- The loop of `__push_heap` and of `__up_heap`. -/
def upLoop (comp : α → α → Bool) (value : α) (top hole : Nat) (h : Cells α) : Cells α × Nat :=
  if top < hole ∧ comp (h.first ((hole - 1) / 2)) value then
    upLoop comp value top ((hole - 1) / 2) (h.put hole (h.first ((hole - 1) / 2)))
  else (h, hole)
termination_by hole

/-- `__push_heap` -/
def pushHole (comp : α → α → Bool) (hole top : Nat) (value : α) (h : Cells α) : Cells α :=
  let (h, hole) := upLoop comp value top hole h
  h.put hole value

/-- `push_heap` -/
def pushHeap (comp : α → α → Bool) (len : Nat) (h : Cells α) : Cells α :=
  pushHole comp (len - 1) 0 (h.first (len - 1)) h

/-- `__up_heap` -/
def upHeap (comp : α → α → Bool) (pos : Nat) (value : α) (h : Cells α) : Cells α :=
  let (h, index) := upLoop comp value 0 pos h
  if pos ≠ index then h.put index value else h

/-- The loop of `__down_heap`. -/
def downLoop (comp : α → α → Bool) (value : α) (len index : Nat) (h : Cells α) : Cells α × Nat :=
  if _hIndex : index < len then
    if largest comp len index h < len ∧ comp value (h.first (largest comp len index h)) then
      downLoop comp value len (largest comp len index h)
        (h.put index (h.first (largest comp len index h)))
    else (h, index)
  else (h, index)
termination_by len - index
decreasing_by
  have : index < largest comp len index h := lt_largest _hIndex
  omega

/-- `__down_heap` -/
def downHeap (comp : α → α → Bool) (len pos : Nat) (value : α) (h : Cells α) : Cells α :=
  let (h, index) := downLoop comp value len pos h
  if pos ≠ index then h.put index value else h

/-- `update_heap_pos`, `__update_heap` -/
def updateHeapPos (comp : α → α → Bool) (len pos : Nat) (h : Cells α) : Cells α :=
  if 0 < pos ∧ comp (h.first ((pos - 1) / 2)) (h.first pos) then upHeap comp pos (h.first pos) h
  else downHeap comp len pos (h.first pos) h

end Code

-- ---------------------------------------------------------------------------
-- A value on its way
-- ---------------------------------------------------------------------------

/-- Every element knows its cell. -/
def Accurate (len : Nat) (h : Cells α) : Prop := ∀ j < len, h.pos (h.first j) = j

/-- The cells with the value in the hole. -/
def Cells.filled (h : Cells α) (hole : Nat) (value : α) : Nat → α :=
  Function.update h.first hole value

/-- The value is on its way: with it in the hole, `h` holds the elements of `f`, and the elements
beside it know their cells. -/
structure Moving (f : Nat → α) (len : Nat) (h : Cells α) (hole : Nat) (value : α) : Prop where
  inRange : hole < len
  rearranged : Rearranged len f (h.filled hole value)
  accurate : ∀ j < len, j ≠ hole → h.pos (h.first j) = j

variable {f : Nat → α} {len hole : Nat} {h : Cells α} {value : α}

@[simp] theorem Cells.filled_hole : h.filled hole value hole = value := Function.update_self ..

theorem Cells.filled_of_ne {j : Nat} (hj : j ≠ hole) : h.filled hole value j = h.first j :=
  Function.update_of_ne hj ..

variable (hole h) in
theorem Cells.filled_self : h.filled hole (h.first hole) = h.first := Function.update_eq_self ..

section Moves

variable [DecidableEq α]

theorem Cells.filled_put {i : Nat} (hi : i ≠ hole) :
    (h.put hole (h.first i)).filled i value = h.filled hole value ∘ Equiv.swap hole i := by
  funext j
  by_cases hjHole : j = hole
  · subst hjHole
    simp [Cells.filled, Cells.put, hi, hi.symm]
  · by_cases hji : j = i
    · subst hji
      simp [Cells.filled]
    · rw [Function.comp_apply, Equiv.swap_apply_of_ne_of_ne hjHole hji]
      simp [Cells.filled, Cells.put, hjHole, hji]

/-- The value changes places with an element. -/
theorem Moving.move {i : Nat} (hMoving : Moving f len h hole value)
    (hf : Set.InjOn f (Set.Iio len)) (hi : i < len) (hNe : i ≠ hole) :
    Moving f len (h.put hole (h.first i)) i value := by
  have hInj := hMoving.rearranged.injOn hf
  refine ⟨hi, ?_, ?_⟩
  · rw [Cells.filled_put hNe]
    exact hMoving.rearranged.trans (Rearranged.swap hMoving.inRange hi _)
  · intro j hj hji
    by_cases hjHole : j = hole
    · subst hjHole
      simp [Cells.put]
    · have hOther : h.first j ≠ h.first i := by
        intro hSame
        refine hji (hInj hj hi ?_)
        rw [Cells.filled_of_ne hjHole, Cells.filled_of_ne hNe, hSame]
      simp only [Cells.put, Function.update_of_ne hjHole, Function.update_of_ne hOther]
      exact hMoving.accurate j hj hjHole

/-- The value is written into the hole. -/
theorem Moving.put (hMoving : Moving f len h hole value) (hf : Set.InjOn f (Set.Iio len)) :
    Rearranged len f (h.put hole value).first ∧ Accurate len (h.put hole value) := by
  have hInj := hMoving.rearranged.injOn hf
  refine ⟨hMoving.rearranged, ?_⟩
  intro j hj
  by_cases hjHole : j = hole
  · subst hjHole
    simp [Cells.put]
  · have hOther : h.first j ≠ value := by
      intro hSame
      refine hjHole (hInj hj hMoving.inRange ?_)
      rw [Cells.filled_of_ne hjHole, Cells.filled_hole, hSame]
    simp only [Cells.put, Function.update_of_ne hjHole, Function.update_of_ne hOther]
    exact hMoving.accurate j hj hjHole

end Moves

-- ---------------------------------------------------------------------------
-- The loops
-- ---------------------------------------------------------------------------

section Loops

variable [LinearOrder κ] {comp : α → α → Bool} {key : α → κ}

/-- `__largest` is the greater child, if there is one. -/
theorem le_largest (hComp : ∀ a b, comp a b = true ↔ key a < key b) {len index : Nat}
    {h : Cells α} {j : Nat} (hj : 0 < j) (hLen : j < len) (hParent : parent j = index) :
    largest comp len index h < len ∧
      key (h.first j) ≤ key (h.first (largest comp len index h)) := by
  have hChild : j = index * 2 + 1 ∨ j = index * 2 + 2 := by
    have := (parent_eq_iff hj).mp hParent
    omega
  unfold largest
  split
  · rename_i hRight
    split
    · rename_i hLess
      refine ⟨hRight, ?_⟩
      obtain rfl | rfl := hChild
      · exact ((hComp _ _).mp hLess).le
      · exact le_refl _
    · rename_i hNotLess
      refine ⟨by omega, ?_⟩
      obtain rfl | rfl := hChild
      · exact le_refl _
      · exact not_lt.mp fun hLess => hNotLess ((hComp _ _).mpr hLess)
  · rename_i hRight
    have hLeft : j = index * 2 + 1 := by omega
    rw [if_pos (hLeft ▸ hLen), hLeft]
    exact ⟨hLeft ▸ hLen, le_refl _⟩

variable [DecidableEq α]

/-- The loop ends where the value may stay; if that is where it began, nothing has been written. -/
structure Arrived (key : α → κ) (f : Nat → α) (len : Nat) (h : Cells α) (hole : Nat) (value : α)
    (result : Cells α × Nat) : Prop where
  moving : Moving f len result.1 result.2 value
  ordered : Ordered key len (result.1.filled result.2 value)
  unchanged : result.2 = hole → result.1 = h

theorem upLoop_le (comp : α → α → Bool) (value : α) (hole : Nat) (h : Cells α) :
    (upLoop comp value 0 hole h).2 ≤ hole := by
  induction hole using Nat.strongRecOn generalizing h with
  | _ hole ih =>
    rw [upLoop]
    split
    · rename_i hLoop
      have hLt := parent_lt hLoop.1
      exact (ih (parent hole) hLt _).trans hLt.le
    · exact le_refl _

theorem upLoop_arrived (hComp : ∀ a b, comp a b = true ↔ key a < key b)
    (hf : Set.InjOn f (Set.Iio len)) (hMoving : Moving f len h hole value)
    (hHole : UpHole key len (h.filled hole value) hole) :
    Arrived key f len h hole value (upLoop comp value 0 hole h) := by
  induction hole using Nat.strongRecOn generalizing h with
  | _ hole ih =>
    rw [upLoop]
    split
    · rename_i hLoop
      obtain ⟨hPos, hAbove⟩ := hLoop
      have hLt := parent_lt hPos
      have hParent : h.filled hole value (parent hole) = h.first (parent hole) :=
        Cells.filled_of_ne (Nat.ne_of_lt hLt)
      have hGreater : key (h.filled hole value (parent hole)) < key (h.filled hole value hole) := by
        rw [hParent, Cells.filled_hole]
        exact (hComp _ _).mp hAbove
      have hInRange := hMoving.inRange
      have hNext := ih (parent hole) hLt (h := h.put hole (h.first (parent hole)))
        (hMoving.move hf (Nat.lt_trans hLt hInRange) (Nat.ne_of_lt hLt))
        (by
          rw [Cells.filled_put (Nat.ne_of_lt hLt)]
          exact hHole.move hPos hInRange hGreater)
      have hUp := upLoop_le comp value (parent hole) (h.put hole (h.first (parent hole)))
      refine ⟨hNext.moving, hNext.ordered, fun hBack => ?_⟩
      exact absurd hBack (Nat.ne_of_lt (Nat.lt_of_le_of_lt hUp hLt))
    · rename_i hStop
      refine ⟨hMoving, hHole.ordered ?_, fun _ => rfl⟩
      intro hPos
      rw [Cells.filled_of_ne (Nat.ne_of_lt (parent_lt hPos)), Cells.filled_hole]
      by_contra hGreater
      exact hStop ⟨hPos, (hComp _ _).mpr (not_le.mp hGreater)⟩

theorem le_downLoop (comp : α → α → Bool) (value : α) (len index : Nat) (h : Cells α) :
    index ≤ (downLoop comp value len index h).2 := by
  fun_induction downLoop comp value len index h with
  | case1 index h hIndex _ ih => exact (lt_largest hIndex).le.trans ih
  | case2 | case3 => exact le_refl _

theorem downLoop_arrived (hComp : ∀ a b, comp a b = true ↔ key a < key b)
    (hf : Set.InjOn f (Set.Iio len)) (hMoving : Moving f len h hole value)
    (hHole : DownHole key len (h.filled hole value) hole) :
    Arrived key f len h hole value (downLoop comp value len hole h) := by
  have hBeside : ∀ {h : Cells α} {hole j : Nat}, 0 < j → parent j = hole →
      h.filled hole value j = h.first j := by
    intro h hole j hj hParent
    have hLt := parent_lt hj
    exact Cells.filled_of_ne (by omega)
  fun_induction downLoop comp value len hole h with
  | case1 hole h hInRange hLoop ih =>
    obtain ⟨hLen, hLess⟩ := hLoop
    have hLt : hole < largest comp len hole h := lt_largest hInRange
    have hPos : 0 < largest comp len hole h := Nat.lt_of_le_of_lt (Nat.zero_le _) hLt
    have hParent := parent_largest hLen
    have hNext := ih (hMoving.move hf hLen (Nat.ne_of_gt hLt)) (by
      rw [Cells.filled_put (Nat.ne_of_gt hLt)]
      refine hHole.move hPos hLen hParent ?_ ?_
      · intro j hj hjLen hjParent
        rw [hBeside hj hjParent, hBeside hPos hParent]
        exact (le_largest hComp hj hjLen hjParent).2
      · rw [Cells.filled_hole, hBeside hPos hParent]
        exact (hComp _ _).mp hLess)
    refine ⟨hNext.moving, hNext.ordered, fun hBack => ?_⟩
    have hDown := le_downLoop comp value len (largest comp len hole h)
      (h.put hole (h.first (largest comp len hole h)))
    exact absurd hBack (Nat.ne_of_gt (Nat.lt_of_lt_of_le hLt hDown))
  | case2 hole h hInRange hStop =>
    refine ⟨hMoving, hHole.ordered ?_, fun _ => rfl⟩
    intro j hj hjLen hjParent
    obtain ⟨hLen, hGreatest⟩ := le_largest hComp (h := h) hj hjLen hjParent
    rw [hBeside hj hjParent, Cells.filled_hole]
    refine hGreatest.trans (not_lt.mp fun hLess => hStop ⟨hLen, (hComp _ _).mpr hLess⟩)
  | case3 hole h hOut => exact absurd hMoving.inRange hOut

-- ---------------------------------------------------------------------------
-- push_heap, update_heap_pos
-- ---------------------------------------------------------------------------

/-- What the heap is good for: the order, the same elements, and every element knows its cell. -/
structure Heaped (key : α → κ) (f : Nat → α) (len : Nat) (h : Cells α) : Prop where
  ordered : Ordered key len h.first
  rearranged : Rearranged len f h.first
  accurate : Accurate len h

/-- The value is written at the end. -/
theorem Arrived.put {result : Cells α × Nat} (h' : Arrived key f len h hole value result)
    (hf : Set.InjOn f (Set.Iio len)) : Heaped key f len (result.1.put result.2 value) := by
  obtain ⟨hRearranged, hAccurate⟩ := h'.moving.put hf
  exact ⟨h'.ordered, hRearranged, hAccurate⟩

/-- The value is where it was: it knows its cell. -/
theorem Arrived.putOrStay {result : Cells α × Nat} (h' : Arrived key f len h hole value result)
    (hf : Set.InjOn f (Set.Iio len)) (hValue : h.first hole = value) (hPos : h.pos value = hole) :
    Heaped key f len (if hole ≠ result.2 then result.1.put result.2 value else result.1) := by
  split
  · exact h'.put hf
  · rename_i hStay
    have hBack : result.2 = hole := (not_not.mp hStay).symm
    have hSame := h'.unchanged hBack
    obtain ⟨hMoving, hOrdered, -⟩ := h'
    rw [hSame, hBack] at hMoving hOrdered
    rw [hSame]
    subst hValue
    rw [Cells.filled_self] at hOrdered
    refine ⟨hOrdered, Cells.filled_self hole h ▸ hMoving.rearranged, ?_⟩
    intro j hj
    by_cases hjHole : j = hole
    · rw [hjHole]
      exact hPos
    · exact hMoving.accurate j hj hjHole

/-- `push_heap`: all but the last cell are in order. -/
theorem pushHeap_heaped (hComp : ∀ a b, comp a b = true ↔ key a < key b)
    (hf : Set.InjOn h.first (Set.Iio (len + 1))) (hOrdered : Ordered key len h.first)
    (hAccurate : Accurate len h) : Heaped key h.first (len + 1) (pushHeap comp (len + 1) h) := by
  have hHole := hOrdered.upHole_push (h.first len)
  have hMoving : Moving h.first (len + 1) h len (h.first len) := by
    refine ⟨Nat.lt_succ_self len, ?_, fun j hj hNe => hAccurate j (by omega)⟩
    rw [Cells.filled_self]
    exact Rearranged.refl ..
  exact (upLoop_arrived hComp hf hMoving hHole).put hf

/-- `update_heap_pos`: the key of one element has changed since the cells were in order. -/
theorem updateHeapPos_heaped {key₀ : α → κ} (hComp : ∀ a b, comp a b = true ↔ key a < key b)
    (hf : Set.InjOn h.first (Set.Iio len)) (hOrdered : Ordered key₀ len h.first)
    (hAccurate : Accurate len h) {pos : Nat} (hPos : pos < len)
    (hSame : ∀ j < len, j ≠ pos → key (h.first j) = key₀ (h.first j)) :
    Heaped key h.first len (updateHeapPos comp len pos h) := by
  have hMoving : Moving h.first len h pos (h.first pos) := by
    refine ⟨hPos, ?_, fun j hj _ => hAccurate j hj⟩
    rw [Cells.filled_self]
    exact Rearranged.refl ..
  unfold updateHeapPos
  split
  · rename_i hAbove
    have hHole := hOrdered.upHole hSame hPos hAbove.1 ((hComp _ _).mp hAbove.2)
    rw [← Cells.filled_self pos h] at hHole
    exact (upLoop_arrived hComp hf hMoving hHole).putOrStay hf rfl (hAccurate pos hPos)
  · rename_i hNotAbove
    have hBelow : 0 < pos → key (h.first pos) ≤ key (h.first (parent pos)) := fun hPositive =>
      not_lt.mp fun hLess => hNotAbove ⟨hPositive, (hComp _ _).mpr hLess⟩
    have hHole := hOrdered.downHole hSame hPos hBelow
    rw [← Cells.filled_self pos h] at hHole
    exact (downLoop_arrived hComp hf hMoving hHole).putOrStay hf rfl (hAccurate pos hPos)

end Loops

end HectorCore.Perl
