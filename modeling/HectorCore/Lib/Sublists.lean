import Mathlib.Data.List.Basic

/-!
# Sublists — how far a sublist has come

A list that grows at its end and is to stay a sublist of another one: what may come next is what
stands in the other one behind the first place that the list can have come to.

* `append_sublist_iff_ahead` — one more element;
* `sublist_of_map`           — a sublist of images, where equal images come from equal elements.
-/

namespace HectorCore.Lib

variable {α β : Type}

/-- What is left of the second list behind the elements of the first one. -/
def ahead [DecidableEq α] : List α → List α → List α
  | [], ys => ys
  | x :: xs, ys => ahead xs (ys.dropWhile (· ≠ x)).tail

/-- The first element is found as early as possible. -/
theorem cons_sublist_iff [DecidableEq α] {x : α} {xs ys : List α} (hMem : x ∈ ys) :
    (x :: xs).Sublist ys ↔ xs.Sublist (ys.dropWhile (· ≠ x)).tail := by
  induction ys with
  | nil => exact absurd hMem List.not_mem_nil
  | cons y ys ih =>
    by_cases hSame : y = x
    · subst hSame
      rw [List.dropWhile_cons_of_neg (by simp), List.tail_cons, List.cons_sublist_cons]
    · have hTail : x ∈ ys := (List.mem_cons.mp hMem).resolve_left (Ne.symm hSame)
      rw [List.dropWhile_cons_of_pos (by simpa using hSame), ← ih hTail]
      refine ⟨fun hSub => ?_, fun hSub => hSub.cons y⟩
      cases hSub with
      | cons _ hRest => exact hRest
      | cons_cons _ _ => exact absurd rfl hSame

theorem append_sublist_iff_ahead [DecidableEq α] {y : α} :
    ∀ {xs ys : List α}, xs.Sublist ys → ((xs ++ [y]).Sublist ys ↔ y ∈ ahead xs ys) := by
  intro xs
  induction xs with
  | nil =>
    intro ys _
    exact List.singleton_sublist
  | cons x xs ih =>
    intro ys hSub
    have hMem : x ∈ ys := hSub.subset List.mem_cons_self
    rw [List.cons_append, cons_sublist_iff hMem, ih ((cons_sublist_iff hMem).mp hSub), ahead]

/-- Where equal images come from equal elements, a sublist of images is one of elements. -/
theorem sublist_of_map {f : α → β} {xs ys : List α}
    (hInj : ∀ x ∈ xs, ∀ y ∈ ys, f x = f y → x = y) (hMap : (xs.map f).Sublist (ys.map f)) :
    xs.Sublist ys := by
  induction ys generalizing xs with
  | nil =>
    have hNil : xs = [] := by simpa using hMap
    rw [hNil]
  | cons y ys ih =>
    have hTail : ∀ {xs' : List α}, xs' ⊆ xs → ∀ x ∈ xs', ∀ y ∈ ys, f x = f y → x = y :=
      fun hSub x hx y hy => hInj x (hSub hx) y (List.mem_cons_of_mem _ hy)
    rw [List.map_cons, List.sublist_cons_iff] at hMap
    rcases hMap with hSkip | ⟨tail, hEq, hRest⟩
    · exact (ih (hTail fun _ hx => hx) hSkip).cons y
    · cases xs with
      | nil => exact List.nil_sublist _
      | cons x xs =>
        obtain ⟨hHead, rfl⟩ := List.cons.inj hEq
        rw [hInj x List.mem_cons_self y List.mem_cons_self hHead]
        exact (ih (hTail (List.subset_cons_self x xs)) hRest).cons_cons y

end HectorCore.Lib
