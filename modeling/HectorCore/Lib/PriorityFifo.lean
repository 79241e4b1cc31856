import Mathlib

/-!
# Priority FIFO queues

The abstract object: for every priority a list of items, oldest first. Three operations
act on it. `push` appends an item to one list, `pop` takes the oldest item of the highest
priority that has any, `drop` discards the oldest item of some priority. `Exec c ops c'`
says that the operations `ops`, in this order, lead from the contents `c` to `c'`.

Results:

* `Exec.fifo`          — per priority, what was there and what was pushed is what left
  followed by what is still there, in this order: nothing is lost, doubled or reordered;
* `Exec.pop_best`      — every popped item was, at its moment, the oldest one of the
  highest non-empty priority;
* `Exec.popped_prefix` — when everything that is dropped is dropped at the end, the popped
  items of a priority are a prefix of the items pushed with it.
-/

namespace HectorCore.Lib

/-- One operation of a priority FIFO, with the priority and the item it moved. -/
inductive FifoOp (ι α : Type*) where
  | push (p : ι) (x : α)
  | pop (p : ι) (x : α)
  | drop (p : ι) (x : α)

namespace FifoOp

variable {ι α : Type*} [LinearOrder ι]

/-- `Applies c op c'`: the operation is possible at `c` and leaves `c'`. -/
inductive Applies : (ι → List α) → FifoOp ι α → (ι → List α) → Prop where
  | push {c : ι → List α} (p : ι) (x : α) :
      Applies c (.push p x) (Function.update c p (c p ++ [x]))
  | pop {c : ι → List α} {p : ι} {x : α} {rest : List α} (hHead : c p = x :: rest)
      (hBest : ∀ p', c p' ≠ [] → p' ≤ p) :
      Applies c (.pop p x) (Function.update c p rest)
  | drop {c : ι → List α} {p : ι} {x : α} {rest : List α} (hHead : c p = x :: rest) :
      Applies c (.drop p x) (Function.update c p rest)

/-- A sequence of operations from one contents to another. -/
inductive Exec : (ι → List α) → List (FifoOp ι α) → (ι → List α) → Prop where
  | nil (c : ι → List α) : Exec c [] c
  | cons {c d e : ι → List α} {op : FifoOp ι α} {ops : List (FifoOp ι α)} :
      Applies c op d → Exec d ops e → Exec c (op :: ops) e

/-- The items pushed with priority `p`, in order. -/
def pushed (p : ι) : List (FifoOp ι α) → List α
  | [] => []
  | .push p' x :: ops => if p' = p then x :: pushed p ops else pushed p ops
  | _ :: ops => pushed p ops

/-- The items popped from priority `p`, in order. -/
def popped (p : ι) : List (FifoOp ι α) → List α
  | [] => []
  | .pop p' x :: ops => if p' = p then x :: popped p ops else popped p ops
  | _ :: ops => popped p ops

/-- The items dropped from priority `p`, in order. -/
def dropped (p : ι) : List (FifoOp ι α) → List α
  | [] => []
  | .drop p' x :: ops => if p' = p then x :: dropped p ops else dropped p ops
  | _ :: ops => dropped p ops

/-- The items that left priority `p`, popped or dropped, in order. -/
def left (p : ι) : List (FifoOp ι α) → List α
  | [] => []
  | .pop p' x :: ops => if p' = p then x :: left p ops else left p ops
  | .drop p' x :: ops => if p' = p then x :: left p ops else left p ops
  | .push _ _ :: ops => left p ops

def isDrop : FifoOp ι α → Bool
  | .drop _ _ => true
  | _ => false

@[simp] theorem pushed_append (p : ι) (xs ys : List (FifoOp ι α)) :
    pushed p (xs ++ ys) = pushed p xs ++ pushed p ys := by
  induction xs with
  | nil => rfl
  | cons op ops ih =>
    cases op with
    | push p' x => simp only [List.cons_append, pushed, ih]; split <;> rfl
    | pop p' x => exact ih
    | drop p' x => exact ih

@[simp] theorem popped_append (p : ι) (xs ys : List (FifoOp ι α)) :
    popped p (xs ++ ys) = popped p xs ++ popped p ys := by
  induction xs with
  | nil => rfl
  | cons op ops ih =>
    cases op with
    | push p' x => exact ih
    | pop p' x => simp only [List.cons_append, popped, ih]; split <;> rfl
    | drop p' x => exact ih

@[simp] theorem left_append (p : ι) (xs ys : List (FifoOp ι α)) :
    left p (xs ++ ys) = left p xs ++ left p ys := by
  induction xs with
  | nil => rfl
  | cons op ops ih =>
    cases op with
    | push p' x => exact ih
    | pop p' x => simp only [List.cons_append, left, ih]; split <;> rfl
    | drop p' x => simp only [List.cons_append, left, ih]; split <;> rfl

/-- What left was popped or dropped. -/
theorem left_perm (p : ι) (ops : List (FifoOp ι α)) :
    (left p ops).Perm (popped p ops ++ dropped p ops) := by
  induction ops with
  | nil => rfl
  | cons op ops ih =>
    cases op with
    | push p' x => exact ih
    | pop p' x =>
      simp only [left, popped, dropped]
      split
      · exact ih.cons x
      · exact ih
    | drop p' x =>
      simp only [left, popped, dropped]
      split
      · exact (ih.cons x).trans List.perm_middle.symm
      · exact ih

/-- Without drops everything that left was popped. -/
theorem left_eq_popped (p : ι) {ops : List (FifoOp ι α)} (h : ∀ op ∈ ops, isDrop op = false) :
    left p ops = popped p ops := by
  induction ops with
  | nil => rfl
  | cons op ops ih =>
    have hRest := ih fun o ho => h o (List.mem_cons_of_mem _ ho)
    have hHead := h op (List.mem_cons_self ..)
    cases op with
    | push p' x => simp only [left, popped, hRest]
    | pop p' x => simp only [left, popped, hRest]
    | drop p' x => simp [isDrop] at hHead

/-- Drops pop nothing. -/
theorem popped_eq_nil (p : ι) {ops : List (FifoOp ι α)} (h : ∀ op ∈ ops, isDrop op = true) :
    popped p ops = [] := by
  induction ops with
  | nil => rfl
  | cons op ops ih =>
    have hRest := ih fun o ho => h o (List.mem_cons_of_mem _ ho)
    have hHead := h op (List.mem_cons_self ..)
    cases op with
    | push p' x => simp [isDrop] at hHead
    | pop p' x => simp [isDrop] at hHead
    | drop p' x => simp only [popped, hRest]

theorem Exec.append {c d e : ι → List α} {xs ys : List (FifoOp ι α)}
    (h : Exec c xs d) (h' : Exec d ys e) : Exec c (xs ++ ys) e := by
  induction h with
  | nil => exact h'
  | cons hop _ ih => exact .cons hop (ih h')

theorem Exec.split {c e : ι → List α} {xs ys : List (FifoOp ι α)}
    (h : Exec c (xs ++ ys) e) : ∃ d, Exec c xs d ∧ Exec d ys e := by
  induction xs generalizing c with
  | nil => exact ⟨c, .nil c, h⟩
  | cons op ops ih =>
    cases h with
    | cons hop hRest =>
      obtain ⟨d, hd, he⟩ := ih hRest
      exact ⟨d, .cons hop hd, he⟩

/-- One operation keeps the account of every priority. -/
theorem Applies.fifo {c d : ι → List α} {op : FifoOp ι α} (h : Applies c op d) (p : ι) :
    c p ++ pushed p [op] = left p [op] ++ d p := by
  cases h with
  | push p' x =>
    by_cases hp : p' = p
    · subst hp; simp [pushed, left]
    · simp [pushed, left, hp, Function.update_of_ne (Ne.symm hp)]
  | @pop p' x rest hHead _ =>
    by_cases hp : p' = p
    · subst hp; simp [pushed, left, hHead]
    · simp [pushed, left, hp, Function.update_of_ne (Ne.symm hp)]
  | @drop p' x rest hHead =>
    by_cases hp : p' = p
    · subst hp; simp [pushed, left, hHead]
    · simp [pushed, left, hp, Function.update_of_ne (Ne.symm hp)]

/-- **FIFO account.** Per priority: old contents and pushes = departures and new contents. -/
theorem Exec.fifo {c e : ι → List α} {ops : List (FifoOp ι α)} (h : Exec c ops e) (p : ι) :
    c p ++ pushed p ops = left p ops ++ e p := by
  induction h with
  | nil => simp [pushed, left]
  | @cons c d e op ops hop _ ih =>
    have hOne := hop.fifo p
    calc c p ++ pushed p (op :: ops)
        = (c p ++ pushed p [op]) ++ pushed p ops := by
          rw [← List.singleton_append, pushed_append, List.append_assoc]
      _ = left p [op] ++ (d p ++ pushed p ops) := by rw [hOne, List.append_assoc]
      _ = left p [op] ++ (left p ops ++ e p) := by rw [ih]
      _ = left p (op :: ops) ++ e p := by
          rw [← List.append_assoc, ← left_append, List.singleton_append]

/-- Every pop took the oldest item of the highest priority that had one. -/
theorem Exec.pop_best {c e : ι → List α} {xs ys : List (FifoOp ι α)} {p : ι} {x : α}
    (h : Exec c (xs ++ .pop p x :: ys) e) :
    ∃ d, Exec c xs d ∧ (d p).head? = some x ∧ ∀ p', d p' ≠ [] → p' ≤ p := by
  obtain ⟨d, hd, he⟩ := h.split
  cases he with
  | cons hop _ =>
    cases hop with
    | pop hHead hBest => exact ⟨d, hd, by rw [hHead]; rfl, hBest⟩

/-- Where everything dropped is dropped at the end, the popped items of a priority are the
first ones of those pushed with it. -/
theorem Exec.popped_prefix {c e : ι → List α} {xs ys : List (FifoOp ι α)} (p : ι)
    (h : Exec c (xs ++ ys) e) (hc : c p = [])
    (hxs : ∀ op ∈ xs, isDrop op = false) (hys : ∀ op ∈ ys, isDrop op = true) :
    popped p (xs ++ ys) <+: pushed p (xs ++ ys) := by
  have hAll := h.fifo p
  rw [hc, List.nil_append] at hAll
  rw [hAll, popped_append, popped_eq_nil p hys, List.append_nil, ← left_eq_popped p hxs,
    left_append, List.append_assoc]
  exact List.prefix_append ..

end FifoOp

end HectorCore.Lib
