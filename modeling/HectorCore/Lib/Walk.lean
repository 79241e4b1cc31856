import Mathlib.Data.List.Basic
import Mathlib.Data.List.Induction
import Mathlib.Logic.Function.Basic

/-!
# Walks — loops that end with the first element that fails

`walk f as s` is the loop `for (a in as) if (!f(a)) return false; return true;` over a state.

* `walk_flatten` — a loop in a loop is one loop;
* `walk_passing` — a loop that passes over some elements;
* `walk_reached` — a loop where the state does not decide how a turn ends;
* `walk_atPlace` — a loop where every element has a place of its own;
* `foldl_update`   — of assignments to the members of a map the last one to a key counts.
-/

namespace HectorCore.Lib

variable {α β σ κ ν : Type*}

/-- The loop: it goes on while `f` returns true. -/
def walk (f : α → σ → Bool × σ) : List α → σ → Bool × σ
  | [], s => (true, s)
  | a :: as, s =>
    match f a s with
    | (true, s') => walk f as s'
    | (false, s') => (false, s')

variable {f : α → σ → Bool × σ} {a : α} {as bs : List α} {s : σ}

theorem walk_cons_of_true (h : (f a s).1 = true) : walk f (a :: as) s = walk f as (f a s).2 := by
  rw [walk]
  split
  · rename_i s' hEq
    rw [hEq]
  · rename_i s' hEq
    rw [hEq] at h
    cases h

theorem walk_cons_of_false (h : (f a s).1 = false) : walk f (a :: as) s = f a s := by
  rw [walk]
  split
  · rename_i s' hEq
    rw [hEq] at h
    cases h
  · rename_i s' hEq
    rw [hEq]

theorem walk_append_of_true (h : (walk f as s).1 = true) :
    walk f (as ++ bs) s = walk f bs (walk f as s).2 := by
  induction as generalizing s with
  | nil => rfl
  | cons a as ih =>
    cases hTurn : (f a s).1 with
    | true =>
      rw [walk_cons_of_true hTurn] at h ⊢
      rw [List.cons_append, walk_cons_of_true hTurn, ih h]
    | false =>
      rw [walk_cons_of_false hTurn, hTurn] at h
      cases h

theorem walk_append_of_false (h : (walk f as s).1 = false) : walk f (as ++ bs) s = walk f as s := by
  induction as generalizing s with
  | nil => cases h
  | cons a as ih =>
    cases hTurn : (f a s).1 with
    | true =>
      rw [walk_cons_of_true hTurn] at h ⊢
      rw [List.cons_append, walk_cons_of_true hTurn, ih h]
    | false => rw [List.cons_append, walk_cons_of_false hTurn, walk_cons_of_false hTurn]

/-- A loop in a loop is one loop. -/
theorem walk_flatten (ass : List (List α)) (s : σ) :
    walk (walk f) ass s = walk f ass.flatten s := by
  induction ass generalizing s with
  | nil => rfl
  | cons as ass ih =>
    rw [List.flatten_cons]
    cases hTurn : (walk f as s).1 with
    | true => rw [walk_cons_of_true hTurn, ih, walk_append_of_true hTurn]
    | false => rw [walk_cons_of_false hTurn, walk_append_of_false hTurn]

/-- The turns of a loop that passes over some elements. -/
def passing (g : β → Option α) (f : α → σ → Bool × σ) (b : β) (s : σ) : Bool × σ :=
  match g b with
  | some a => f a s
  | none => (true, s)

/-- Elements without an image are passed over. -/
theorem walk_passing (g : β → Option α) (bs : List β) (s : σ) :
    walk (passing g f) bs s = walk f (bs.filterMap g) s := by
  induction bs generalizing s with
  | nil => rfl
  | cons b bs ih =>
    rw [List.filterMap_cons]
    cases hTurn : g b with
    | none =>
      have hPass : passing g f b s = (true, s) := by rw [passing, hTurn]
      rw [walk_cons_of_true (by rw [hPass]), hPass, ih]
    | some a =>
      have hPass : passing g f b s = f a s := by rw [passing, hTurn]
      cases hEnd : (f a s).1 with
      | true => rw [walk_cons_of_true (by rw [hPass, hEnd]), hPass, walk_cons_of_true hEnd, ih]
      | false => rw [walk_cons_of_false (by rw [hPass, hEnd]), hPass, walk_cons_of_false hEnd]

/-- The elements that a loop gets to. -/
def reached (ok : α → Bool) : List α → List α
  | [] => []
  | a :: as => if ok a then a :: reached ok as else [a]

/-- A loop without a failure reaches everything. -/
theorem reached_of_all {ok : α → Bool} (h : as.all ok = true) : reached ok as = as := by
  induction as with
  | nil => rfl
  | cons a as ih =>
    rw [List.all_cons, Bool.and_eq_true] at h
    rw [reached, if_pos h.1, ih h.2]

/-- It reaches nothing else. -/
theorem reached_subset (ok : α → Bool) (as : List α) : ∀ a ∈ reached ok as, a ∈ as := by
  induction as with
  | nil => intro a ha; exact ha
  | cons a as ih =>
    intro b hb
    rw [reached] at hb
    split_ifs at hb
    · rcases List.mem_cons.mp hb with rfl | hb
      · exact List.mem_cons_self
      · exact List.mem_cons_of_mem _ (ih b hb)
    · obtain rfl := List.mem_singleton.mp hb
      exact List.mem_cons_self

/-- Where the state does not decide how a turn ends. -/
theorem walk_reached {ok : α → Bool} {g : σ → α → σ} (hTurn : ∀ a s, f a s = (ok a, g s a))
    (as : List α)
    (s : σ) : walk f as s = (as.all ok, (reached ok as).foldl g s) := by
  induction as generalizing s with
  | nil => rfl
  | cons a as ih =>
    rw [List.all_cons, reached]
    cases hOk : ok a with
    | true =>
      rw [walk_cons_of_true (by rw [hTurn, hOk]), ih, hTurn]
      rfl
    | false =>
      rw [walk_cons_of_false (by rw [hTurn, hOk]), hTurn, hOk]
      rfl

/-- A turn that looks at the place of its element only. -/
def atPlace [DecidableEq α] (h : α → ν → Bool × ν) (a : α) (s : α → ν) : Bool × (α → ν) :=
  ((h a (s a)).1, Function.update s a (h a (s a)).2)

/-- How the turn of an element ends, before the others had theirs. -/
def endsWell (h : α → ν → Bool × ν) (s : α → ν) (a : α) : Bool := (h a (s a)).1

theorem reached_congr {ok ok' : α → Bool} {as : List α} (h : ∀ a ∈ as, ok a = ok' a) :
    reached ok as = reached ok' as := by
  induction as with
  | nil => rfl
  | cons a as ih =>
    rw [reached, reached, h a List.mem_cons_self, ih fun b hb => h b (List.mem_cons_of_mem _ hb)]

/-- Where every element has a place of its own. -/
theorem walk_atPlace [DecidableEq α] (h : α → ν → Bool × ν) {as : List α} (hNodup : as.Nodup)
    (s : α → ν) :
    walk (atPlace h) as s =
      (as.all (endsWell h s),
        fun a => if a ∈ reached (endsWell h s) as then (h a (s a)).2 else s a) := by
  induction as generalizing s with
  | nil => rfl
  | cons a as ih =>
    obtain ⟨hNotMem, hRest⟩ := List.nodup_cons.mp hNodup
    rw [List.all_cons, reached]
    cases hOk : endsWell h s a with
    | true =>
      have hTurn : (atPlace h a s).1 = true := hOk
      -- the others have not been touched
      have hOthers : ∀ b ∈ as, (atPlace h a s).2 b = s b :=
        fun b hb => Function.update_of_ne (ne_of_mem_of_not_mem hb hNotMem) _ _
      have hEnds : ∀ b ∈ as, endsWell h (atPlace h a s).2 b = endsWell h s b := by
        intro b hb
        rw [endsWell, hOthers b hb, endsWell]
      have hAll : as.all (endsWell h (atPlace h a s).2) = as.all (endsWell h s) := by
        rw [Bool.eq_iff_iff, List.all_eq_true, List.all_eq_true]
        exact forall₂_congr fun b hb => by rw [hEnds b hb]
      rw [walk_cons_of_true hTurn, ih hRest, reached_congr hEnds, hAll]
      refine Prod.ext rfl (funext fun b => ?_)
      by_cases hSame : b = a
      · subst hSame
        have hNot : b ∉ reached (endsWell h s) as := fun hMem => hNotMem (reached_subset _ _ b hMem)
        dsimp only
        rw [if_neg hNot, if_pos rfl, if_pos List.mem_cons_self]
        exact Function.update_self ..
      · have hUntouched : (atPlace h a s).2 b = s b := Function.update_of_ne hSame _ _
        dsimp only
        rw [hUntouched]
        simp only [List.mem_cons, hSame, false_or, if_true]
    | false =>
      have hTurn : (atPlace h a s).1 = false := hOk
      rw [walk_cons_of_false hTurn]
      refine Prod.ext hOk (funext fun b => ?_)
      by_cases hSame : b = a
      · subst hSame
        exact (Function.update_self ..).trans (if_pos List.mem_cons_self).symm
      · refine (Function.update_of_ne hSame _ _).trans (if_neg ?_).symm
        simpa using hSame

/-- The last element of a list with a given key. -/
def lastWith [DecidableEq κ] (key : α → κ) (k : κ) (as : List α) : Option α :=
  as.reverse.find? fun a => key a = k

/-- A later element replaces the one that was found. -/
theorem lastWith_append [DecidableEq κ] (key : α → κ) (k : κ) (as : List α) (a : α) :
    lastWith key k (as ++ [a]) = if key a = k then some a else lastWith key k as := by
  unfold lastWith
  rw [List.reverse_append, List.reverse_singleton, List.singleton_append, List.find?_cons]
  by_cases h : key a = k <;> simp only [h, decide_true, decide_false, if_true, if_false]

theorem lastWith_some [DecidableEq κ] {key : α → κ} {k : κ} (h : lastWith key k as = some a) :
    a ∈ as ∧ key a = k := by
  have hMem := List.mem_of_find?_eq_some h
  have hKey := List.find?_some h
  exact ⟨List.mem_reverse.mp hMem, of_decide_eq_true hKey⟩

theorem lastWith_isSome [DecidableEq κ] {key : α → κ} (ha : a ∈ as) :
    (lastWith key (key a) as).isSome := by
  rw [lastWith, List.find?_isSome]
  exact ⟨a, List.mem_reverse.mpr ha, decide_eq_true rfl⟩

/-- What assignments in turn leave behind a key. -/
theorem foldl_update [DecidableEq κ] (key : α → κ) (value : α → ν) (as : List α)
    (g : κ → ν) (k : κ) :
    as.foldl (fun g a => Function.update g (key a) (value a)) g k =
      ((lastWith key k as).map value).getD (g k) := by
  induction as using List.reverseRecOn with
  | nil => rfl
  | append_singleton as a ih =>
    rw [List.foldl_append, lastWith_append]
    show Function.update (as.foldl (fun g a => Function.update g (key a) (value a)) g) (key a)
      (value a) k = _
    by_cases h : key a = k
    · subst h
      rw [Function.update_self, if_pos rfl]
      rfl
    · rw [Function.update_of_ne (Ne.symm h), if_neg h, ih]

end HectorCore.Lib
