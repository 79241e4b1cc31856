import HectorCore.Lib.CText
import HectorCore.Perl.Interpreters

/-!
# Positions — what the interpreters know of themselves

The invariant of `lib/processing_engine/PerlInterpreters.cc`, call by call: every interpreter has
its place in the heap, once, and `count` is the number of times that it has been acquired and not
been released.

`count` is an `int`. The interpreter that is handed out is the one most used, so that it is always
the same one when nobody releases any: after 2^31 acquisitions its count is negative.

* `acquirePerl_cases`   — what `AcquirePerl` does to the counts;
* `exact_positions_iff` — when positions and counts are exact.
-/

namespace HectorCore.Perl

open Lib (run Always AllOk always_iff_allOk run_invariant run_history)
open Lib.Heap (parent)

/-- What should hold after every call. -/
structure Exact (s : Users) : Prop where
  position : ∀ i < s.perl.size, s.perl.interpreters.pos (s.perl.interpreters.first i) = i
  once : ∀ i < s.perl.size, ∀ j < s.perl.size,
    s.perl.interpreters.first i = s.perl.interpreters.first j → i = j
  ordered : ∀ i, 0 < i → i < s.perl.size →
    s.perl.compare (s.perl.interpreters.first (parent i)) (s.perl.interpreters.first i) = false
  counted : ∀ i < s.perl.size, (s.perl.count (s.perl.interpreters.first i)).toInt =
    s.held.count (s.perl.interpreters.first i)
  released : ∀ pi ∈ s.held, (s.step (.release pi)).isSome

/-- `AcquirePerl` does not hand out an interpreter that is held 2^31 - 1 times. -/
def Countable (s : Users) : Action → Prop
  | .acquire _ => s.perl.size = maxPerlInterpreters →
      s.held.count (s.perl.interpreters.first 0) < 2 ^ 31 - 1
  | .release _ => True

-- ---------------------------------------------------------------------------
-- The counts
-- ---------------------------------------------------------------------------

/-- The counts, as far as an `int` goes. -/
structure Counted (s : Users) : Prop where
  wf : s.WF
  count : ∀ pi, s.perl.Has pi → s.perl.count pi = Int32.ofNat (s.held.count pi)

/-- `AcquirePerl` makes a new interpreter that cannot be used, or one that is used once, or hands
out the one at the root. -/
theorem Interpreters.WF.acquirePerl_cases {s : Interpreters} (h : s.WF) (init : Bool) :
    (s.size < maxPerlInterpreters ∧ s.acquirePerl init = (none, s.new.2)) ∨
    (s.size < maxPerlInterpreters ∧ ∃ s', s.acquirePerl init = (some s.allocated, s') ∧
      (∀ q, s'.Has q ↔ s.Has q ∨ q = s.allocated) ∧
      s'.count = Function.update s.count s.allocated 1) ∨
    (s.size = maxPerlInterpreters ∧ ∃ s', s.acquirePerl init = (some (s.interpreters.first 0), s') ∧
      s'.size = s.size ∧ (∀ q, s'.Has q ↔ s.Has q) ∧
      s'.count = Function.update s.count (s.interpreters.first 0)
        (s.count (s.interpreters.first 0) + 1)) := by
  unfold Interpreters.acquirePerl
  split
  · rename_i hSize
    cases init with
    | false => exact Or.inl ⟨hSize, rfl⟩
    | true =>
      obtain ⟨hPushed, hMem⟩ := h.push_new hSize
      have hAllocated : (s.new.2.push s.new.1).Has s.allocated := (hMem _).mpr (Or.inr rfl)
      obtain ⟨-, hSame⟩ := hPushed.touch hAllocated
        ((s.new.2.push s.new.1).count s.allocated + 1)
      refine Or.inr (Or.inl ⟨hSize, _, rfl, fun q => (hSame q).trans (hMem q), ?_⟩)
      show Function.update (Function.update s.count s.allocated 0) s.allocated
        (Function.update s.count s.allocated 0 s.allocated + 1) = _
      rw [Function.update_self, Function.update_idem]
      rfl
  · rename_i hFull
    have hRoot : s.Has (s.interpreters.first 0) :=
      ⟨0, Nat.lt_of_lt_of_le (by decide) (not_lt.mp hFull), rfl⟩
    obtain ⟨-, hSame⟩ := h.touch hRoot (s.count (s.interpreters.first 0) + 1)
    exact Or.inr (Or.inr ⟨Nat.le_antisymm h.size (not_lt.mp hFull), _, rfl, rfl, hSame, rfl⟩)

namespace Users

variable {s s' : Users} {action : Action}

/-- What a call does: to the interpreters, their counts and those who hold them. -/
inductive Moves (s : Users) : Action → Users → Prop where
  | lost {init : Bool} (hSize : s.perl.size < maxPerlInterpreters) :
      Moves s (.acquire init) ⟨s.perl.new.2, s.held⟩
  | new {init : Bool} {perl : Interpreters} (hSize : s.perl.size < maxPerlInterpreters)
      (hHas : ∀ q, perl.Has q ↔ s.perl.Has q ∨ q = s.perl.allocated)
      (hCount : perl.count = Function.update s.perl.count s.perl.allocated 1) :
      Moves s (.acquire init) ⟨perl, s.perl.allocated :: s.held⟩
  | root {init : Bool} {perl : Interpreters} (hFull : s.perl.size = maxPerlInterpreters)
      (hHas : ∀ q, perl.Has q ↔ s.perl.Has q)
      (hCount : perl.count = Function.update s.perl.count (s.perl.interpreters.first 0)
        (s.perl.count (s.perl.interpreters.first 0) + 1)) :
      Moves s (.acquire init) ⟨perl, s.perl.interpreters.first 0 :: s.held⟩
  | release {pi : Nat} {perl : Interpreters} (hHeld : pi ∈ s.held)
      (hHas : ∀ q, perl.Has q ↔ s.perl.Has q)
      (hCount : perl.count = Function.update s.perl.count pi (s.perl.count pi - 1)) :
      Moves s (.release pi) ⟨perl, s.held.erase pi⟩

theorem WF.moves (h : s.WF) (hStep : s.step action = some s') : Moves s action s' := by
  cases action with
  | acquire init =>
    obtain ⟨hSize, hNone⟩ | ⟨hSize, perl, hNew, hHas, hCount⟩ |
      ⟨hFull, perl, hRoot, -, hHas, hCount⟩ := h.perl.acquirePerl_cases init
    · rw [Users.step, hNone] at hStep
      cases Option.some.inj hStep
      exact .lost hSize
    · rw [Users.step, hNew] at hStep
      cases Option.some.inj hStep
      exact .new hSize hHas hCount
    · rw [Users.step, hRoot] at hStep
      cases Option.some.inj hStep
      exact .root hFull hHas hCount
  | release pi =>
    unfold Users.step at hStep
    dsimp only at hStep
    split at hStep
    · rename_i hHeld
      obtain ⟨perl, hRelease, rfl⟩ := Option.map_eq_some_iff.mp hStep
      obtain ⟨-, hSame⟩ := h.perl.releasePerl (h.held pi hHeld) hRelease
      unfold Interpreters.releasePerl at hRelease
      dsimp only at hRelease
      split at hRelease
      · cases Option.some.inj hRelease
        exact .release hHeld hSame rfl
      · cases hRelease
    · cases hStep

/-- The next new interpreter is not held yet. -/
theorem WF.count_allocated (h : s.WF) : s.held.count s.perl.allocated = 0 :=
  List.count_eq_zero.mpr fun hMem => h.perl.not_has_allocated (h.held _ hMem)

end Users

variable {s s' : Users} {action : Action}

theorem Counted.step (h : Counted s) (hStep : s.step action = some s') : Counted s' := by
  refine ⟨h.wf.step hStep, ?_⟩
  have hOld : ∀ q, s.perl.Has q → q ≠ s.perl.allocated := fun q hq =>
    Nat.ne_of_lt (h.wf.perl.constructed q hq)
  cases h.wf.moves hStep with
  | lost hSize =>
    intro q hq
    exact (Function.update_of_ne (hOld q hq) ..).trans (h.count q hq)
  | new hSize hHas hCount =>
    intro q hq
    dsimp only at hq ⊢
    rw [hCount]
    obtain hOther | rfl := (hHas q).mp hq
    · rw [Function.update_of_ne (hOld q hOther), List.count_cons_of_ne (hOld q hOther).symm]
      exact h.count q hOther
    · rw [Function.update_self, List.count_cons_self, h.wf.count_allocated]
      rfl
  | root hFull hHas hCount =>
    intro q hq
    dsimp only at hq ⊢
    rw [hCount]
    by_cases hRoot : q = s.perl.interpreters.first 0
    · rw [hRoot, Function.update_self, List.count_cons_self, Int32.ofNat_add,
        ← h.count _ (hRoot ▸ (hHas q).mp hq)]
      rfl
    · rw [Function.update_of_ne hRoot, List.count_cons_of_ne (Ne.symm hRoot)]
      exact h.count q ((hHas q).mp hq)
  | @release pi perl hHeld hHas hCount =>
    intro q hq
    dsimp only at hq ⊢
    rw [hCount]
    by_cases hMine : q = pi
    · have hPos := List.count_pos_iff.mpr hHeld
      rw [hMine, Function.update_self, List.count_erase_self, Int32.ofNat_sub _ _ hPos,
        ← h.count _ (hMine ▸ (hHas q).mp hq)]
      rfl
    · rw [Function.update_of_ne hMine, List.count_erase_of_ne hMine]
      exact h.count q ((hHas q).mp hq)

theorem counted_init : Counted Users.init := by
  refine ⟨Users.init_wf, ?_⟩
  rintro pi ⟨i, hi, -⟩
  exact absurd hi (Nat.not_lt_zero i)

/-- A count is exact if an `int` can hold it. -/
theorem Counted.toInt_iff (h : Counted s) {pi : Nat} (hHas : s.perl.Has pi) :
    (s.perl.count pi).toInt = s.held.count pi ↔ s.held.count pi < 2 ^ 31 := by
  have hSize : Int32.size = 2 ^ 32 := rfl
  rw [h.count pi hHas, Int32.toInt_ofNat', hSize, Lib.bmod_eq_self_iff (by decide) (by omega)]
  omega

/-- The release of an interpreter that is held does not fail the assertion. -/
theorem Counted.release_isSome (h : Counted s) {pi : Nat} (hHeld : pi ∈ s.held)
    (hCount : s.held.count pi < 2 ^ 31) : (s.step (.release pi)).isSome := by
  have hPos := List.count_pos_iff.mpr hHeld
  have hOne : (1 : Int32) = Int32.ofNat 1 := rfl
  have hNonneg : (0 : Int32) ≤ s.perl.count pi - 1 := by
    rw [h.count pi (h.wf.held pi hHeld), Int32.le_iff_toInt_le, hOne,
      ← Int32.ofNat_sub _ _ hPos, Int32.toInt_ofNat_of_lt (by omega)]
    exact Int.natCast_nonneg _
  have hAfter : (((s.perl.decCount pi).updatePos pi).count pi) = s.perl.count pi - 1 :=
    Function.update_self ..
  rw [Users.step, if_pos hHeld, Interpreters.releasePerl, hAfter, if_pos hNonneg]
  rfl

/-- Only a count can be wrong. -/
theorem Counted.exact_iff (h : Counted s) :
    Exact s ↔ ∀ pi, s.perl.Has pi → s.held.count pi < 2 ^ 31 := by
  constructor
  · rintro hExact pi ⟨i, hi, rfl⟩
    exact (h.toInt_iff ⟨i, hi, rfl⟩).mp (hExact.counted i hi)
  · intro hFits
    refine ⟨h.wf.perl.accurate, fun i hi j hj hSame => h.wf.perl.once hi hj hSame, ?_, ?_, ?_⟩
    · intro i hPos hi
      have hOrder := h.wf.perl.ordered i hPos hi
      refine Bool.eq_false_iff.mpr fun hLess => ?_
      exact absurd ((Interpreters.compare_iff _ _).mp hLess) (not_lt.mpr hOrder)
    · intro i hi
      exact (h.toInt_iff ⟨i, hi, rfl⟩).mpr (hFits _ ⟨i, hi, rfl⟩)
    · intro pi hHeld
      exact h.release_isSome hHeld (hFits pi (h.wf.held pi hHeld))

/-- One call. -/
theorem Counted.exact_step (h : Counted s) (hExact : Exact s) (hStep : s.step action = some s') :
    Exact s' ↔ Countable s action := by
  have hFits := h.exact_iff.mp hExact
  rw [(h.step hStep).exact_iff]
  cases h.wf.moves hStep with
  | lost hSize =>
    exact iff_of_true hFits fun hFull => absurd hFull (Nat.ne_of_lt hSize)
  | new hSize hHas hCount =>
    refine iff_of_true (fun q hq => ?_) fun hFull => absurd hFull (Nat.ne_of_lt hSize)
    dsimp only at hq ⊢
    obtain hOld | rfl := (hHas q).mp hq
    · rw [List.count_cons_of_ne (Nat.ne_of_gt (h.wf.perl.constructed q hOld))]
      exact hFits q hOld
    · rw [List.count_cons_self, h.wf.count_allocated]
      decide
  | root hFull hHas hCount =>
    have hRoot : s.perl.Has (s.perl.interpreters.first 0) := ⟨0, hFull ▸ by decide, rfl⟩
    constructor
    · intro hAll _
      have hNext := hAll _ ((hHas _).mpr hRoot)
      dsimp only at hNext
      rw [List.count_cons_self] at hNext
      omega
    · intro hCountable q hq
      have hRoom := hCountable hFull
      dsimp only
      by_cases hMine : q = s.perl.interpreters.first 0
      · rw [hMine, List.count_cons_self]
        omega
      · rw [List.count_cons_of_ne (Ne.symm hMine)]
        exact hFits q ((hHas q).mp hq)
  | release hHeld hHas hCount =>
    refine iff_of_true (fun q hq => ?_) trivial
    exact Nat.lt_of_le_of_lt (List.erase_sublist.count_le q) (hFits q ((hHas q).mp hq))

/-- **When positions and counts are exact.** They are so after every call of a run if and only if no
call of `AcquirePerl` hands out an interpreter that is held 2^31 - 1 times already. -/
theorem exact_positions_iff {actions : List Action}
    (hRun : run Users.step Users.init actions = some s) :
    Always Users.step Exact Users.init actions ↔ AllOk Users.step Countable Users.init actions := by
  refine always_iff_allOk Counted (fun _ _ _ h hStep => h.step hStep)
    (fun _ _ _ h hExact hStep => h.exact_step hExact hStep) hRun counted_init ?_
  refine counted_init.exact_iff.mpr ?_
  rintro pi ⟨i, hi, -⟩
  exact absurd hi (Nat.not_lt_zero i)

theorem counted_run {actions : List Action} (hRun : run Users.step Users.init actions = some s) :
    Counted s :=
  run_invariant Counted (fun _ _ _ h hStep => h.step hStep) hRun counted_init

/-- Nobody holds more interpreters than there have been calls. -/
theorem held_length_le {actions : List Action} (hRun : run Users.step Users.init actions = some s) :
    s.held.length ≤ actions.length := by
  refine (run_history (fun actions s => s.WF ∧ s.held.length ≤ actions.length)
    ⟨Users.init_wf, Nat.le_refl 0⟩ ?_ hRun).2
  rintro actions action s s' ⟨hWF, hLength⟩ hStep
  refine ⟨hWF.step hStep, ?_⟩
  rw [List.length_append, List.length_singleton]
  cases hWF.moves hStep with
  | lost => exact Nat.le_succ_of_le hLength
  | new => exact Nat.succ_le_succ hLength
  | root => exact Nat.succ_le_succ hLength
  | release => exact Nat.le_succ_of_le (List.erase_sublist.length_le.trans hLength)

/-- It takes 2^31 calls for anything to go wrong. -/
theorem exact_of_short_run {actions : List Action}
    (hRun : run Users.step Users.init actions = some s)
    (hShort : actions.length < 2 ^ 31) : Exact s := by
  refine (counted_run hRun).exact_iff.mpr fun pi _ => ?_
  exact Nat.lt_of_le_of_lt List.count_le_length (Nat.lt_of_le_of_lt (held_length_le hRun) hShort)

-- ---------------------------------------------------------------------------
-- Nobody releases
-- ---------------------------------------------------------------------------

/-- The same interpreter is handed out again and again. -/
structure Favoured (s : Users) (n : Nat) : Prop where
  counted : Counted s
  full : s.perl.size = maxPerlInterpreters
  favourite : s.held.count (s.perl.interpreters.first 0) = n
  others : ∀ q, s.perl.Has q → q ≠ s.perl.interpreters.first 0 → s.held.count q = 1

theorem Favoured.has {n : Nat} (h : Favoured s n) : s.perl.Has (s.perl.interpreters.first 0) :=
  ⟨0, h.full ▸ by decide, rfl⟩

/-- It is handed out once more. -/
theorem Favoured.acquire {n : Nat} (h : Favoured s n) :
    ∃ perl, s.step (.acquire true) = some ⟨perl, s.perl.interpreters.first 0 :: s.held⟩ ∧
      perl.size = s.perl.size ∧ (∀ q, perl.Has q ↔ s.perl.Has q) ∧
      (s.perl.interpreters.first 0 :: s.held).count (s.perl.interpreters.first 0) = n + 1 := by
  obtain ⟨hSize, -⟩ | ⟨hSize, -⟩ | ⟨-, perl, hRoot, hSize, hHas, -⟩ :=
    h.counted.wf.perl.acquirePerl_cases true
  · exact absurd h.full (Nat.ne_of_lt hSize)
  · exact absurd h.full (Nat.ne_of_lt hSize)
  · refine ⟨perl, ?_, hSize, hHas, ?_⟩
    · rw [Users.step, hRoot]
    · rw [List.count_cons_self, h.favourite]

theorem Favoured.step {n : Nat} (h : Favoured s n) (hPos : 0 < n) (hLess : n + 1 < 2 ^ 31) :
    ∃ s', s.step (.acquire true) = some s' ∧ Favoured s' (n + 1) := by
  have hFull := h.full
  have hFavourite := h.has
  obtain ⟨perl, hStep, hSize, hHas, hCount⟩ := h.acquire
  have hCounted := h.counted.step hStep
  have hTop : perl.Has (perl.interpreters.first 0) := ⟨0, hSize ▸ hFull ▸ by decide, rfl⟩
  have hOthers : ∀ q, s.perl.Has q → q ≠ s.perl.interpreters.first 0 →
      (s.perl.interpreters.first 0 :: s.held).count q = 1 := by
    intro q hq hNe
    rw [List.count_cons_of_ne hNe.symm]
    exact h.others q hq hNe
  -- no other count is as great, so that it stays at the root
  have hStays : perl.interpreters.first 0 = s.perl.interpreters.first 0 := by
    by_contra hNe
    have hOne := hOthers _ ((hHas _).mp hTop) hNe
    have hLe := hCounted.wf.perl.le_root ((hHas _).mpr hFavourite)
    rw [Int32.le_iff_toInt_le] at hLe
    dsimp only at hLe
    rw [(hCounted.toInt_iff ((hHas _).mpr hFavourite)).mpr (by dsimp only; omega),
      (hCounted.toInt_iff hTop).mpr (by dsimp only; omega)] at hLe
    dsimp only at hLe
    omega
  refine ⟨_, hStep, hCounted, hSize.trans hFull, ?_, ?_⟩
  · dsimp only
    rw [hStays]
    exact hCount
  · intro q hq hNe
    dsimp only at hq hNe ⊢
    rw [hStays] at hNe
    exact hOthers q ((hHas q).mp hq) hNe

theorem run_favoured {n : Nat} (hLess : n + 1 < 2 ^ 31) :
    ∃ s, run Users.step Users.init (acquisitions (100 + n)) = some s ∧ Favoured s (n + 1) := by
  induction n with
  | zero =>
    obtain ⟨s, hRun, -, hSize, hOnce⟩ := run_acquisitions (n := 100) (le_refl _)
    have hShort : (acquisitions 100).length < 2 ^ 31 := by
      rw [acquisitions, List.length_replicate]
      decide
    have hExact := exact_of_short_run hRun hShort
    have hHeld : ∀ q, s.perl.Has q → s.held.count q = 1 := by
      rintro q ⟨i, hi, rfl⟩
      have hCount := hExact.counted i hi
      rw [hOnce _ ⟨i, hi, rfl⟩] at hCount
      exact Int.ofNat_inj.mp hCount.symm
    exact ⟨s, hRun, counted_run hRun, hSize, hHeld _ ⟨0, hSize ▸ by decide, rfl⟩,
      fun q hq _ => hHeld q hq⟩
  | succ n ih =>
    obtain ⟨s, hRun, hFavoured⟩ := ih (by omega)
    obtain ⟨s', hStep, hNext⟩ := hFavoured.step (Nat.succ_pos n) hLess
    exact ⟨s', run_acquisitions_succ hRun hStep, hNext⟩

/-- Up to the count 2^31 - 1 everything is exact. -/
theorem exact_up_to_overflow :
    (∃ s, run Users.step Users.init (acquisitions (2 ^ 31 + 98)) = some s) ∧
      Always Users.step Exact Users.init (acquisitions (2 ^ 31 + 98)) := by
  have hCountable : AllOk Users.step Countable Users.init (acquisitions (2 ^ 31 + 98)) := by
    refine allOk_acquisitions fun k hk s hRun hFull => ?_
    by_cases hFew : k ≤ maxPerlInterpreters
    · -- nobody is held that often after a hundred calls
      refine (List.count_le_length.trans (held_length_le hRun)).trans_lt ?_
      rw [acquisitions, List.length_replicate]
      exact hFew.trans_lt (by decide)
    · have hMany : 100 < k := Nat.lt_of_not_le hFew
      obtain ⟨n, rfl⟩ := Nat.exists_eq_add_of_le hMany.le
      obtain ⟨s', hRun', hFavoured⟩ := run_favoured (n := n) (by omega)
      cases hRun.symm.trans hRun'
      rw [hFavoured.favourite]
      omega
  obtain ⟨s, hRun, -⟩ := run_favoured (n := 2 ^ 31 - 2) (by decide)
  have hCalls : 100 + (2 ^ 31 - 2) = 2 ^ 31 + 98 := by decide
  rw [hCalls] at hRun
  exact ⟨⟨s, hRun⟩, (exact_positions_iff hRun).mpr hCountable⟩

/-- So many calls that the count of the same interpreter has become negative. -/
theorem count_overflows :
    ∃ s pi, run Users.step Users.init (acquisitions (2 ^ 31 + 99)) = some s ∧ s.perl.Has pi ∧
      s.held.count pi = 2 ^ 31 ∧ (s.perl.count pi).toInt < 0 ∧ ¬ Exact s := by
  obtain ⟨s, hRun, hFavoured⟩ := run_favoured (n := 2 ^ 31 - 2) (by decide)
  obtain ⟨perl, hStep, -, hHas, hNext⟩ := hFavoured.acquire
  have hCounted := hFavoured.counted.step hStep
  have hFavourite := (hHas _).mpr hFavoured.has
  have hCount : (s.perl.interpreters.first 0 :: s.held).count
    (s.perl.interpreters.first 0) = 2 ^ 31 :=
    hNext.trans (by omega)
  refine ⟨_, _, run_acquisitions_succ hRun hStep, hFavourite, hCount, ?_, fun hExact => ?_⟩
  · rw [hCounted.count _ hFavourite]
    dsimp only
    rw [hCount]
    decide
  · have hFits := hCounted.exact_iff.mp hExact _ hFavourite
    dsimp only at hFits
    rw [hCount] at hFits
    exact absurd hFits (Nat.lt_irrefl _)

end HectorCore.Perl
