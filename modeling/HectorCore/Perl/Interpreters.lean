import HectorCore.Lib.Run
import HectorCore.Perl.HeapPlus

/-!
# Interpreters — who shares a Perl interpreter with whom

`AcquirePerl` and `ReleasePerl` of `lib/processing_engine/PerlInterpreters.cc`, with the use counts
and heap positions of `PerlResourceInterpreter.h`. Interpreters are made until there are a hundred;
then the one at the root of the heap is handed out once more. `PerlResourceInterpreter_Compare` is
the comparison of a heap with the greatest element at the root, so that is the one most used.

* `WF.touch`, `WF.push`, `WF.acquirePerl`, `WF.releasePerl` — every call keeps the heap;
* `WF.least_root_iff`    — the root is one of the least used only if all are used alike;
* `shared_evenly_iff`    — when the calls of a run get the least used interpreters.
-/

namespace HectorCore.Perl

open Lib (run AllOk allOk_iff_split allOk_congr run_cons_eq_some run_append_eq_some)
open Lib.Heap (Ordered)

/-- `MAX_PERL_INTERPRETERS` -/
def maxPerlInterpreters : Nat := 100

/-- `PerlInterpreters`: `interpreters` and its size, with `position` and `count` of the objects, and
the number of objects that have been constructed. -/
structure Interpreters where
  interpreters : Cells Nat
  size : Nat
  count : Nat → Int32
  allocated : Nat

namespace Interpreters

def init : Interpreters := ⟨⟨fun _ => 0, fun _ => 0⟩, 0, fun _ => 0, 0⟩

/-- `PerlResourceInterpreter_Compare` -/
def compare (s : Interpreters) (a b : Nat) : Bool := s.count a < s.count b

/-- `PerlResourceInterpreter()` -/
def new (s : Interpreters) : Nat × Interpreters :=
  (s.allocated, { s with
    interpreters := { s.interpreters with pos := Function.update s.interpreters.pos s.allocated 0 }
    count := Function.update s.count s.allocated 0
    allocated := s.allocated + 1 })

/-- `push_back`, `push_heap` -/
def push (s : Interpreters) (pi : Nat) : Interpreters :=
  let interpreters :=
    { s.interpreters with first := Function.update s.interpreters.first s.size pi }
  { s with interpreters := pushHeap s.compare (s.size + 1) interpreters, size := s.size + 1 }

def setCount (s : Interpreters) (pi : Nat) (count : Int32) : Interpreters :=
  { s with count := Function.update s.count pi count }

/-- `IncCount` -/
def incCount (s : Interpreters) (pi : Nat) : Interpreters := s.setCount pi (s.count pi + 1)

/-- `DecCount` -/
def decCount (s : Interpreters) (pi : Nat) : Interpreters := s.setCount pi (s.count pi - 1)

/-- `update_heap_pos`, at `GetHeapPosition()`. -/
def updatePos (s : Interpreters) (pi : Nat) : Interpreters :=
  { s with interpreters :=
      updateHeapPos s.compare s.size (s.interpreters.pos pi) s.interpreters }

/-- `AcquirePerl`; `init` is the answer of `pi->Init()`. -/
def acquirePerl (s : Interpreters) (init : Bool) : Option Nat × Interpreters :=
  if s.size < maxPerlInterpreters then
    let (pi, s) := s.new
    if init then (some pi, ((s.push pi).incCount pi).updatePos pi)
    else (none, s)
  else
    let pi := s.interpreters.first 0
    (some pi, (s.incCount pi).updatePos pi)

/-- `ReleasePerl`; a failed assertion ends in `none`. -/
def releasePerl (s : Interpreters) (pi : Nat) : Option Interpreters :=
  let s := (s.decCount pi).updatePos pi
  -- assert(pi->GetCount() >= 0)
  if 0 ≤ s.count pi then some s else none

-- ---------------------------------------------------------------------------
-- The heap
-- ---------------------------------------------------------------------------

/-- The interpreter is in `interpreters`. -/
def Has (s : Interpreters) (pi : Nat) : Prop := ∃ j < s.size, s.interpreters.first j = pi

/-- The interpreters are a heap, each of them is there once and knows its place. -/
structure WF (s : Interpreters) : Prop where
  size : s.size ≤ maxPerlInterpreters
  ordered : Ordered (fun pi => (s.count pi).toInt) s.size s.interpreters.first
  accurate : Accurate s.size s.interpreters
  once : Set.InjOn s.interpreters.first (Set.Iio s.size)
  constructed : ∀ pi, s.Has pi → pi < s.allocated

variable {s s' : Interpreters} {pi : Nat}

theorem compare_iff (a b : Nat) : s.compare a b = true ↔ (s.count a).toInt < (s.count b).toInt := by
  simp [compare, Int32.lt_iff_toInt_lt]

theorem init_wf : init.WF :=
  ⟨Nat.zero_le _, fun _ _ hLen => absurd hLen (Nat.not_lt_zero _),
    fun _ hLen => absurd hLen (Nat.not_lt_zero _), fun _ hi => absurd hi (Nat.not_lt_zero _),
    fun _ hHas => absurd hHas.choose_spec.1 (Nat.not_lt_zero _)⟩

/-- What is left to do behind a call of `heapplus.h`. -/
theorem WF.of_heaped {f : Nat → Nat} (hSize : s.size ≤ maxPerlInterpreters)
    (hHeaped : Heaped (fun pi => (s.count pi).toInt) f s.size s.interpreters)
    (hOnce : Set.InjOn f (Set.Iio s.size)) (hConstructed : ∀ j < s.size, f j < s.allocated) :
    s.WF ∧ ∀ pi, s.Has pi ↔ ∃ j < s.size, f j = pi := by
  have hMem : ∀ pi, s.Has pi ↔ ∃ j < s.size, f j = pi := fun pi => hHeaped.rearranged.mem_iff
  refine ⟨⟨hSize, hHeaped.ordered, hHeaped.accurate, hHeaped.rearranged.injOn hOnce, ?_⟩, hMem⟩
  intro pi hHas
  obtain ⟨j, hj, rfl⟩ := (hMem pi).mp hHas
  exact hConstructed j hj

/-- The use count of an interpreter changes. -/
theorem WF.touch (h : s.WF) (hHas : s.Has pi) (count : Int32) :
    ((s.setCount pi count).updatePos pi).WF ∧
      ∀ q, ((s.setCount pi count).updatePos pi).Has q ↔ s.Has q := by
  obtain ⟨i, hi, rfl⟩ := hHas
  refine WF.of_heaped h.size ?_ h.once fun j hj => h.constructed _ ⟨j, hj, rfl⟩
  refine updateHeapPos_heaped compare_iff h.once h.ordered h.accurate ?_ ?_
  · exact (h.accurate i hi).symm ▸ hi
  · intro j hj hNe
    have hOther : s.interpreters.first j ≠ s.interpreters.first i :=
      fun hSame => hNe ((h.once hj hi hSame).trans (h.accurate i hi).symm)
    exact congrArg Int32.toInt (Function.update_of_ne hOther ..)

/-- A constructed interpreter is put into the heap. -/
theorem WF.push (h : s.WF) (hSize : s.size < maxPerlInterpreters) (hNew : ¬ s.Has pi)
    (hConstructed : pi < s.allocated) :
    (s.push pi).WF ∧ ∀ q, (s.push pi).Has q ↔ s.Has q ∨ q = pi := by
  have hFirst : ∀ j < s.size,
      Function.update s.interpreters.first s.size pi j = s.interpreters.first j :=
    fun j hj => Function.update_of_ne (Nat.ne_of_lt hj) ..
  have hOnce := Lib.Heap.injOn_push h.once fun j hj hSame => hNew ⟨j, hj, hSame⟩
  have hOrdered : Ordered (fun pi => (s.count pi).toInt) s.size
      (Function.update s.interpreters.first s.size pi) := by
    intro j hj hLen
    rw [hFirst j hLen, hFirst _ ((Lib.Heap.parent_lt hj).trans hLen)]
    exact h.ordered j hj hLen
  have hAccurate : Accurate s.size
      ⟨Function.update s.interpreters.first s.size pi, s.interpreters.pos⟩ := by
    intro j hj
    dsimp only
    rw [hFirst j hj]
    exact h.accurate j hj
  obtain ⟨hWF, hMem⟩ := WF.of_heaped (s := s.push pi) hSize
    (pushHeap_heaped compare_iff hOnce hOrdered hAccurate) hOnce (by
      intro j hj
      obtain hOld | hLast := Lib.Heap.mem_push.mp ⟨j, hj, rfl⟩
      · exact h.constructed _ hOld
      · exact lt_of_eq_of_lt hLast hConstructed)
  exact ⟨hWF, fun q => (hMem q).trans Lib.Heap.mem_push⟩

/-- The root is one of the interpreters most used. -/
theorem WF.le_root (h : s.WF) {q : Nat} (hHas : s.Has q) :
    s.count q ≤ s.count (s.interpreters.first 0) := by
  obtain ⟨j, hj, rfl⟩ := hHas
  exact Int32.le_iff_toInt_le.mpr (h.ordered.le_root hj)

/-- None of the interpreters is used less. -/
def Least (s : Interpreters) (pi : Nat) : Prop := s.Has pi ∧ ∀ q, s.Has q → s.count pi ≤ s.count q

/-- All interpreters are used alike. -/
def Alike (s : Interpreters) : Prop := ∀ p q, s.Has p → s.Has q → s.count p = s.count q

theorem WF.least_root_iff (h : s.WF) (hSize : 0 < s.size) :
    s.Least (s.interpreters.first 0) ↔ s.Alike := by
  have hRoot : s.Has (s.interpreters.first 0) := ⟨0, hSize, rfl⟩
  constructor
  · rintro ⟨-, hLeast⟩
    have hSame : ∀ q, s.Has q → s.count q = s.count (s.interpreters.first 0) :=
      fun q hq => Int32.le_antisymm (h.le_root hq) (hLeast q hq)
    exact fun p q hp hq => (hSame p hp).trans (hSame q hq).symm
  · intro hAlike
    exact ⟨hRoot, fun q hq => Int32.le_of_eq (hAlike _ q hRoot hq)⟩

-- ---------------------------------------------------------------------------
-- AcquirePerl, ReleasePerl
-- ---------------------------------------------------------------------------

theorem WF.not_has_allocated (h : s.WF) : ¬ s.Has s.allocated :=
  fun hHas => Nat.lt_irrefl _ (h.constructed _ hHas)

/-- A new interpreter is not in the heap yet: one that cannot be used is lost. -/
theorem WF.new (h : s.WF) : s.new.2.WF ∧ ∀ q, s.new.2.Has q ↔ s.Has q := by
  have hNew : ∀ j < s.size, s.interpreters.first j ≠ s.allocated :=
    fun j hj hSame => h.not_has_allocated ⟨j, hj, hSame⟩
  refine ⟨⟨h.size, ?_, ?_, h.once, ?_⟩, fun _ => Iff.rfl⟩
  · intro j hj hLen
    have hUp := Lib.Heap.parent_lt hj
    simp only [Interpreters.new, Function.update_of_ne (hNew j hLen),
      Function.update_of_ne (hNew _ (hUp.trans hLen))]
    exact h.ordered j hj hLen
  · intro j hj
    simp only [Interpreters.new, Function.update_of_ne (hNew j hj)]
    exact h.accurate j hj
  · exact fun pi hHas => (h.constructed pi hHas).trans (Nat.lt_succ_self _)

/-- A new interpreter is put into the heap. -/
theorem WF.push_new (h : s.WF) (hSize : s.size < maxPerlInterpreters) :
    (s.new.2.push s.new.1).WF ∧
      ∀ q, (s.new.2.push s.new.1).Has q ↔ s.Has q ∨ q = s.allocated := by
  obtain ⟨hWF, hSame⟩ := h.new
  obtain ⟨hPushed, hMem⟩ := hWF.push hSize (fun hHas => h.not_has_allocated ((hSame _).mp hHas))
    (Nat.lt_succ_self _)
  exact ⟨hPushed, fun q => (hMem q).trans (or_congr_left (hSame q))⟩

/-- A call of `AcquirePerl` keeps the heap and the interpreters in it. -/
theorem WF.acquirePerl (h : s.WF) (init : Bool) :
    (s.acquirePerl init).2.WF ∧ (∀ q, s.Has q → (s.acquirePerl init).2.Has q) ∧
      ∀ pi ∈ (s.acquirePerl init).1, (s.acquirePerl init).2.Has pi := by
  unfold Interpreters.acquirePerl
  split
  · rename_i hSize
    cases init with
    | false =>
      obtain ⟨hWF, hMem⟩ := h.new
      exact ⟨hWF, fun q => (hMem q).mpr, nofun⟩
    | true =>
      obtain ⟨hPushed, hMem⟩ := h.push_new hSize
      obtain ⟨hWF, hSame⟩ := hPushed.touch ((hMem s.allocated).mpr (Or.inr rfl))
        ((s.new.2.push s.new.1).count s.allocated + 1)
      refine ⟨hWF, fun q hq => (hSame q).mpr ((hMem q).mpr (Or.inl hq)), ?_⟩
      rintro pi ⟨⟩
      exact (hSame _).mpr ((hMem _).mpr (Or.inr rfl))
  · rename_i hFull
    have hRoot : s.Has (s.interpreters.first 0) :=
      ⟨0, Nat.lt_of_lt_of_le (by decide) (not_lt.mp hFull), rfl⟩
    obtain ⟨hWF, hSame⟩ := h.touch hRoot (s.count (s.interpreters.first 0) + 1)
    refine ⟨hWF, fun q hq => (hSame q).mpr hq, ?_⟩
    rintro pi ⟨⟩
    exact (hSame _).mpr hRoot

/-- Once there are enough interpreters, the one at the root is handed out. -/
theorem acquirePerl_full (hFull : s.size = maxPerlInterpreters) (init : Bool) :
    (s.acquirePerl init).1 = some (s.interpreters.first 0) := by
  rw [acquirePerl, if_neg (Nat.not_lt.mpr hFull.ge)]

theorem WF.releasePerl (h : s.WF) (hHas : s.Has pi) (hRelease : s.releasePerl pi = some s') :
    s'.WF ∧ ∀ q, s'.Has q ↔ s.Has q := by
  unfold Interpreters.releasePerl at hRelease
  dsimp only at hRelease
  split at hRelease
  · cases hRelease
    exact h.touch hHas _
  · cases hRelease

end Interpreters

-- ---------------------------------------------------------------------------
-- Runs
-- ---------------------------------------------------------------------------

/-- The interpreters, and those that have been acquired and not been released, once for each
time. -/
structure Users where
  perl : Interpreters
  held : List Nat

inductive Action where
  | acquire (init : Bool)
  | release (pi : Nat)

namespace Users

def init : Users := ⟨Interpreters.init, []⟩

/-- An interpreter can only be released by somebody who has acquired it. -/
def step (s : Users) : Action → Option Users
  | .acquire init =>
    match s.perl.acquirePerl init with
    | (some pi, perl) => some ⟨perl, pi :: s.held⟩
    | (none, perl) => some ⟨perl, s.held⟩
  | .release pi =>
    if pi ∈ s.held then (s.perl.releasePerl pi).map fun perl => ⟨perl, s.held.erase pi⟩ else none

/-- `AcquirePerl` returns an interpreter that is not used more than any other, if it cannot make a
new one. -/
def GetsLeast (s : Users) : Action → Prop
  | .acquire init => s.perl.size = maxPerlInterpreters →
      ∃ pi, (s.perl.acquirePerl init).1 = some pi ∧ s.perl.Least pi
  | .release _ => True

/-- `AcquirePerl` finds all interpreters used alike, if it cannot make a new one. -/
def FindsAlike (s : Users) : Action → Prop
  | .acquire _ => s.perl.size = maxPerlInterpreters → s.perl.Alike
  | .release _ => True

structure WF (s : Users) : Prop where
  perl : s.perl.WF
  held : ∀ pi ∈ s.held, s.perl.Has pi

variable {s s' : Users} {action : Action}

theorem init_wf : init.WF := ⟨Interpreters.init_wf, nofun⟩

theorem step_acquire {init : Bool} {pi : Nat} (h : (s.perl.acquirePerl init).1 = some pi) :
    s.step (.acquire init) = some ⟨(s.perl.acquirePerl init).2, pi :: s.held⟩ := by
  cases hAcquire : s.perl.acquirePerl init with
  | mk o perl =>
    rw [hAcquire] at h
    cases h
    simp [step, hAcquire]

theorem WF.step (h : s.WF) (hStep : s.step action = some s') : s'.WF := by
  cases action with
  | acquire init =>
    obtain ⟨hWF, hKept, hNew⟩ := h.perl.acquirePerl init
    unfold Users.step at hStep
    dsimp only at hStep
    split at hStep
    · rename_i pi perl hAcquire
      rw [hAcquire] at hWF hKept hNew
      cases hStep
      refine ⟨hWF, fun q hq => ?_⟩
      obtain rfl | hq := List.mem_cons.mp hq
      · exact hNew q rfl
      · exact hKept q (h.held q hq)
    · rename_i perl hAcquire
      rw [hAcquire] at hWF hKept
      cases hStep
      exact ⟨hWF, fun q hq => hKept q (h.held q hq)⟩
  | release pi =>
    unfold Users.step at hStep
    dsimp only at hStep
    split at hStep
    · rename_i hHeld
      obtain ⟨perl, hRelease, rfl⟩ := Option.map_eq_some_iff.mp hStep
      obtain ⟨hWF, hSame⟩ := h.perl.releasePerl (h.held pi hHeld) hRelease
      exact ⟨hWF, fun q hq => (hSame q).mpr (h.held q (List.mem_of_mem_erase hq))⟩
    · cases hStep

theorem WF.getsLeast_iff (h : s.WF) : s.GetsLeast action ↔ s.FindsAlike action := by
  cases action with
  | release => exact Iff.rfl
  | acquire init =>
    refine imp_congr_right fun hFull => ?_
    rw [Interpreters.acquirePerl_full hFull init]
    have hSize : 0 < s.perl.size := hFull ▸ by decide
    rw [← h.perl.least_root_iff hSize]
    constructor
    · rintro ⟨pi, ⟨⟩, hLeast⟩
      exact hLeast
    · exact fun hLeast => ⟨_, rfl, hLeast⟩

end Users

-- ---------------------------------------------------------------------------
-- Nobody releases
-- ---------------------------------------------------------------------------

/-- A new interpreter is used once. -/
theorem Interpreters.WF.acquire_new {s : Interpreters} (h : s.WF)
    (hSize : s.size < maxPerlInterpreters)
    (hOnce : ∀ q, s.Has q → s.count q = 1) :
    (s.acquirePerl true).1 = some s.allocated ∧ (s.acquirePerl true).2.size = s.size + 1 ∧
      ∀ q, (s.acquirePerl true).2.Has q → (s.acquirePerl true).2.count q = 1 := by
  obtain ⟨hPushed, hMem⟩ := h.push_new hSize
  have hAllocated : (s.new.2.push s.new.1).Has s.allocated := (hMem s.allocated).mpr (Or.inr rfl)
  rw [Interpreters.acquirePerl, if_pos hSize]
  refine ⟨rfl, rfl, fun q hq => ?_⟩
  obtain hOld | rfl := (hMem q).mp (((hPushed.touch hAllocated _).2 q).mp hq)
  · have hNe : q ≠ s.allocated := Nat.ne_of_lt (h.constructed q hOld)
    show Function.update (Function.update s.count s.allocated 0) s.allocated _ q = 1
    rw [Function.update_of_ne hNe, Function.update_of_ne hNe]
    exact hOnce q hOld
  · show Function.update (Function.update s.count s.allocated 0) s.allocated
      (Function.update s.count s.allocated 0 s.allocated + 1) s.allocated = 1
    rw [Function.update_self, Function.update_self]
    rfl

/-- So many calls of `AcquirePerl`, all successful. -/
def acquisitions (n : Nat) : List Action := List.replicate n (.acquire true)

theorem run_acquisitions_succ {n : Nat} {s s' : Users}
    (hRun : run Users.step Users.init (acquisitions n) = some s)
    (hStep : s.step (.acquire true) = some s') :
    run Users.step Users.init (acquisitions (n + 1)) = some s' := by
  rw [acquisitions, List.replicate_succ', run_append_eq_some]
  exact ⟨s, hRun, run_cons_eq_some.mpr ⟨s', hStep, rfl⟩⟩

theorem run_acquisitions {n : Nat} (hn : n ≤ maxPerlInterpreters) :
    ∃ s, run Users.step Users.init (acquisitions n) = some s ∧ s.WF ∧ s.perl.size = n ∧
      ∀ q, s.perl.Has q → s.perl.count q = 1 := by
  induction n with
  | zero =>
    refine ⟨Users.init, rfl, Users.init_wf, rfl, ?_⟩
    rintro q ⟨j, hj, -⟩
    exact absurd hj (Nat.not_lt_zero j)
  | succ n ih =>
    obtain ⟨s, hRun, hWF, rfl, hOnce⟩ := ih (Nat.le_of_succ_le hn)
    obtain ⟨hNew, hSize, hOnce⟩ := hWF.perl.acquire_new hn hOnce
    have hStep : s.step (.acquire true) =
        some ⟨(s.perl.acquirePerl true).2, s.perl.allocated :: s.held⟩ :=
      Users.step_acquire hNew
    exact ⟨_, run_acquisitions_succ hRun hStep, hWF.step hStep, hSize, hOnce⟩

/-- A condition is met by such calls if each of them meets it behind the calls before it. -/
theorem allOk_acquisitions {ok : Users → Action → Prop} {n : Nat}
    (h : ∀ k < n, ∀ s, run Users.step Users.init (acquisitions k) = some s →
      ok s (.acquire true)) : AllOk Users.step ok Users.init (acquisitions n) := by
  refine allOk_iff_split.mpr fun before a after s hSplit hRun => ?_
  obtain ⟨hLength, hSame⟩ := List.eq_replicate_iff.mp hSplit.symm
  have ha : a = .acquire true := hSame a (by simp)
  have hBefore : before = acquisitions before.length :=
    List.eq_replicate_iff.mpr ⟨rfl, fun b hb => hSame b (List.mem_append_left _ hb)⟩
  rw [List.length_append, List.length_cons] at hLength
  rw [ha]
  exact h before.length (by omega) s (hBefore ▸ hRun)

/-- The calls of `AcquirePerl` in a run that cannot make a new interpreter get one of the least used
ones if and only if each of them finds all interpreters used alike: it gets one of the most used. -/
theorem shared_evenly_iff {actions : List Action} {s : Users}
    (hRun : run Users.step Users.init actions = some s) :
    AllOk Users.step Users.GetsLeast Users.init actions ↔
      AllOk Users.step Users.FindsAlike Users.init actions :=
  allOk_congr Users.WF (fun _ _ _ hs _ hStep => hs.step hStep)
    (fun _ _ _ hs _ => hs.getsLeast_iff) hRun Users.init_wf

/-- The 101st call, too, finds the hundred interpreters used alike, once each. -/
theorem shared_evenly_once_more :
    (∃ s, run Users.step Users.init (acquisitions 101) = some s) ∧
      AllOk Users.step Users.GetsLeast Users.init (acquisitions 101) := by
  have hAlike : AllOk Users.step Users.FindsAlike Users.init (acquisitions 101) := by
    refine allOk_acquisitions fun k hk s hRun _ p q hp hq => ?_
    obtain ⟨s', hRun', -, -, hOnce⟩ :=
      run_acquisitions (show k ≤ maxPerlInterpreters from Nat.le_of_lt_succ hk)
    cases hRun.symm.trans hRun'
    exact (hOnce p hp).trans (hOnce q hq).symm
  obtain ⟨s, hRun, -, hSize, -⟩ := run_acquisitions (n := 100) (le_refl _)
  have hMore := run_acquisitions_succ hRun
    (Users.step_acquire (Interpreters.acquirePerl_full hSize true))
  exact ⟨⟨_, hMore⟩, (shared_evenly_iff hMore).mpr hAlike⟩

/-- After 101 calls one of the hundred interpreters is used twice, and the next call returns it. -/
theorem shared_unevenly :
    ∃ s, run Users.step Users.init (acquisitions 101) = some s ∧
      s.perl.size = maxPerlInterpreters ∧ ¬ s.GetsLeast (.acquire true) := by
  obtain ⟨s, hRun, hWF, hSize, hOnce⟩ := run_acquisitions (n := 100) (le_refl _)
  obtain ⟨root, hRootEq⟩ : ∃ root, root = s.perl.interpreters.first 0 := ⟨_, rfl⟩
  have hFull : ¬ s.perl.size < maxPerlInterpreters := hSize ▸ by decide
  have hAcquire : s.perl.acquirePerl true = (some root, (s.perl.incCount root).updatePos root) := by
    rw [Interpreters.acquirePerl, if_neg hFull, hRootEq]
  have hStep : s.step (.acquire true) = some ⟨(s.perl.acquirePerl true).2, root :: s.held⟩ :=
    Users.step_acquire (congrArg Prod.fst hAcquire)
  rw [hAcquire] at hStep
  have hRoot : s.perl.Has root := ⟨0, by omega, hRootEq.symm⟩
  have hOther : s.perl.Has (s.perl.interpreters.first 1) := ⟨1, by omega, rfl⟩
  have hNe : s.perl.interpreters.first 1 ≠ root := by
    intro hSame
    have hZero : (0 : Nat) ∈ Set.Iio s.perl.size := by simp [hSize]
    have hFirst : (1 : Nat) ∈ Set.Iio s.perl.size := by simp [hSize]
    exact absurd (hWF.perl.once hFirst hZero (hSame.trans hRootEq)) (by decide)
  obtain ⟨-, hSame⟩ := hWF.perl.touch hRoot (s.perl.count root + 1)
  refine ⟨⟨(s.perl.incCount root).updatePos root, root :: s.held⟩,
    run_acquisitions_succ hRun hStep, hSize, ?_⟩
  intro hLeast
  have hAlike := (hWF.step hStep).getsLeast_iff.mp hLeast hSize root _
    ((hSame _).mpr hRoot) ((hSame _).mpr hOther)
  have hTwice : Function.update s.perl.count root (s.perl.count root + 1) root =
      Function.update s.perl.count root (s.perl.count root + 1) (s.perl.interpreters.first 1) :=
    hAlike
  rw [Function.update_self, Function.update_of_ne hNe, hOnce _ hRoot, hOnce _ hOther] at hTwice
  exact absurd hTwice (by decide)

end HectorCore.Perl
