import HectorCore.Lib.Run
import Mathlib.Algebra.Order.Ring.Int

/-!
# MemoryPool — slots from chunks

`lib/MemoryPool.h`. `Alloc` hands out the slots of the last chunk one after another, and makes a new
chunk when it is full; `Clear` frees all chunks. `used` counts the slots handed out of the last
chunk, and `Clear` leaves it as it is: unless the last chunk was full, the next `Alloc` takes a slot
of the last of no chunks.

* A chunk is known by its address: `new` returns the number of the chunks made before.
* `used` does not exceed `chunkSize`, so that both are an `Int`.
* `slots` is a history: what has been handed out since the last `Clear`.

Main result: `valid_slots_iff`.
-/

namespace HectorCore.Pool

open Lib (run AllOk allOk_iff_split run_history run_append_eq_some run_cons_eq_some)

/-- `&chunk[index]` -/
structure Slot where
  chunk : Nat
  index : Int
  deriving DecidableEq, Repr

structure MemoryPool where
  chunkSize : Int
  chunks : List Nat
  used : Int
  made : Nat

namespace MemoryPool

/-- The constructor. -/
def new (chunkSize : Int) : MemoryPool := { chunkSize, chunks := [], used := chunkSize, made := 0 }

/-- `chunks.push_back(new T[chunkSize]())` -/
def pushChunk (pool : MemoryPool) : MemoryPool :=
  { pool with chunks := pool.chunks ++ [pool.made], used := 0, made := pool.made + 1 }

/-- `Alloc`; there is no slot when `chunks.back()` is read and there are no chunks. -/
def alloc (pool : MemoryPool) : Option Slot × MemoryPool :=
  let pool := if pool.chunkSize ≤ pool.used then pool.pushChunk else pool
  let index := pool.used
  let pool := { pool with used := pool.used + 1 }
  (pool.chunks.getLast?.map fun chunk => ⟨chunk, index⟩, pool)

/-- `Clear` -/
def clear (pool : MemoryPool) : MemoryPool := { pool with chunks := [] }

end MemoryPool

inductive Call where
  | alloc
  | clear
  deriving DecidableEq, Repr

/-- The pool and its user. -/
structure State where
  pool : MemoryPool
  slots : List Slot

def init (chunkSize : Int) : State := ⟨MemoryPool.new chunkSize, []⟩

/-- Nothing follows an undefined access. -/
def step (s : State) : Call → Option State
  | .alloc => s.pool.alloc.1.map fun slot => ⟨s.pool.alloc.2, s.slots ++ [slot]⟩
  | .clear => some ⟨s.pool.clear, []⟩

/-- `Alloc` returns a slot of an existing chunk that has not been handed out since the last
`Clear`. -/
def HandsOut (s : State) : Call → Prop
  | .alloc => ∃ slot, s.pool.alloc.1 = some slot ∧ 0 ≤ slot.index ∧ slot.index < s.pool.chunkSize ∧
      slot.chunk ∈ s.pool.alloc.2.chunks ∧ slot ∉ s.slots
  | .clear => True

-- ---------------------------------------------------------------------------
-- One call
-- ---------------------------------------------------------------------------

/-- What holds of the pool after any calls. `used` goes round with the calls of `Alloc`; without a
chunk, nothing has been called since the constructor or the last `Clear`. -/
structure Inv (chunkSize : Int) (calls : List Call) (s : State) : Prop where
  size : s.pool.chunkSize = chunkSize
  used : 1 ≤ s.pool.used ∧ s.pool.used ≤ chunkSize
  round : chunkSize ∣ s.pool.used - (calls.count .alloc : Int)
  made : ∀ chunk ∈ s.pool.chunks, chunk < s.pool.made
  slots : ∀ slot ∈ s.slots, slot.chunk ∈ s.pool.chunks ∧
    (s.pool.chunks.getLast? = some slot.chunk → slot.index < s.pool.used)
  empty : s.pool.chunks = [] → calls = [] ∨ ∃ before, calls = before ++ [.clear]

variable {chunkSize : Int} {calls : List Call} {s s' : State}

/-- `Alloc` with a full chunk, or without any since the constructor. -/
theorem alloc_full (h : s.pool.chunkSize ≤ s.pool.used) :
    s.pool.alloc = (some ⟨s.pool.made, 0⟩, { s.pool.pushChunk with used := 1 }) := by
  unfold MemoryPool.alloc
  rw [if_pos h]
  simp [MemoryPool.pushChunk]

/-- `Alloc` with room in the last chunk. -/
theorem alloc_room (h : s.pool.used < s.pool.chunkSize) :
    s.pool.alloc = (s.pool.chunks.getLast?.map fun chunk => ⟨chunk, s.pool.used⟩,
      { s.pool with used := s.pool.used + 1 }) := by
  unfold MemoryPool.alloc
  rw [if_neg (not_le.mpr h)]

/-- A slot of a chunk that is not the last one stays behind the new slot. -/
theorem Inv.not_mem (h : Inv chunkSize calls s) {slot : Slot}
    (hSlot : s.pool.alloc.1 = some slot) : slot ∉ s.slots := by
  intro hMem
  obtain ⟨hChunk, hIndex⟩ := h.slots slot hMem
  by_cases hFull : s.pool.chunkSize ≤ s.pool.used
  · rw [alloc_full hFull] at hSlot
    cases hSlot
    exact absurd (h.made _ hChunk) (Nat.lt_irrefl _)
  · rw [alloc_room (not_le.mp hFull)] at hSlot
    obtain ⟨chunk, hLast, rfl⟩ := Option.map_eq_some_iff.mp hSlot
    exact absurd (hIndex hLast) (Int.lt_irrefl _)

/-- `Alloc` fails only without a chunk that could be full. -/
theorem Inv.handsOut_iff (h : Inv chunkSize calls s) :
    HandsOut s .alloc ↔ (s.pool.chunks = [] → s.pool.used = chunkSize) := by
  obtain ⟨hPos, hLe⟩ := h.used
  have hSize := h.size
  constructor
  · rintro ⟨slot, hSlot, -⟩ hEmpty
    by_contra hNot
    rw [alloc_room (by omega), hEmpty] at hSlot
    cases hSlot
  · intro hOk
    by_cases hFull : s.pool.chunkSize ≤ s.pool.used
    · have hRoom : (0 : Int) < s.pool.chunkSize := by omega
      refine ⟨⟨s.pool.made, 0⟩, by rw [alloc_full hFull], Int.le_refl 0, hRoom, ?_, ?_⟩
      · rw [alloc_full hFull]
        exact List.mem_append_right _ (List.mem_singleton_self _)
      · exact h.not_mem (by rw [alloc_full hFull])
    · have hRoom := alloc_room (not_le.mp hFull)
      have hSome : s.pool.chunks ≠ [] := fun hEmpty => hFull (by rw [hOk hEmpty, hSize])
      obtain ⟨chunk, hLast⟩ := Option.isSome_iff_exists.mp (List.getLast?_isSome.mpr hSome)
      have hSlot : s.pool.alloc.1 = some ⟨chunk, s.pool.used⟩ := by rw [hRoom, hLast]; rfl
      refine ⟨⟨chunk, s.pool.used⟩, hSlot, Int.le_trans (by decide) hPos, not_le.mp hFull, ?_, ?_⟩
      · rw [hRoom]
        exact List.mem_of_getLast? hLast
      · exact h.not_mem hSlot

theorem inv_init (hSize : 0 < chunkSize) : Inv chunkSize [] (init chunkSize) where
  size := rfl
  used := ⟨hSize, Int.le_refl _⟩
  round := by
    show chunkSize ∣ chunkSize - ((0 : Nat) : Int)
    simp
  made := fun _ hMem => absurd hMem List.not_mem_nil
  slots := fun _ hMem => absurd hMem List.not_mem_nil
  empty := fun _ => Or.inl rfl

theorem inv_clear (h : Inv chunkSize calls s) :
    Inv chunkSize (calls ++ [.clear]) ⟨s.pool.clear, []⟩ where
  size := h.size
  used := h.used
  round := by
    rw [List.count_append]
    exact h.round
  made := fun _ hMem => absurd hMem List.not_mem_nil
  slots := fun _ hMem => absurd hMem List.not_mem_nil
  empty := fun _ => Or.inr ⟨calls, rfl⟩

theorem inv_alloc (h : Inv chunkSize calls s) (hSize : 0 < chunkSize) {slot : Slot}
    (hSlot : s.pool.alloc.1 = some slot) :
    Inv chunkSize (calls ++ [.alloc]) ⟨s.pool.alloc.2, s.slots ++ [slot]⟩ := by
  obtain ⟨hPos, hLe⟩ := h.used
  have hChunkSize := h.size
  have hCount : ((calls ++ [Call.alloc]).count Call.alloc : Int) = calls.count Call.alloc + 1 := by
    rw [List.count_append]
    rfl
  by_cases hFull : s.pool.chunkSize ≤ s.pool.used
  · rw [alloc_full hFull] at hSlot ⊢
    cases hSlot
    refine ⟨hChunkSize, ⟨Int.le_refl 1, hSize⟩, ?_, ?_, ?_, fun hEmpty => ?_⟩
    · have hUsed : s.pool.used = chunkSize := Int.le_antisymm hLe (hChunkSize ▸ hFull)
      have hRound := Int.dvd_sub h.round (Int.dvd_refl chunkSize)
      rw [hCount]
      show chunkSize ∣ 1 - (_ + 1)
      rw [hUsed] at hRound
      convert hRound using 1
      omega
    · intro chunk hMem
      obtain hOld | hNew := List.mem_append.mp hMem
      · exact Nat.lt_succ_of_lt (h.made chunk hOld)
      · rw [List.mem_singleton.mp hNew]
        exact Nat.lt_succ_self _
    · intro slot hMem
      obtain hOld | hNew := List.mem_append.mp hMem
      · obtain ⟨hChunk, -⟩ := h.slots slot hOld
        refine ⟨List.mem_append_left _ hChunk, fun hLast => ?_⟩
        rw [MemoryPool.pushChunk, List.getLast?_concat, Option.some_inj] at hLast
        exact absurd (h.made _ hChunk) (by omega)
      · rw [List.mem_singleton.mp hNew]
        exact ⟨List.mem_append_right _ (List.mem_singleton_self _), fun _ => Int.zero_lt_one⟩
    · exact absurd hEmpty (List.append_ne_nil_of_right_ne_nil _ (List.cons_ne_nil _ _))
  · rw [alloc_room (not_le.mp hFull)] at hSlot ⊢
    obtain ⟨chunk, hLast, rfl⟩ := Option.map_eq_some_iff.mp hSlot
    have hMem := List.mem_of_getLast? hLast
    refine ⟨hChunkSize, ⟨by dsimp only; omega, by dsimp only; omega⟩, ?_, h.made, ?_,
      fun hEmpty => ?_⟩
    · rw [hCount]
      show chunkSize ∣ s.pool.used + 1 - (_ + 1)
      rw [Int.add_sub_add_right]
      exact h.round
    · intro slot hSlot
      obtain hOld | hNew := List.mem_append.mp hSlot
      · obtain ⟨hChunk, hIndex⟩ := h.slots slot hOld
        exact ⟨hChunk, fun hLast => Int.lt_trans (hIndex hLast) (Int.lt_succ _)⟩
      · rw [List.mem_singleton.mp hNew]
        exact ⟨hMem, fun _ => Int.lt_succ _⟩
    · exact absurd (hEmpty ▸ hMem) List.not_mem_nil

/-- **Any call.** -/
theorem inv_step (hSize : 0 < chunkSize) (calls : List Call) (a : Call) (s s' : State)
    (h : Inv chunkSize calls s) (hStep : step s a = some s') : Inv chunkSize (calls ++ [a]) s' := by
  cases a with
  | alloc =>
    obtain ⟨slot, hSlot, rfl⟩ := Option.map_eq_some_iff.mp hStep
    exact inv_alloc h hSize hSlot
  | clear =>
    cases Option.some.inj hStep
    exact inv_clear h

-- ---------------------------------------------------------------------------
-- Any calls
-- ---------------------------------------------------------------------------

theorem inv_run (hSize : 0 < chunkSize) (hRun : run step (init chunkSize) calls = some s) :
    Inv chunkSize calls s :=
  run_history (Inv chunkSize) (inv_init hSize) (inv_step hSize) hRun

/-- The last chunk is full if and only if so many slots have been handed out. -/
theorem Inv.full_iff (h : Inv chunkSize calls s) :
    s.pool.used = chunkSize ↔ chunkSize ∣ (calls.count .alloc : Int) := by
  obtain ⟨hPos, hLe⟩ := h.used
  constructor
  · intro hFull
    have hRound := Int.dvd_sub (Int.dvd_refl chunkSize) h.round
    rwa [hFull, Int.sub_sub_self] at hRound
  · intro hCount
    have hRound := Int.dvd_add h.round hCount
    rw [Int.sub_add_cancel] at hRound
    exact Int.le_antisymm hLe (Int.le_of_dvd (by omega) hRound)

theorem step_of_handsOut (s : State) (a : Call) (h : HandsOut s a) : ∃ s', step s a = some s' := by
  cases a with
  | alloc =>
    obtain ⟨slot, hSlot, -⟩ := h
    exact ⟨_, by rw [step, hSlot]; rfl⟩
  | clear => exact ⟨_, rfl⟩

/-- **When all slots are valid.** Every `Alloc` returns a slot of its own if and only if, whenever
it is called right after `Clear`, the last chunk was full: the slots handed out before, from the
constructor on, fill whole chunks. -/
theorem valid_slots_iff (hSize : 0 < chunkSize) (calls : List Call) :
    AllOk step HandsOut (init chunkSize) calls ↔
      ∀ before after, calls = before ++ .clear :: .alloc :: after →
        chunkSize ∣ (before.count .alloc : Int) := by
  constructor
  · rintro hAll before after rfl
    have hPrefix : AllOk step HandsOut (init chunkSize)
      ((before ++ [.clear]) ++ .alloc :: after) := by
      simpa using hAll
    obtain ⟨s', hRun⟩ := AllOk.run_prefix step_of_handsOut hPrefix
    have hNext := allOk_iff_split.mp hAll (before ++ [.clear]) .alloc after s' (by simp) hRun
    obtain ⟨s, hBefore, hClear⟩ := run_append_eq_some.mp hRun
    cases Option.some.inj hClear
    exact (inv_run hSize hBefore).full_iff.mp ((inv_run hSize hRun).handsOut_iff.mp hNext rfl)
  · intro hAligned
    refine allOk_iff_split.mpr fun before a after s' hSplit hRun => ?_
    cases a with
    | clear => trivial
    | alloc =>
      have hInv := inv_run hSize hRun
      refine hInv.handsOut_iff.mpr fun hEmpty => hInv.full_iff.mpr ?_
      obtain rfl | ⟨b, rfl⟩ := hInv.empty hEmpty
      · exact Int.dvd_zero chunkSize
      · rw [List.count_append]
        exact hAligned b after (by rw [hSplit, List.append_assoc]; rfl)

/-- Chunks of two slots: the first is full when they are cleared. -/
theorem valid_slots_iff_two :
    AllOk step HandsOut (init 2) [.alloc, .alloc, .clear, .alloc] ↔
      ∀ before after, [Call.alloc, .alloc, .clear, .alloc] = before ++ .clear :: .alloc :: after →
        (2 : Int) ∣ before.count .alloc :=
  valid_slots_iff (by decide) _

/-- It is half full: the next `Alloc` reads `chunks.back()` of no chunks. -/
theorem slot_of_no_chunk :
    ∃ s, run step (init 2) [.alloc, .clear] = some s ∧ s.pool.chunks = [] ∧ s.pool.used = 1 ∧
      s.pool.alloc.1 = none ∧ ¬ AllOk step HandsOut (init 2) [.alloc, .clear, .alloc] := by
  refine ⟨_, rfl, rfl, rfl, rfl, fun hAll => ?_⟩
  obtain ⟨slot, hSlot, -⟩ := allOk_iff_split.mp hAll [.alloc, .clear] .alloc [] _ rfl rfl
  cases hSlot

end HectorCore.Pool
