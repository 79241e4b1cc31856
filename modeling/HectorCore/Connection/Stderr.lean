import HectorCore.Lib.Run
import Mathlib.Data.List.TakeWhile

/-!
# Stderr — the buffer for what the child complains about

The part of `ProcessConnection::ReadWrite` (`lib/ProcessConnection.cc`) that reads the standard
error of the child. What has been read is logged up to the last line terminator, and the rest is
moved to the front of the buffer.

* `buffer` are the first `stderr_buffer_len` bytes; the others are never looked at.
* `stderr_buffer_len` is an `Int`. The length of a copy is an `Int` as well: as the `size_t` that
  `memcpy` takes, a negative one is larger than any memory.
* A copy of negative length or of overlapping areas is not defined; nothing follows it.
* `received`, `logged` and `copied` are histories.

Main result: `logged_completely_iff`. When the buffer is full, it is cut behind its last byte, and
the copy has the length -1.
-/

namespace HectorCore.Connection

open Lib (run Always AllOk always_iff_allOk)

/-- `sizeof(stderr_buffer)-1` -/
def capacity : Nat := 1023

def cr : UInt8 := 13
def lf : UInt8 := 10

/-- `memrchr` -/
def memrchr (c : UInt8) : List UInt8 → Option Nat
  | [] => none
  | b :: bs =>
    match memrchr c bs with
    | some i => some (i + 1)
    | none => if b = c then some 0 else none

/-- `cr > lf ? cr : lf`, where `NULL` is less than any other. -/
def later : Option Nat → Option Nat → Option Nat
  | none, lf => lf
  | some cr, none => some cr
  | some cr, some lf => if lf < cr then some cr else some lf

/-- `last`, as an index: the last terminator, or the end of a full buffer. -/
def cut (buffer : List UInt8) : Option Nat :=
  if buffer.length = capacity then some capacity
  else later (memrchr cr buffer) (memrchr lf buffer)

structure Stderr where
  buffer : List UInt8
  len : Int
  received : List UInt8
  logged : List (List UInt8)
  copied : List Int
  undefined : Bool
  deriving DecidableEq

namespace Stderr

def init : Stderr := ⟨[], 0, [], [], [], false⟩

/-- A copy of `length` bytes from `last + 1` to the front. -/
def copyDefined (last : Nat) (length : Int) : Bool := 0 ≤ length && length ≤ last + 1

/-- A chunk has been read, `r > 0`. -/
def receive (s : Stderr) (chunk : List UInt8) : Stderr :=
  let buffer := s.buffer ++ chunk
  let len := s.len + chunk.length
  let received := s.received ++ chunk
  match cut buffer with
  | none => { s with buffer, len, received }
  | some last =>
    let length := len - (last + 1)
    { buffer := buffer.drop (last + 1), len := length, received
      logged := s.logged ++ [(buffer.take last).takeWhile (· ≠ 0)]
      copied := s.copied ++ [length]
      undefined := !copyDefined last length }

/-- `read` returns so many bytes that there is room for. -/
def step (s : Stderr) (chunk : List UInt8) : Option Stderr :=
  if s.undefined = false ∧ chunk ≠ [] ∧ chunk.length ≤ capacity - s.len then some (s.receive chunk)
  else none

/-- Not a line terminator. -/
def isText (b : UInt8) : Bool := b ≠ cr && b ≠ lf

/-- What has been received is logged or in the buffer, within its bounds. -/
structure Complete (s : Stderr) : Prop where
  defined : s.undefined = false
  bounds : 0 ≤ s.len ∧ s.len ≤ capacity
  copied : ∀ length ∈ s.copied, 0 ≤ length
  text : s.received.filter isText = (s.logged.flatten ++ s.buffer).filter isText

/-- The chunk does not fill the buffer, and if there is a terminator then, there is no zero byte in
front of the last one, and what is behind it is not longer than what is in front. -/
def Harmless (s : Stderr) (chunk : List UInt8) : Prop :=
  s.len + chunk.length < capacity ∧
    ∀ last ∈ cut (s.buffer ++ chunk),
      0 ∉ (s.buffer ++ chunk).take last ∧ s.len + chunk.length - (last + 1) ≤ last + 1

theorem copyDefined_iff {last : Nat} {length : Int} :
    (!copyDefined last length) = false ↔ 0 ≤ length ∧ length ≤ last + 1 := by
  simp [copyDefined]

/-- `stderr_buffer_len` is the number of bytes in the buffer. -/
def Counts (s : Stderr) : Prop := s.undefined = false → s.len = s.buffer.length

-- ---------------------------------------------------------------------------
-- The cut
-- ---------------------------------------------------------------------------

theorem memrchr_spec {c : UInt8} {bs : List UInt8} {i : Nat} (h : memrchr c bs = some i) :
    i < bs.length ∧ bs = bs.take i ++ c :: bs.drop (i + 1) := by
  induction bs generalizing i with
  | nil => cases h
  | cons b bs ih =>
    rw [memrchr] at h
    split at h
    · rename_i j hj
      cases h
      obtain ⟨hLt, hSplit⟩ := ih hj
      exact ⟨Nat.succ_lt_succ hLt, congrArg (b :: ·) hSplit⟩
    · split at h
      · rename_i hSame
        cases h
        exact ⟨Nat.zero_lt_succ _, by simp [hSame]⟩
      · cases h

theorem later_spec {o o' : Option Nat} {i : Nat} (h : later o o' = some i) :
    o = some i ∨ o' = some i := by
  unfold later at h
  split at h
  · exact Or.inr h
  · exact Or.inl h
  · split at h
    · exact Or.inl h
    · exact Or.inr h

/-- What is on both sides of a terminator. -/
theorem filter_split {buffer : List UInt8} {i : Nat} {c : UInt8} (hc : isText c = false)
    (h : buffer = buffer.take i ++ c :: buffer.drop (i + 1)) :
    buffer.filter isText =
      (buffer.take i).filter isText ++ (buffer.drop (i + 1)).filter isText := by
  have hFilter := congrArg (List.filter isText) h
  rwa [List.filter_append (buffer.take i), List.filter_cons_of_neg (by simp [hc])] at hFilter

/-- Where the buffer is cut if it is not full: at a terminator. -/
theorem cut_spec {buffer : List UInt8} {last : Nat} (hFull : buffer.length ≠ capacity)
    (h : cut buffer = some last) :
    last < buffer.length ∧ buffer.filter isText =
      (buffer.take last).filter isText ++ (buffer.drop (last + 1)).filter isText := by
  rw [cut, if_neg hFull] at h
  obtain hCr | hLf := later_spec h
  · obtain ⟨hLt, hSplit⟩ := memrchr_spec hCr
    exact ⟨hLt, filter_split rfl hSplit⟩
  · obtain ⟨hLt, hSplit⟩ := memrchr_spec hLf
    exact ⟨hLt, filter_split rfl hSplit⟩

/-- What is printed of a line is all of its text, if there is no zero byte. -/
theorem filter_takeWhile_eq_iff (line : List UInt8) :
    (line.takeWhile (· ≠ 0)).filter isText = line.filter isText ↔ 0 ∉ line := by
  induction line with
  | nil => simp
  | cons b bs ih =>
    by_cases hZero : b = 0
    · subst hZero
      simp [isText, cr, lf]
    · have hNonzero : decide (b ≠ 0) = true := decide_eq_true hZero
      rw [List.takeWhile_cons, hNonzero, if_pos rfl]
      have hMem : 0 ∉ b :: bs ↔ 0 ∉ bs := by simp [Ne.symm hZero]
      cases hText : isText b with
      | true =>
        rw [List.filter_cons_of_pos hText, List.filter_cons_of_pos hText,
          List.cons_inj_right,
          ih, hMem]
      | false =>
        have hNot : ¬ isText b = true := by simp [hText]
        rw [List.filter_cons_of_neg hNot, List.filter_cons_of_neg hNot, ih, hMem]

-- ---------------------------------------------------------------------------
-- One chunk
-- ---------------------------------------------------------------------------

section Step

variable {s s' : Stderr} {chunk : List UInt8}

theorem step_eq (h : s.step chunk = some s') :
    s.undefined = false ∧ chunk.length ≤ capacity - s.len ∧ s' = s.receive chunk := by
  unfold step at h
  split at h
  · rename_i hEnabled
    exact ⟨hEnabled.1, hEnabled.2.2, (Option.some.inj h).symm⟩
  · cases h

theorem Counts.step (hCounts : s.Counts) (h : s.step chunk = some s') : s'.Counts := by
  obtain ⟨hDefined, -, rfl⟩ := step_eq h
  have hLen := hCounts hDefined
  unfold receive
  dsimp only
  split
  · intro _
    simp [hLen]
  · intro hCopy
    have hCopy := (copyDefined_iff.mp hCopy).1
    simp only [List.length_drop, List.length_append]
    omega

/-- A chunk that fills the buffer leads to a copy of length -1; another one is handled completely
if it is harmless. -/
theorem complete_step_iff (hCounts : s.Counts) (hComplete : s.Complete)
    (h : s.step chunk = some s') : s'.Complete ↔ s.Harmless chunk := by
  obtain ⟨hDefined, hRoom, rfl⟩ := step_eq h
  have hLen := hCounts hDefined
  have hBuffer : s.len + chunk.length = (s.buffer ++ chunk).length := by simp [hLen]
  have hReceived : (s.received ++ chunk).filter isText =
      (s.logged.flatten ++ (s.buffer ++ chunk)).filter isText := by
    rw [← List.append_assoc, List.filter_append, hComplete.text, ← List.filter_append]
  unfold receive Harmless
  rw [hBuffer]
  dsimp only
  by_cases hFull : (s.buffer ++ chunk).length = capacity
  · -- the cut is behind the last byte: the copy has the length -1
    have hCut : cut (s.buffer ++ chunk) = some capacity := if_pos hFull
    refine iff_of_false ?_ fun hHarmless => absurd hHarmless.1 (by omega)
    rw [hCut]
    intro hAfter
    have hNegative : ((s.buffer ++ chunk).length : Int) - ((capacity : Int) + 1) < 0 := by omega
    exact absurd (copyDefined_iff.mp hAfter.defined).1 (by omega)
  · have hShort : ((s.buffer ++ chunk).length : Int) < capacity := by omega
    cases hCut : cut (s.buffer ++ chunk) with
    | none =>
      refine iff_of_true ⟨hDefined, by dsimp only; omega, hComplete.copied, hReceived⟩ ?_
      exact ⟨hShort, nofun⟩
    | some last =>
      obtain ⟨hLast, hText⟩ := cut_spec hFull hCut
      have hDropped : ((s.buffer ++ chunk).length : Int) - ((last : Int) + 1) ≥ 0 := by omega
      generalize s.buffer ++ chunk = buffer at *
      constructor
      · intro hAfter
        refine ⟨hShort, ?_⟩
        rintro _ ⟨⟩
        refine ⟨?_, (copyDefined_iff.mp hAfter.defined).2⟩
        have hAll := hAfter.text
        simp only [hReceived, List.flatten_append, List.filter_append, hText, List.append_assoc,
          List.append_cancel_left_eq, List.flatten_cons, List.flatten_nil, List.append_nil,
          List.append_cancel_right_eq] at hAll
        exact (filter_takeWhile_eq_iff _).mp hAll.symm
      · rintro ⟨-, hHarmless⟩
        obtain ⟨hZero, hOverlap⟩ := hHarmless last rfl
        refine ⟨copyDefined_iff.mpr ⟨hDropped, hOverlap⟩, ⟨hDropped, by dsimp only; omega⟩, ?_, ?_⟩
        · intro length hLength
          obtain hOld | hNew := List.mem_append.mp hLength
          · exact hComplete.copied length hOld
          · exact List.mem_singleton.mp hNew ▸ hDropped
        · simp only [hReceived, List.flatten_append, List.filter_append, hText, List.append_assoc,
            List.flatten_cons, List.flatten_nil, List.append_nil,
            (filter_takeWhile_eq_iff _).mpr hZero]

end Step

end Stderr

/-- All along a run everything is logged or in the buffer if and only if the chunks are harmless. -/
theorem logged_completely_iff {chunks : List (List UInt8)} {s : Stderr}
    (hRun : run Stderr.step Stderr.init chunks = some s) :
    Always Stderr.step Stderr.Complete Stderr.init chunks ↔
      AllOk Stderr.step Stderr.Harmless Stderr.init chunks :=
  always_iff_allOk Stderr.Counts (fun _ _ _ hs hStep => hs.step hStep)
    (fun _ _ _ hs hComplete hStep => Stderr.complete_step_iff hs hComplete hStep) hRun
    (fun _ => rfl) ⟨rfl, by decide, nofun, rfl⟩

/-- `a\nb`, in two chunks -/
theorem logged_completely_iff_line :
    ∃ s, run Stderr.step Stderr.init [[97, 10], [98]] = some s ∧
      (Always Stderr.step Stderr.Complete Stderr.init [[97, 10], [98]] ↔
        AllOk Stderr.step Stderr.Harmless Stderr.init [[97, 10], [98]]) :=
  have hRun : run Stderr.step Stderr.init [[97, 10], [98]] =
      some ⟨[98], 1, [97, 10, 98], [[97]], [0], false⟩ := by decide
  ⟨_, hRun, logged_completely_iff hRun⟩

/-- 1023 bytes without a terminator fill the buffer. -/
theorem full_buffer :
    ∃ s, run Stderr.step Stderr.init [List.replicate capacity 97] = some s ∧ s.len = -1 ∧
      -1 ∈ s.copied ∧ ¬ Always Stderr.step Stderr.Complete Stderr.init
        [List.replicate capacity 97] := by
  have hStep : Stderr.init.step (List.replicate capacity 97) =
      some (Stderr.init.receive (List.replicate capacity 97)) := by
    refine if_pos ⟨rfl, List.ne_nil_of_length_pos ?_, ?_⟩
    · rw [List.length_replicate]
      decide
    · rw [List.length_replicate]
      decide
  have hCut : cut (Stderr.init.buffer ++ List.replicate capacity 97) = some capacity :=
    if_pos (List.length_replicate ..)
  have hLen : (Stderr.init.receive (List.replicate capacity 97)).len = -1 ∧
      -1 ∈ (Stderr.init.receive (List.replicate capacity 97)).copied := by
    unfold Stderr.receive
    simp only [hCut, List.length_replicate]
    decide
  refine ⟨_, ?_, hLen.1, hLen.2, fun hAlways => ?_⟩
  · rw [run, hStep]
    rfl
  · have hComplete := (hAlways.2 _ hStep).head
    exact absurd (hComplete.copied _ hLen.2) (by decide)

end HectorCore.Connection
