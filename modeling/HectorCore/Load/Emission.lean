import HectorCore.Load.Checkpoint
import HectorCore.Registry.Abort
import HectorCore.Stream.Output

/-!
# Emission — what repeated calls of ProcessInputSync return

A module with `wait = false` and `mark >= 0` is meant to return the records of its file, then one
marker, then nothing. `ProcessInputSync` does not remember that it has come to the end: after the
marker it calls `DeserializeResource` again, on what the failed call has left of the stream.

* `skipItems` is zero for ever: the constructor does not add a property of this name.
* `DeserializeResource` does not come back from a record of type zero (`Registry.Abort`).

The result is `emits_records_then_marker_iff`.
-/

namespace HectorCore.Load

open HectorCore.Stream (InputStream Protobuf Resource acquireResource)

variable {M : Type}

-- ---------------------------------------------------------------------------
-- Repeated calls of DeserializeResource
-- ---------------------------------------------------------------------------

section Decoded

variable (pb : Protobuf M) (resourceType : UInt32) (ids : Nat → Int32) (stream : InputStream)

/-- What is left of the stream after `n` calls. -/
def streamAfter : Nat → InputStream
  | 0 => stream
  | n + 1 => ((streamAfter n).deserializeResource pb resourceType (ids n)).2

/-- What call `n` returns. -/
def decoded (n : Nat) : Option (Resource M) :=
  ((streamAfter pb resourceType ids stream n).deserializeResource pb resourceType (ids n)).1.map
    Prod.fst

end Decoded

/-- The type of the next record is read from the stream, and is zero. -/
def typeIsZero (resourceType : UInt32) (stream : InputStream) : Bool :=
  resourceType == 0 && stream.readVarint32.1.any fun type => type &&& 0x7f == 0

namespace State

/-- The call of `ProcessInputSync` fails the assertion of `LoadResourceLibrary`. -/
def aborts (m : State) : Bool :=
  !(m.maxItems ≠ 0 && m.items ≥ m.maxItems) && m.stream.any (typeIsZero m.resourceType)

section Calls

variable (pb : Protobuf M) (sleep : Bool) (ids : Nat → Int32) (m : State)

/-- The module after `n` calls of `ProcessInputSync`. -/
def afterCalls : Nat → State
  | 0 => m
  | n + 1 => ((afterCalls n).processInputSync pb sleep (ids n)).2

/-- What call `n` returns. -/
def result (n : Nat) : Outcome M :=
  ((m.afterCalls pb sleep ids n).processInputSync pb sleep (ids n)).1

end Calls

end State

/-- The marker of the module. -/
def marker (id : Int32) (mark : Int) : Resource M := ⟨id, 0, .markerResource (Int32.ofInt mark)⟩

/-- **Load emits the records followed by one marker**: at most `maxItems` resources, in the order of
the file, then the marker, then only NULL; and every call comes back. -/
def EmitsRecordsThenMarker (pb : Protobuf M) (sleep : Bool) (ids : Nat → Int32)
    (stream : InputStream) (m : State) : Prop :=
  (∀ n, (m.afterCalls pb sleep ids n).aborts = false) ∧
    ∃ k, (m.maxItems ≠ 0 → k ≤ m.maxItems.toNat) ∧
      (∀ n < k, ∃ r, decoded pb m.resourceType ids stream n = some r ∧
        m.result pb sleep ids n = .resource r) ∧
      m.result pb sleep ids k = .resource (marker (ids k) m.mark) ∧
      ∀ n, k < n → m.result pb sleep ids n = .null

/-- Call `n` of `DeserializeResource` returns NULL. -/
def Ends (pb : Protobuf M) (resourceType : UInt32) (ids : Nat → Int32) (stream : InputStream)
    (n : Nat) : Prop :=
  decoded pb resourceType ids stream n = none ∧
    typeIsZero resourceType (streamAfter pb resourceType ids stream n) = false

/-- The files of which nothing is decoded any more after the first failure, or of which so much is
decoded that the module stops before it. -/
def EndsForGood (pb : Protobuf M) (resourceType : UInt32) (ids : Nat → Int32)
    (stream : InputStream) (maxItems : Int) : Prop :=
  maxItems < 0 ∨
    (0 < maxItems ∧ ∀ n < maxItems.toNat, (decoded pb resourceType ids stream n).isSome) ∨
    ∃ k, (∀ n < k, (decoded pb resourceType ids stream n).isSome) ∧
      ∀ n, k ≤ n → Ends pb resourceType ids stream n

-- ---------------------------------------------------------------------------
-- One call
-- ---------------------------------------------------------------------------

/-- A record of type zero is not decoded. -/
theorem read_typeZero {pb : Protobuf M} {id : Int32} {stream : InputStream} {type : UInt32}
    (hType : stream.readVarint32.1 = some type) (hZero : type &&& 0x7f = 0) :
    (stream.read pb 0 id).1 = none := by
  cases stream with
  | binary s =>
    rw [InputStream.read_binary_eq_none, HectorCore.Stream.deserializeResource, Lib.Reader.bind_run,
      HectorCore.Stream.readType, if_pos rfl, Lib.Reader.bind_run]
    rcases hRead : HectorCore.Stream.readVarint32 s.source with _ | ⟨value, source⟩
    · rfl
    · rw [InputStream.readVarint32, hRead] at hType
      obtain rfl := Option.some.inj hType
      simp only [Option.bind_some, pure, StateT.pure, hZero]
      rfl
  | text is =>
    have hRead : (HectorCore.Stream.Text.readVarint32 is).1 = some type := hType
    rw [InputStream.read, HectorCore.Stream.Text.deserializeResource,
      HectorCore.Stream.Text.readType, if_pos rfl]
    dsimp only
    rw [hRead, Option.map_some]
    dsimp only
    rw [hZero]
    rfl

/-- `ByteCount` changes a stream only if nothing can be read from it. -/
theorem readVarint32_byteCount {pb : Protobuf M} {stream : InputStream} {type : UInt32}
    (hType : stream.readVarint32.1 = some type) : (stream.byteCount pb).2 = stream := by
  cases stream with
  | binary s => rfl
  | text is =>
    have hGood : is.good = true := by
      by_contra hBad
      rw [InputStream.readVarint32, HectorCore.Stream.Text.readVarint32,
        HectorCore.Stream.IStream.extract, if_neg hBad] at hType
      exact absurd hType (by simp)
    show InputStream.text is.tellg.2 = _
    rw [HectorCore.Stream.IStream.tellg, if_pos hGood]

theorem typeIsZero_of_decoded {pb : Protobuf M} {resourceType : UInt32} {id : Int32}
    {stream : InputStream} (h : (stream.deserializeResource pb resourceType id).1 ≠ none) :
    typeIsZero resourceType stream = false := by
  by_contra hZero
  rw [Bool.not_eq_false, typeIsZero, Bool.and_eq_true, beq_iff_eq] at hZero
  obtain ⟨rfl, hAny⟩ := hZero
  rcases hType : stream.readVarint32.1 with _ | type
  · rw [hType] at hAny
    exact absurd hAny (by simp)
  · rw [hType, Option.any_some, beq_iff_eq] at hAny
    refine h ?_
    rw [InputStream.deserializeResource]
    dsimp only
    rw [readVarint32_byteCount hType]
    have hNone : (stream.read pb 0 id).1 = none := read_typeZero hType hAny
    split
    · rfl
    · rename_i hRead
      rw [hRead] at hNone
      exact absurd hNone (by simp)

section OneCall

variable {pb : Protobuf M} {sleep : Bool} {id : Int32} {resourceType : UInt32} {m : State}
  {stream stream' : InputStream}

/-- The limit on the number of items has been reached. -/
def State.Full (m : State) : Prop := m.maxItems ≠ 0 ∧ m.maxItems ≤ m.items

theorem processInputSync_full (h : m.Full) :
    m.processInputSync pb sleep id = m.emitMark id := by
  rw [State.processInputSync, if_pos ⟨h.1, h.2⟩]

theorem skipLoop_zero (hSkip : m.skipItems = 0) :
    State.skipLoop pb sleep id m.skipItems.toNat m = (none, m) := by
  rw [hSkip]
  rfl

theorem processInputSync_decoded (h : ¬ m.Full) (hSkip : m.skipItems = 0)
    (hType : m.resourceType = resourceType) (hStream : m.stream = some stream)
    {r : Resource M} {size : Int}
    (hRead : stream.deserializeResource pb resourceType id = (some (r, size), stream')) :
    m.processInputSync pb sleep id =
      (.resource r,
        { m with
          byteCount := m.byteCount + UInt64.ofInt size, items := m.items + 1
          stream := some stream' }) := by
  rw [State.processInputSync, if_neg (fun hFull => h ⟨hFull.1, hFull.2⟩), skipLoop_zero hSkip]
  simp only [hStream, Option.map_some, hType, hRead]

theorem processInputSync_failed (h : ¬ m.Full) (hSkip : m.skipItems = 0) (hWait : m.wait = false)
    (hType : m.resourceType = resourceType) (hStream : m.stream = some stream)
    (hRead : stream.deserializeResource pb resourceType id = (none, stream')) :
    m.processInputSync pb sleep id = State.emitMark id { m with stream := some stream' } := by
  rw [State.processInputSync, if_neg (fun hFull => h ⟨hFull.1, hFull.2⟩), skipLoop_zero hSkip]
  simp only [hStream, Option.map_some, hType, hRead, hWait, Bool.and_false,
    Bool.false_eq_true, if_false]

theorem aborts_eq_false_of_full (h : m.Full) : m.aborts = false := by
  rw [State.aborts, decide_eq_true h.1, decide_eq_true (show m.items ≥ m.maxItems from h.2)]
  rfl

theorem aborts_eq (h : ¬ m.Full) (hStream : m.stream = some stream) :
    m.aborts = typeIsZero m.resourceType stream := by
  have hLimit : (decide (m.maxItems ≠ 0) && decide (m.items ≥ m.maxItems)) = false := by
    rw [Bool.and_eq_false_iff, decide_eq_false_iff_not, decide_eq_false_iff_not]
    exact Decidable.not_and_iff_or_not.mp h
  rw [State.aborts, hLimit, hStream]
  rfl

end OneCall

-- ---------------------------------------------------------------------------
-- All calls
-- ---------------------------------------------------------------------------

/-- The properties of the module that the calls read, and what its file is. -/
structure Opened (stream : InputStream) (m : State) : Prop where
  wait : m.wait = false
  mark : 0 ≤ m.mark
  skipItems : m.skipItems = 0
  items : m.items = 0
  markEmmited : m.markEmmited = false
  stream : m.stream = some stream

/-- The module `m` after `n` calls of `DeserializeResource`, of which `items` have succeeded. -/
structure ReadTo (pb : Protobuf M) (ids : Nat → Int32) (stream : InputStream) (m₀ : State)
    (n items : Nat) (marked : Bool) (m : State) : Prop where
  resourceType : m.resourceType = m₀.resourceType
  maxItems : m.maxItems = m₀.maxItems
  mark : m.mark = m₀.mark
  wait : m.wait = false
  skipItems : m.skipItems = 0
  items : m.items = items
  markEmmited : m.markEmmited = marked
  stream : m.stream = some (streamAfter pb m₀.resourceType ids stream n)

section Calls

variable {pb : Protobuf M} {sleep : Bool} {ids : Nat → Int32} {stream : InputStream} {m₀ m : State}
  {n items : Nat} {marked : Bool}

theorem ReadTo.full_iff (h : ReadTo pb ids stream m₀ n items marked m) :
    m.Full ↔ m₀.maxItems ≠ 0 ∧ m₀.maxItems ≤ items := by
  rw [State.Full, h.maxItems, h.items]

theorem ReadTo.not_full (h : ReadTo pb ids stream m₀ n items marked m)
    (hLimit : m₀.maxItems ≠ 0 → items < m₀.maxItems.toNat) : ¬ m.Full := by
  rw [h.full_iff]
  rintro ⟨hNe, hLe⟩
  have hLt := hLimit hNe
  omega

/-- A record is decoded. -/
theorem ReadTo.next (h : ReadTo pb ids stream m₀ n items marked m) (hFull : ¬ m.Full)
    {r : Resource M} (hRead : decoded pb m₀.resourceType ids stream n = some r) :
    (m.processInputSync pb sleep (ids n)).1 = .resource r ∧
      ReadTo pb ids stream m₀ (n + 1) (items + 1) marked
        (m.processInputSync pb sleep (ids n)).2 := by
  obtain ⟨⟨r', size⟩, hSome, rfl⟩ := Option.map_eq_some_iff.mp hRead
  have hCall : m.processInputSync pb sleep (ids n) = _ :=
    processInputSync_decoded hFull h.skipItems h.resourceType h.stream (Prod.ext hSome rfl)
  rw [hCall]
  refine ⟨rfl, h.resourceType, h.maxItems, h.mark, h.wait, h.skipItems, ?_, h.markEmmited, rfl⟩
  show m.items + 1 = _
  rw [h.items]
  rfl

/-- None is, and the marker is due. -/
theorem ReadTo.endOfFile (h : ReadTo pb ids stream m₀ n items marked m) (hFull : ¬ m.Full)
    (hMark : 0 ≤ m₀.mark) (hRead : decoded pb m₀.resourceType ids stream n = none) :
    (m.processInputSync pb sleep (ids n)).1 =
        (if marked then .null else .resource (marker (ids n) m₀.mark)) ∧
      ReadTo pb ids stream m₀ (n + 1) items true (m.processInputSync pb sleep (ids n)).2 := by
  have hCall : m.processInputSync pb sleep (ids n) = _ :=
    processInputSync_failed hFull h.skipItems h.wait h.resourceType h.stream
      (Prod.ext (Option.map_eq_none_iff.mp hRead) rfl)
  rw [hCall, State.emitMark]
  cases marked with
  | true =>
    rw [if_neg (by simp [h.markEmmited])]
    exact ⟨rfl, h.resourceType, h.maxItems, h.mark, h.wait, h.skipItems, h.items,
      h.markEmmited, rfl⟩
  | false =>
    rw [if_pos ⟨by rw [h.mark]; exact hMark, by simp [h.markEmmited]⟩]
    refine ⟨?_, h.resourceType, h.maxItems, h.mark, h.wait, h.skipItems, h.items, rfl, rfl⟩
    show Outcome.resource (marker (ids n) m.mark) = _
    rw [h.mark]
    rfl

theorem ReadTo.aborts_eq (h : ReadTo pb ids stream m₀ n items marked m) (hFull : ¬ m.Full) :
    m.aborts = typeIsZero m₀.resourceType (streamAfter pb m₀.resourceType ids stream n) := by
  rw [HectorCore.Load.aborts_eq hFull h.stream, h.resourceType]

theorem not_typeIsZero_of_decoded (h : (decoded pb m₀.resourceType ids stream n).isSome) :
    typeIsZero m₀.resourceType (streamAfter pb m₀.resourceType ids stream n) = false := by
  obtain ⟨r, hRead⟩ := Option.isSome_iff_exists.mp h
  obtain ⟨result, hSome, -⟩ := Option.map_eq_some_iff.mp hRead
  refine typeIsZero_of_decoded (?_ : (InputStream.deserializeResource pb _ (ids n) _).1 ≠ none)
  rw [hSome]
  exact Option.some_ne_none result

variable (h₀ : Opened stream m₀)
include h₀

/-- The first records. -/
theorem readTo_records {k : Nat}
    (hDecoded : ∀ n < k, (decoded pb m₀.resourceType ids stream n).isSome)
    (hLimit : m₀.maxItems ≠ 0 → k ≤ m₀.maxItems.toNat) :
    ReadTo pb ids stream m₀ k k false (m₀.afterCalls pb sleep ids k) := by
  induction k with
  | zero => exact ⟨rfl, rfl, rfl, h₀.wait, h₀.skipItems, h₀.items, h₀.markEmmited, h₀.stream⟩
  | succ k ih =>
    have hAt := ih (fun n hn => hDecoded n (by omega)) fun hNe => Nat.le_of_succ_le (hLimit hNe)
    have hFull := hAt.not_full hLimit
    obtain ⟨r, hRead⟩ := Option.isSome_iff_exists.mp (hDecoded k (by omega))
    exact (hAt.next hFull hRead).2

theorem result_of_decoded {k : Nat} {r : Resource M}
    (hDecoded : ∀ n < k, (decoded pb m₀.resourceType ids stream n).isSome)
    (hLimit : m₀.maxItems ≠ 0 → k < m₀.maxItems.toNat)
    (hRead : decoded pb m₀.resourceType ids stream k = some r) :
    m₀.result pb sleep ids k = .resource r ∧ (m₀.afterCalls pb sleep ids k).aborts = false := by
  have hAt : ReadTo pb ids stream m₀ k k false (m₀.afterCalls pb sleep ids k) :=
    readTo_records h₀ hDecoded fun hNe => (hLimit hNe).le
  have hFull := hAt.not_full hLimit
  refine ⟨(hAt.next hFull hRead).1, ?_⟩
  rw [hAt.aborts_eq hFull]
  exact not_typeIsZero_of_decoded (Option.isSome_iff_exists.mpr ⟨r, hRead⟩)

theorem results_of_decoded {k : Nat}
    (hDecoded : ∀ n < k, (decoded pb m₀.resourceType ids stream n).isSome)
    (hLimit : m₀.maxItems ≠ 0 → k ≤ m₀.maxItems.toNat) :
    ∀ n < k, ∃ r, decoded pb m₀.resourceType ids stream n = some r ∧
      m₀.result pb sleep ids n = .resource r ∧ (m₀.afterCalls pb sleep ids n).aborts = false := by
  intro n hn
  obtain ⟨r, hRead⟩ := Option.isSome_iff_exists.mp (hDecoded n hn)
  exact ⟨r, hRead, result_of_decoded h₀ (fun i hi => hDecoded i (hi.trans hn))
    (fun hNe => hn.trans_le (hLimit hNe)) hRead⟩

/-- The records, a failure, and `j` more. -/
theorem readTo_failures {k j : Nat}
    (hDecoded : ∀ n < k, (decoded pb m₀.resourceType ids stream n).isSome)
    (hLimit : m₀.maxItems ≠ 0 → k < m₀.maxItems.toNat)
    (hFailed : ∀ n, k ≤ n → n < k + j → decoded pb m₀.resourceType ids stream n = none) :
    ReadTo pb ids stream m₀ (k + j) k (decide (0 < j)) (m₀.afterCalls pb sleep ids (k + j)) := by
  induction j with
  | zero => exact readTo_records h₀ hDecoded fun hNe => (hLimit hNe).le
  | succ j ih =>
    have hAt := ih fun n hk hn => hFailed n hk (by omega)
    have hNext := hFailed (k + j) (by omega) (by omega)
    rw [decide_eq_true (Nat.succ_pos j)]
    exact (hAt.endOfFile (hAt.not_full hLimit) h₀.mark hNext).2

theorem result_of_failed {k j : Nat}
    (hDecoded : ∀ n < k, (decoded pb m₀.resourceType ids stream n).isSome)
    (hLimit : m₀.maxItems ≠ 0 → k < m₀.maxItems.toNat)
    (hFailed : ∀ n, k ≤ n → n ≤ k + j → decoded pb m₀.resourceType ids stream n = none) :
    m₀.result pb sleep ids (k + j) =
      if 0 < j then .null else .resource (marker (ids (k + j)) m₀.mark) := by
  have hAt : ReadTo pb ids stream m₀ (k + j) k (decide (0 < j))
    (m₀.afterCalls pb sleep ids (k + j)) :=
    readTo_failures h₀ hDecoded hLimit fun n hk hn => hFailed n hk hn.le
  have hResult : m₀.result pb sleep ids (k + j) = _ :=
    (hAt.endOfFile (hAt.not_full hLimit) h₀.mark (hFailed (k + j) (by omega) le_rfl)).1
  rw [hResult]
  simp only [decide_eq_true_eq]

/-- A resource is decoded behind the marker. -/
theorem result_of_late {k j : Nat} {r : Resource M}
    (hDecoded : ∀ n < k, (decoded pb m₀.resourceType ids stream n).isSome)
    (hLimit : m₀.maxItems ≠ 0 → k < m₀.maxItems.toNat)
    (hFailed : ∀ n, k ≤ n → n < k + j → decoded pb m₀.resourceType ids stream n = none)
    (hRead : decoded pb m₀.resourceType ids stream (k + j) = some r) :
    m₀.result pb sleep ids (k + j) = .resource r := by
  have hAt : ReadTo pb ids stream m₀ (k + j) k (decide (0 < j))
    (m₀.afterCalls pb sleep ids (k + j)) :=
    readTo_failures h₀ hDecoded hLimit hFailed
  exact (hAt.next (hAt.not_full hLimit) hRead).1

/-- `maxItems` records have been read. -/
theorem afterCalls_full {k : Nat}
    (hDecoded : ∀ n < k, (decoded pb m₀.resourceType ids stream n).isSome)
    (hNe : m₀.maxItems ≠ 0) (hLimit : k = m₀.maxItems.toNat) (j : Nat) :
    (m₀.afterCalls pb sleep ids (k + j)).Full ∧
      (m₀.afterCalls pb sleep ids (k + j)).mark = m₀.mark ∧
      (m₀.afterCalls pb sleep ids (k + j)).markEmmited = decide (0 < j) := by
  induction j with
  | zero =>
    have hAt : ReadTo pb ids stream m₀ k k false (m₀.afterCalls pb sleep ids k) :=
      readTo_records h₀ hDecoded fun _ => hLimit.le
    exact ⟨hAt.full_iff.mpr ⟨hNe, by omega⟩, hAt.mark, hAt.markEmmited⟩
  | succ j ih =>
    obtain ⟨hFull, hMark, hMarked⟩ := ih
    have hCall : (m₀.afterCalls pb sleep ids (k + j)).processInputSync pb sleep (ids (k + j)) = _ :=
      processInputSync_full hFull
    rw [← Nat.add_assoc, State.afterCalls, hCall, State.emitMark, decide_eq_true (Nat.succ_pos j)]
    split
    · exact ⟨hFull, hMark, rfl⟩
    · rename_i hNot
      refine ⟨hFull, hMark, ?_⟩
      rw [not_and_not_right] at hNot
      exact hNot (hMark ▸ h₀.mark)

theorem result_of_full {k : Nat}
    (hDecoded : ∀ n < k, (decoded pb m₀.resourceType ids stream n).isSome)
    (hNe : m₀.maxItems ≠ 0) (hLimit : k = m₀.maxItems.toNat) (j : Nat) :
    m₀.result pb sleep ids (k + j) =
      if 0 < j then .null else .resource (marker (ids (k + j)) m₀.mark) := by
  obtain ⟨hFull, hMark, hMarked⟩ : (m₀.afterCalls pb sleep ids (k + j)).Full ∧ _ :=
    afterCalls_full h₀ hDecoded hNe hLimit j
  rw [State.result, processInputSync_full hFull, State.emitMark, hMark, hMarked]
  by_cases hj : 0 < j
  · rw [if_pos hj, if_neg (by simp [hj])]
  · rw [if_neg hj, if_pos ⟨h₀.mark, by simp [hj]⟩]
    rfl

theorem emits_of_full {k : Nat}
    (hDecoded : ∀ n < k, (decoded pb m₀.resourceType ids stream n).isSome)
    (hNe : m₀.maxItems ≠ 0) (hLimit : k = m₀.maxItems.toNat) :
    EmitsRecordsThenMarker pb sleep ids stream m₀ := by
  refine ⟨?_, k, fun _ => hLimit.le, ?_, ?_, ?_⟩
  · intro n
    rcases Nat.lt_or_ge n k with hn | hn
    · obtain ⟨-, -, -, hReturns⟩ := results_of_decoded h₀ hDecoded (fun _ => hLimit.le) n hn
      exact hReturns
    · obtain ⟨j, rfl⟩ := Nat.exists_eq_add_of_le hn
      exact aborts_eq_false_of_full (afterCalls_full h₀ hDecoded hNe hLimit j).1
  · intro n hn
    obtain ⟨r, hRead, hResult, -⟩ := results_of_decoded h₀ hDecoded (fun _ => hLimit.le) n hn
    exact ⟨r, hRead, hResult⟩
  · exact result_of_full h₀ hDecoded hNe hLimit 0
  · intro n hn
    obtain ⟨j, rfl⟩ := Nat.exists_eq_add_of_le hn.le
    rw [result_of_full h₀ hDecoded hNe hLimit j, if_pos (by omega)]

theorem emits_of_ends {k : Nat}
    (hDecoded : ∀ n < k, (decoded pb m₀.resourceType ids stream n).isSome)
    (hLimit : m₀.maxItems ≠ 0 → k < m₀.maxItems.toNat)
    (hEnds : ∀ n, k ≤ n → Ends pb m₀.resourceType ids stream n) :
    EmitsRecordsThenMarker pb sleep ids stream m₀ := by
  refine ⟨?_, k, fun hNe => (hLimit hNe).le, ?_, ?_, ?_⟩
  · intro n
    rcases Nat.lt_or_ge n k with hn | hn
    · obtain ⟨-, -, -, hReturns⟩ := results_of_decoded h₀ hDecoded (fun hNe => (hLimit hNe).le) n hn
      exact hReturns
    · obtain ⟨j, rfl⟩ := Nat.exists_eq_add_of_le hn
      have hAt : ReadTo pb ids stream m₀ (k + j) k (decide (0 < j))
          (m₀.afterCalls pb sleep ids (k + j)) :=
        readTo_failures h₀ hDecoded hLimit fun n hk _ => (hEnds n hk).1
      rw [hAt.aborts_eq (hAt.not_full hLimit)]
      exact (hEnds (k + j) hn).2
  · intro n hn
    obtain ⟨r, hRead, hResult, -⟩ := results_of_decoded h₀ hDecoded
      (fun hNe => (hLimit hNe).le) n hn
    exact ⟨r, hRead, hResult⟩
  · exact result_of_failed h₀ (j := 0) hDecoded hLimit fun n hk _ => (hEnds n hk).1
  · intro n hn
    obtain ⟨j, rfl⟩ := Nat.exists_eq_add_of_le hn.le
    rw [result_of_failed h₀ hDecoded hLimit fun n hk _ => (hEnds n hk).1, if_pos (by omega)]

/-- The first failure, when `maxItems` records are not decoded before it. -/
theorem exists_first_failure (h : EmitsRecordsThenMarker pb sleep ids stream m₀)
    (hNeg : ¬ m₀.maxItems < 0)
    (hFew : ¬ (0 < m₀.maxItems ∧
      ∀ n < m₀.maxItems.toNat, (decoded pb m₀.resourceType ids stream n).isSome)) :
    ∃ k, (∀ n < k, (decoded pb m₀.resourceType ids stream n).isSome) ∧
      (m₀.maxItems ≠ 0 → k < m₀.maxItems.toNat) ∧
      decoded pb m₀.resourceType ids stream k = none := by
  obtain ⟨-, k', -, -, -, hNull⟩ := h
  have hSome : ∃ n, (m₀.maxItems ≠ 0 → n < m₀.maxItems.toNat) ∧
      decoded pb m₀.resourceType ids stream n = none := by
    by_contra hAll
    push Not at hAll
    by_cases hZero : m₀.maxItems = 0
    · have hDecoded : ∀ n, (decoded pb m₀.resourceType ids stream n).isSome := by
        intro n
        exact Option.isSome_iff_ne_none.mpr (hAll n fun hNe => absurd hZero hNe)
      obtain ⟨r, hRead⟩ := Option.isSome_iff_exists.mp (hDecoded (k' + 1))
      have hResult : m₀.result pb sleep ids (k' + 1) = _ :=
        (result_of_decoded h₀ (fun n _ => hDecoded n) (fun hNe => absurd hZero hNe) hRead).1
      rw [hNull (k' + 1) (by omega)] at hResult
      cases hResult
    · refine hFew ⟨by omega, fun n hn => ?_⟩
      exact Option.isSome_iff_ne_none.mpr (hAll n fun _ => hn)
  classical
  obtain ⟨hLimit, hNone⟩ := Nat.find_spec hSome
  refine ⟨Nat.find hSome, ?_, hLimit, hNone⟩
  intro n hn
  have hMin := Nat.find_min hSome hn
  rw [not_and] at hMin
  exact Option.isSome_iff_ne_none.mpr (hMin fun hNe => hn.trans (hLimit hNe))

/-- After the marker no record is decoded, and no assertion fails. -/
theorem ends_of_emits (h : EmitsRecordsThenMarker pb sleep ids stream m₀) {k : Nat}
    (hDecoded : ∀ n < k, (decoded pb m₀.resourceType ids stream n).isSome)
    (hLimit : m₀.maxItems ≠ 0 → k < m₀.maxItems.toNat)
    (hNone : decoded pb m₀.resourceType ids stream k = none) (n : Nat) (hn : k ≤ n) :
    Ends pb m₀.resourceType ids stream n := by
  obtain ⟨hAborts, k', -, hRecords, -, hNull⟩ := h
  have hFirst : k' ≤ k := by
    by_contra hLt
    obtain ⟨r, hRead, -⟩ := hRecords k (by omega)
    rw [hNone] at hRead
    cases hRead
  induction n using Nat.strong_induction_on with
  | _ n ih =>
    obtain ⟨j, rfl⟩ := Nat.exists_eq_add_of_le hn
    have hFailed : ∀ i, k ≤ i → i < k + j → decoded pb m₀.resourceType ids stream i = none :=
      fun i hk hi => (ih i hi hk).1
    have hAt : ReadTo pb ids stream m₀ (k + j) k (decide (0 < j))
        (m₀.afterCalls pb sleep ids (k + j)) := readTo_failures h₀ hDecoded hLimit hFailed
    constructor
    · by_contra hSome
      obtain ⟨r, hRead⟩ := Option.ne_none_iff_exists'.mp hSome
      have hLate : k < k + j := by
        rcases Nat.eq_zero_or_pos j with rfl | hj
        · exact absurd (hNone.symm.trans hRead) (by simp)
        · omega
      have hResult : m₀.result pb sleep ids (k + j) = _ :=
        result_of_late h₀ hDecoded hLimit hFailed hRead
      rw [hNull (k + j) (by omega)] at hResult
      cases hResult
    · rw [← hAt.aborts_eq (hAt.not_full hLimit)]
      exact hAborts (k + j)

theorem emits_iff_of_opened :
    EmitsRecordsThenMarker pb sleep ids stream m₀ ↔
      EndsForGood pb m₀.resourceType ids stream m₀.maxItems := by
  constructor
  · intro h
    by_cases hNeg : m₀.maxItems < 0
    · exact .inl hNeg
    by_cases hFew : 0 < m₀.maxItems ∧
        ∀ n < m₀.maxItems.toNat, (decoded pb m₀.resourceType ids stream n).isSome
    · exact .inr (.inl hFew)
    obtain ⟨k, hDecoded, hLimit, hNone⟩ := exists_first_failure h₀ h hNeg hFew
    exact .inr (.inr ⟨k, hDecoded, ends_of_emits h₀ h hDecoded hLimit hNone⟩)
  · rintro (hNeg | ⟨hPos, hDecoded⟩ | ⟨k, hDecoded, hEnds⟩)
    · exact emits_of_full h₀ (by omega) hNeg.ne (Int.toNat_of_nonpos hNeg.le).symm
    · exact emits_of_full h₀ hDecoded hPos.ne' rfl
    · by_cases hLimit : m₀.maxItems ≠ 0 ∧ m₀.maxItems.toNat ≤ k
      · exact emits_of_full h₀ (fun n hn => hDecoded n (by omega)) hLimit.1 rfl
      · exact emits_of_ends h₀ hDecoded (fun hNe => by omega) hEnds

end Calls

/--
**What a module emits.** Take any contents of the file, binary or text, and any properties of the
module with `wait = false` and `mark >= 0`. The calls of `ProcessInputSync` return the records, one
marker and then only NULL if and only if `maxItems` records are decoded before the first failure, or
nothing is decoded after it and no record of type zero is met.
-/
theorem emits_records_then_marker_iff (pb : Protobuf M) (sleep : Bool) (ids : Nat → Int32)
    (filename : List UInt8) (text : Bool) (resourceType : UInt32) {mark : Int} (hMark : 0 ≤ mark)
    (maxItems : Int) (contents : List UInt8) :
    EmitsRecordsThenMarker pb sleep ids (InputStream.ofBytes text contents)
        (State.init filename text false resourceType mark maxItems contents) ↔
      EndsForGood pb resourceType ids (InputStream.ofBytes text contents) maxItems := by
  have hOpened : Opened (InputStream.ofBytes text contents)
      (State.init filename text false resourceType mark maxItems contents) :=
    ⟨rfl, hMark, rfl, rfl, rfl, rfl⟩
  exact emits_iff_of_opened hOpened

/-- A `TestResource` and a `MarkerResource`, both of which are read. -/
theorem emits_records_then_marker_two :
    EmitsRecordsThenMarker fileProtobuf false Int32.ofNat
      (InputStream.ofBytes false [1, 1, 65, 3, 7, 9])
      (State.init [102] false false 0 5 2 [1, 1, 65, 3, 7, 9]) :=
  (emits_records_then_marker_iff fileProtobuf false Int32.ofNat [102] false 0 (by decide) 2
    [1, 1, 65, 3, 7, 9]).mpr (.inr (.inl ⟨by decide, by decide⟩))

/-- There is no type 9; behind it stand two resources. -/
def unknownType : List UInt8 := [9, 1, 1, 65, 3, 7]

/-- The marker, and then a `TestResource`. -/
theorem record_after_marker :
    ¬ EmitsRecordsThenMarker fileProtobuf false Int32.ofNat (InputStream.ofBytes false unknownType)
      (State.init [102] false false 0 5 0 unknownType) := by
  rintro ⟨-, k, -, hRecords, -, hNull⟩
  have hFirst : decoded fileProtobuf 0 Int32.ofNat (InputStream.ofBytes false unknownType) 0 =
    none :=
    rfl
  have hSecond : (State.init [102] false false 0 5 0 unknownType).result fileProtobuf false
      Int32.ofNat 1 = .resource ⟨1, 0, .testResource [65]⟩ := rfl
  rcases Nat.eq_zero_or_pos k with rfl | hPos
  · rw [hNull 1 (by decide)] at hSecond
    cases hSecond
  · obtain ⟨r, hRead, -⟩ := hRecords 0 hPos
    exact absurd (hFirst.symm.trans hRead) (by simp)

end HectorCore.Load
