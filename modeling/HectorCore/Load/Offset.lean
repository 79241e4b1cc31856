import HectorCore.Load.Checkpoint

/-!
# Offset — what one checkpoint counts

The number that a `Load` module saves after `k` records, and where a module that skips as many
bytes stands. The name of the file is a single word that fits into the buffer.

* `loaded_step`, `loaded_load` — what a new module has counted after `k` records;
* `restored_plain`             — the number is read back, and skipped;
* `text_resumes_iff`           — a text file is resumed at its end only: the rest of the line is
  lost;
* `binary_resumes_iff`         — a binary file is resumed at its beginning only: the first block is
  fetched before the first record is measured.
-/

namespace HectorCore.Load

open Lib (toInt32 isSpace digits toInt32_congr toInt32_sub_emod toInt32_eq_self toInt32_le_self
  digits_ne_nil isDigit_digits decimal_digits takeWhile_stop dropWhile_stop)
open HectorCore.Stream (IStream InputStream Protobuf Resource totalBytesLimit)

variable {M : Type} {pb : Protobuf M} {f : File M}

-- ---------------------------------------------------------------------------
-- Arithmetic
-- ---------------------------------------------------------------------------

/-- `byteCount += size` -/
theorem byteCount_add (b : UInt64) (size : Int) :
    ((b + UInt64.ofInt size).toNat : Int) % 2 ^ 32 = ((b.toNat : Int) + size) % 2 ^ 32 := by
  rw [UInt64.toNat_add]
  have hSize : ((UInt64.ofInt size).toNat : Int) = size % 2 ^ 64 := by
    unfold UInt64.ofInt
    rw [UInt64.toNat_ofNat']
    omega
  omega

-- ---------------------------------------------------------------------------
-- Where the records are, and what is counted
-- ---------------------------------------------------------------------------

namespace File

/-- Where record `k + 1` begins. -/
def position (f : File M) (k : Nat) : Nat := ((f.records.take k).flatMap Record.bytes).length

/-- What `DeserializeResource` measures for record `k + 1`, but for wrapping around. -/
def measured (pb : Protobuf M) (f : File M) (k : Nat) : Int :=
  if f.text then f.position (k + 1) - f.position k
  else pb.fetched (f.position k) (f.position (k + 1)) - pb.fetched (f.position k) (f.position k)

/-- What a new module has measured after `k` records. -/
def counted (pb : Protobuf M) (f : File M) : Nat → Int
  | 0 => 0
  | k + 1 => f.counted pb k + f.measured pb k

/-- The stream after `k` records. -/
def streamAt (f : File M) (k : Nat) : InputStream :=
  if f.text then .text ⟨f.recordsFrom k, f.position k, false, false⟩
  else .binary ⟨⟨f.recordsFrom k, totalBytesLimit⟩, f.position k, f.position k⟩

end File

theorem recordsFrom_of_getElem? {k : Nat} {r : Record M} (h : f.records[k]? = some r) :
    f.recordsFrom k = r.bytes ++ f.recordsFrom (k + 1) := by
  obtain ⟨hLt, rfl⟩ := List.getElem?_eq_some_iff.mp h
  unfold File.recordsFrom
  rw [List.drop_eq_getElem_cons hLt, List.flatMap_cons]

theorem position_succ {k : Nat} {r : Record M} (h : f.records[k]? = some r) :
    f.position (k + 1) = f.position k + r.bytes.length := by
  unfold File.position
  rw [List.take_add_one, h]
  simp

theorem position_zero : f.position 0 = 0 := by
  simp [File.position]

/-- The records behind position `k`, in bytes. -/
theorem contents_eq (k : Nat) :
    f.contents.length = f.position k + (f.recordsFrom k).length ∧
      f.contents.drop (f.position k) = f.recordsFrom k := by
  have hSplit : f.contents = (f.records.take k).flatMap Record.bytes ++ f.recordsFrom k := by
    unfold File.contents File.recordsFrom
    rw [← List.flatMap_append, List.take_append_drop, List.drop_zero]
  constructor
  · rw [hSplit, List.length_append]
    rfl
  · rw [hSplit]
    exact List.drop_left

theorem tellg_good (rest : List UInt8) (pos : Nat) :
    IStream.tellg ⟨rest, pos, false, false⟩ = ((pos : Int), ⟨rest, pos, false, false⟩) := rfl

/-- The next record is read, and measured. -/
theorem deserializeResource_streamAt (hFile : f.WellFormed pb) {k : Nat} {r : Record M}
    (hr : f.records[k]? = some r) (id : Int32) :
    ∃ size, (f.streamAt k).deserializeResource pb f.resourceType id =
        (some (r.resource id, size), f.streamAt (k + 1)) ∧
      size % 2 ^ 32 = f.measured pb k % 2 ^ 32 := by
  have hWf := (hFile r (List.mem_of_getElem? hr)).2
  have hNext : f.position (k + 1) = f.position k + r.bytes.length := position_succ hr
  cases hText : f.text with
  | true =>
    rw [hText, if_pos rfl] at hWf
    refine ⟨toInt32 (toInt32 (f.position (k + 1)) - toInt32 (f.position k)), ?_, ?_⟩
    · simp only [File.streamAt, hText, if_true, InputStream.deserializeResource,
        InputStream.byteCount, tellg_good, InputStream.read, recordsFrom_of_getElem? hr, hWf, hNext]
      rfl
    · rw [File.measured, hText, if_pos rfl]
      exact toInt32_sub_emod _ _
  | false =>
    rw [hText, if_neg (by decide)] at hWf
    refine ⟨toInt32 (toInt32 (pb.fetched (f.position k) (f.position (k + 1))) -
      toInt32 (pb.fetched (f.position k) (f.position k))), ?_, ?_⟩
    · have hUsed : f.position k + ((r.bytes ++ f.recordsFrom (k + 1)).length -
          (f.recordsFrom (k + 1)).length) = f.position (k + 1) := by
        rw [List.length_append, Nat.add_sub_cancel, hNext]
      have hRead := InputStream.read_binary
        (s := ⟨⟨r.bytes ++ f.recordsFrom (k + 1), totalBytesLimit⟩, f.position k, f.position k⟩)
        (hWf id (f.recordsFrom (k + 1)))
      simp only [File.streamAt, hText, Bool.false_eq_true, if_false,
        InputStream.deserializeResource, InputStream.byteCount,
        recordsFrom_of_getElem? hr, hRead, hUsed]
      rfl
    · rw [File.measured, hText, if_neg (by decide)]
      exact toInt32_sub_emod _ _

/-- A module that has read `k` records of the file. -/
structure Loaded (pb : Protobuf M) (f : File M) (k : Nat) (m : State) : Prop where
  filename : m.filename = f.filename
  resourceType : m.resourceType = f.resourceType
  maxItems : m.maxItems = 0
  skipItems : m.skipItems = 0
  stream : m.stream = some (f.streamAt k)
  byteCount : (m.byteCount.toNat : Int) % 2 ^ 32 = f.counted pb k % 2 ^ 32

/-- **One more record.** -/
theorem loaded_step (hFile : f.WellFormed pb) (sleep : Bool) {k : Nat} {r : Record M} {m : State}
    (hr : f.records[k]? = some r) (h : Loaded pb f k m) (id : Int32) :
    ∃ m', m.processInputSync pb sleep id = (.resource (r.resource id), m') ∧
      Loaded pb f (k + 1) m' := by
  obtain ⟨size, hRead, hSize⟩ := deserializeResource_streamAt hFile hr id
  refine ⟨{ m with
    byteCount := m.byteCount + UInt64.ofInt size, items := m.items + 1
    stream := some (f.streamAt (k + 1)) }, ?_, ?_⟩
  · simp only [State.processInputSync, h.maxItems, h.skipItems, h.stream, h.resourceType,
      State.skipLoop, hRead, ne_eq, not_true_eq_false, false_and, if_false, Int.toNat_zero,
      Option.map_some]
  · refine ⟨h.filename, h.resourceType, h.maxItems, h.skipItems, rfl, ?_⟩
    show ((m.byteCount + UInt64.ofInt size).toNat : Int) % 2 ^ 32 =
      (f.counted pb k + f.measured pb k) % 2 ^ 32
    rw [byteCount_add, Int.add_emod, h.byteCount, hSize, ← Int.add_emod]

theorem loaded_fresh : Loaded pb f 0 f.fresh := by
  refine ⟨rfl, rfl, rfl, rfl, ?_, rfl⟩
  unfold File.streamAt
  rw [position_zero]
  cases hText : f.text with
  | true =>
    show some (if f.text = true then _ else _) = _
    rw [hText]
    rfl
  | false =>
    show some (if f.text = true then _ else _) = _
    rw [hText]
    rfl

/-- **The whole run**: any number of records of the file. -/
theorem loaded_load (hFile : f.WellFormed pb) (sleep : Bool) :
    ∀ (ids : List Int32) {k : Nat} {m : State}, Loaded pb f k m →
      k + ids.length ≤ f.records.length →
      ∃ m', load pb sleep ids m = some m' ∧ Loaded pb f (k + ids.length) m' := by
  intro ids
  induction ids with
  | nil =>
    intro k m h _
    exact ⟨m, rfl, h⟩
  | cons id ids ih =>
    intro k m h hLe
    rw [List.length_cons] at hLe
    have hLt : k < f.records.length := by omega
    obtain ⟨m₁, hCall, hLoaded⟩ :=
      loaded_step hFile sleep (List.getElem?_eq_getElem hLt) h id
    obtain ⟨m', hLoad, hEnd⟩ := ih hLoaded (by omega)
    refine ⟨m', ?_, ?_⟩
    · rw [load, hCall]
      exact hLoad
    · rw [List.length_cons]
      convert hEnd using 1
      omega

-- ---------------------------------------------------------------------------
-- The number is read back
-- ---------------------------------------------------------------------------

/-- A name of one word, that leaves room for the number. -/
structure PlainName (filename : List UInt8) : Prop where
  ne : filename ≠ []
  word : ∀ c ∈ filename, isSpace c = false
  short : filename.length ≤ 1000

theorem checkpointText_plain {filename : List UInt8} (h : PlainName filename) (b : UInt64) :
    Numbered (digits b.toNat) [10] ∧
      checkpointText filename b = filename ++ 10 :: (digits b.toNat ++ [10]) := by
  have hShort := h.short
  have hLength : (digits b.toNat).length ≤ 20 :=
    Lib.length_digits_le (by decide) (Nat.lt_of_lt_of_le b.toNat_lt (by decide))
  refine ⟨⟨digits_ne_nil _, fun c hc => isDigit_digits hc, .inr rfl⟩, ?_⟩
  unfold checkpointText
  refine List.take_of_length_le ?_
  simp only [List.length_append, List.length_cons, List.length_nil]
  omega

/-- **The name and the number are read back.** -/
theorem scanCheckpoint_plain {filename : List UInt8} (h : PlainName filename) (b : UInt64) :
    scanCheckpoint (checkpointText filename b) = some (filename, b) := by
  obtain ⟨hNumbered, hText⟩ := checkpointText_plain h b
  have hName : filename.dropWhile isSpace = filename := by
    obtain ⟨c, rest, hCons⟩ := List.exists_cons_of_ne_nil h.ne
    rw [hCons, List.dropWhile_cons_of_neg]
    simp [h.word c (by rw [hCons]; exact List.mem_cons_self)]
  have hWord : ∀ c ∈ filename, (!isSpace c) = true := fun c hc => by
    rw [h.word c hc]
    rfl
  have hTake : (filename.takeWhile fun c => !isSpace c) = filename :=
    List.takeWhile_eq_self_iff.mpr hWord
  have hDrop : (filename.dropWhile fun c => !isSpace c) = [] :=
    List.dropWhile_eq_nil_iff.mpr hWord
  have hMinus : (digits b.toNat ++ [10]).head? ≠ some 45 := head_numbered hNumbered (by decide)
  have hPlus : (digits b.toNat ++ [10]).head? ≠ some 43 := head_numbered hNumbered (by decide)
  have hFits : min b.toNat (2 ^ 64 - 1) = b.toNat := by
    have := b.toNat_lt
    omega
  unfold scanCheckpoint
  dsimp only
  rw [hText, dropWhile_isSpace_numbered hNumbered, hName, if_neg h.ne, takeWhile_stop (by decide),
    hTake, dropWhile_stop (by decide), hDrop, dropWhile_isSpace_numbered hNumbered]
  simp only [List.dropWhile_nil, if_true, hMinus, hPlus, or_self, if_false, List.drop_zero,
    takeWhile_numbered hNumbered, h.ne, digits_ne_nil, decimal_digits, hFits, UInt64.ofNat_toNat]

/-- The file is not opened again: the stream that is there is skipped. -/
theorem restoreCheckpointSync_eq {m : State} {buffer fn contents : List UInt8} {offset : UInt64}
    {stream : InputStream} (hFd : m.fd = -1) (hStream : m.stream = some stream)
    (hScan : scanCheckpoint buffer = some (fn, offset)) :
    (m.restoreCheckpointSync buffer contents).2 =
      { m with filename := fn, stream := some (stream.skip (toInt32 offset.toNat)).2 } := by
  have hClosed : ¬ m.fd ≥ 0 := by omega
  simp only [State.restoreCheckpointSync, hScan, State.setFilename, hClosed, if_false, hStream]

/-- A module that restores a checkpoint after `k` records skips what was counted. -/
theorem restored_plain (hName : PlainName f.filename) {k : Nat} {m : State} (h : Loaded pb f k m) :
    f.restored m =
      { f.fresh with stream := some ((f.streamAt 0).skip (toInt32 (f.counted pb k))).2 } := by
  have hFresh : Loaded pb f 0 f.fresh := loaded_fresh
  have hScan : scanCheckpoint m.saveCheckpointSync = some (f.filename, m.byteCount) := by
    rw [saveCheckpointSync_eq, h.filename]
    exact scanCheckpoint_plain hName m.byteCount
  unfold File.restored
  rw [restoreCheckpointSync_eq rfl hFresh.stream hScan, toInt32_congr h.byteCount]
  rfl

/-- Loading `k` records and a checkpoint. -/
def ResumesAfter (pb : Protobuf M) (sleep : Bool) (f : File M) (k : Nat) : Prop :=
  ∀ ids : List Int32, ids.length = k →
    ∃ m, load pb sleep ids f.fresh = some m ∧ Resumed pb sleep f k (f.restored m)

/-- Whether one checkpoint resumes is decided by what was counted. -/
theorem resumesAfter_iff (hFile : f.WellFormed pb) (hName : PlainName f.filename) (sleep : Bool)
    {k : Nat} (hk : k ≤ f.records.length) :
    ResumesAfter pb sleep f k ↔ Resumed pb sleep f k
      { f.fresh with stream := some ((f.streamAt 0).skip (toInt32 (f.counted pb k))).2 } := by
  have hLoads : ∀ ids : List Int32, ids.length = k →
      ∃ m, load pb sleep ids f.fresh = some m ∧ Loaded pb f k m := by
    intro ids hIds
    have hFresh : Loaded pb f 0 f.fresh := loaded_fresh
    obtain ⟨m, hLoad, hLoaded⟩ := loaded_load hFile sleep ids hFresh (by omega)
    rw [Nat.zero_add, hIds] at hLoaded
    exact ⟨m, hLoad, hLoaded⟩
  constructor
  · intro h
    obtain ⟨m, hLoad, hResumed⟩ := h (List.replicate k 0) List.length_replicate
    obtain ⟨m', hLoad', hLoaded⟩ := hLoads (List.replicate k 0) List.length_replicate
    rw [hLoad, Option.some.injEq] at hLoad'
    rw [hLoad', restored_plain hName hLoaded] at hResumed
    exact hResumed
  · intro h ids hIds
    obtain ⟨m, hLoad, hLoaded⟩ := hLoads ids hIds
    refine ⟨m, hLoad, ?_⟩
    rw [restored_plain hName hLoaded]
    exact h

-- ---------------------------------------------------------------------------
-- Text files
-- ---------------------------------------------------------------------------

theorem counted_text (hText : f.text = true) : ∀ k, f.counted pb k = f.position k := by
  intro k
  induction k with
  | zero =>
    rw [File.counted, position_zero]
    rfl
  | succ k ih =>
    rw [File.counted, ih, File.measured, if_pos hText]
    omega

/-- A line is taken from what is left. -/
theorem getline_shortens {is : IStream} (hGood : is.good = true) (hNe : is.rest ≠ []) :
    is.getline.2.rest.length < is.rest.length := by
  have hPos := List.length_pos_of_ne_nil hNe
  have hLine : (is.rest.takeWhile (· ≠ 10)).length ≤ is.rest.length :=
    (List.takeWhile_prefix _).length_le
  unfold IStream.getline
  rw [if_pos hGood]
  dsimp only
  split
  · show (is.rest.drop _).length < _
    rw [List.length_drop]
    omega
  · show (is.rest.drop _).length < _
    rw [List.length_drop]
    omega

/-- **A checkpoint of a text file is resumed at the end of the file only**: where there is another
record, `Skip` drops its first line. -/
theorem text_resumes_iff (hFile : f.WellFormed pb) (hName : PlainName f.filename)
    (hText : f.text = true) (hSize : f.contents.length < 2 ^ 31) (sleep : Bool) {k : Nat}
    (hk : k ≤ f.records.length) :
    ResumesAfter pb sleep f k ↔ k = f.records.length := by
  obtain ⟨hLength, hDrop⟩ := contents_eq (f := f) k
  have hCount : toInt32 (f.counted pb k) = f.position k := by
    rw [counted_text hText]
    exact toInt32_eq_self (by omega) (by omega)
  -- behind the bytes that are skipped
  have hIgnore : IStream.ignore (f.position k) ⟨f.contents, 0, false, false⟩ =
      ⟨f.recordsFrom k, f.position k, false, false⟩ := by
    have hMin : min (f.position k) f.contents.length = f.position k := by omega
    have hEnough : ¬ f.contents.length < f.position k := by omega
    simp [IStream.ignore, IStream.good, IStream.advance, hMin, hEnough, hDrop]
  have hSkip : ((f.streamAt 0).skip (toInt32 (f.counted pb k))).2 =
      .text (IStream.getline ⟨f.recordsFrom k, f.position k, false, false⟩).2 := by
    rw [hCount, File.streamAt, if_pos hText, position_zero]
    show InputStream.text (HectorCore.Stream.Text.skip (f.position k)
      ⟨f.contents, 0, false, false⟩).2 = _
    unfold HectorCore.Stream.Text.skip
    rw [hIgnore]
    rfl
  rw [resumesAfter_iff hFile hName sleep hk, hSkip]
  constructor
  · rintro ⟨hRest, -⟩
    by_contra hNe
    have hLt : k < f.records.length := by omega
    have hBytes := recordsFrom_of_getElem? (List.getElem?_eq_getElem hLt)
    have hRecord := (hFile _ (List.getElem_mem hLt)).1
    have hLeft : f.recordsFrom k ≠ [] := by
      rw [hBytes]
      exact List.append_ne_nil_of_left_ne_nil hRecord _
    have hShort : (IStream.getline ⟨f.recordsFrom k, f.position k, false, false⟩).2.rest.length <
        (f.recordsFrom k).length := getline_shortens rfl hLeft
    have hSame := congrArg List.length (Option.some.inj hRest)
    exact absurd hSame (Nat.ne_of_lt hShort)
  · intro hEnd
    have hNil : f.recordsFrom k = [] := by
      unfold File.recordsFrom
      rw [hEnd, List.drop_length]
      rfl
    refine ⟨?_, fun r hr => ?_⟩
    · rw [hNil]
      rfl
    · rw [hEnd, List.getElem?_eq_none (Nat.le_refl _)] at hr
      cases hr

-- ---------------------------------------------------------------------------
-- Binary files
-- ---------------------------------------------------------------------------

/-- The end of the block of position `p`, or of the file. -/
def blockEnd (blockSize length p : Nat) : Nat := min length ((p / blockSize + 1) * blockSize)

theorem blockEnd_mono (blockSize length : Nat) {p q : Nat} (h : p ≤ q) :
    blockEnd blockSize length p ≤ blockEnd blockSize length q := by
  have hLe : (p / blockSize + 1) * blockSize ≤ (q / blockSize + 1) * blockSize :=
    Nat.mul_le_mul_right _ (Nat.add_le_add_right (Nat.div_le_div_right h) 1)
  unfold blockEnd
  omega

variable {blockSize : Nat}

/-- What is fetched when a coded stream is created. -/
theorem fileFetched_created (hBlock : 0 < blockSize) (length p : Nat) :
    fileFetched blockSize length p p = blockEnd blockSize length p := by
  have hLe : (p + blockSize - 1) / blockSize * blockSize ≤ (p / blockSize + 1) * blockSize := by
    rw [← Nat.add_div_right p hBlock]
    exact Nat.mul_le_mul_right _ (Nat.div_le_div_right (by omega))
  unfold fileFetched blockEnd
  rw [Nat.max_eq_left hLe]

/-- What is fetched when it has read up to `q`. -/
theorem fileFetched_read (hBlock : 0 < blockSize) (length : Nat) {p q : Nat} (hLt : p < q) :
    fileFetched blockSize length p q = blockEnd blockSize length (q - 1) := by
  have hUp : q + blockSize - 1 = (q - 1) + blockSize := by omega
  have hLe : (p / blockSize + 1) * blockSize ≤ ((q - 1) / blockSize + 1) * blockSize :=
    Nat.mul_le_mul_right _ (Nat.add_le_add_right (Nat.div_le_div_right (by omega)) 1)
  unfold fileFetched blockEnd
  rw [hUp, Nat.add_div_right _ hBlock, Nat.max_eq_right hLe]

/-- A record is not empty. -/
theorem position_lt (hFile : f.WellFormed pb) {k : Nat} (hk : k < f.records.length) :
    f.position k < f.position (k + 1) := by
  rw [position_succ (List.getElem?_eq_getElem hk)]
  have := List.length_pos_of_ne_nil (hFile _ (List.getElem_mem hk)).1
  omega

theorem measured_binary (hFile : f.WellFormed pb) (hText : f.text = false) (hBlock : 0 < blockSize)
    (hFetched : pb.fetched = fileFetched blockSize f.contents.length) {k : Nat}
    (hk : k < f.records.length) :
    f.measured pb k = blockEnd blockSize f.contents.length (f.position (k + 1) - 1) -
      blockEnd blockSize f.contents.length (f.position k) := by
  rw [File.measured, hText, if_neg (by decide), hFetched,
    fileFetched_read hBlock _ (position_lt hFile hk), fileFetched_created hBlock]

/-- The block fetched first is never counted. -/
theorem counted_binary (hFile : f.WellFormed pb) (hText : f.text = false) (hBlock : 0 < blockSize)
    (hFetched : pb.fetched = fileFetched blockSize f.contents.length) :
    ∀ {k : Nat}, k < f.records.length →
      0 ≤ f.counted pb (k + 1) ∧
      f.counted pb (k + 1) ≤ blockEnd blockSize f.contents.length (f.position (k + 1) - 1) -
        blockEnd blockSize f.contents.length 0 := by
  intro k
  induction k with
  | zero =>
    intro hk
    have hLt := position_lt hFile hk
    have hMono := blockEnd_mono blockSize f.contents.length (Nat.le_sub_one_of_lt hLt)
    rw [File.counted, File.counted, measured_binary hFile hText hBlock hFetched hk, position_zero]
    rw [position_zero] at hMono
    omega
  | succ k ih =>
    intro hk
    obtain ⟨hNonneg, hLe⟩ := ih (by omega)
    -- what was fetched for a record is fetched again for the next one
    have hAgain : blockEnd blockSize f.contents.length (f.position (k + 1) - 1) ≤
        blockEnd blockSize f.contents.length (f.position (k + 1)) :=
      blockEnd_mono blockSize _ (Nat.sub_le _ 1)
    have hMono := blockEnd_mono blockSize f.contents.length
      (Nat.le_sub_one_of_lt (position_lt hFile hk))
    rw [File.counted, measured_binary hFile hText hBlock hFetched hk]
    omega

/-- **What is counted is less than what is read.** -/
theorem counted_lt_position (hFile : f.WellFormed pb) (hText : f.text = false)
    (hBlock : 0 < blockSize) (hFetched : pb.fetched = fileFetched blockSize f.contents.length)
    {k : Nat} (hk : k < f.records.length) :
    0 ≤ f.counted pb (k + 1) ∧ f.counted pb (k + 1) < f.position (k + 1) := by
  obtain ⟨hNonneg, hLe⟩ := counted_binary hFile hText hBlock hFetched hk
  have hPos : 0 < f.position (k + 1) := Nat.lt_of_le_of_lt (Nat.zero_le _) (position_lt hFile hk)
  have hDiv := Nat.div_mul_le_self (f.position (k + 1) - 1) blockSize
  have hLength := (contents_eq (f := f) (k + 1)).1
  refine ⟨hNonneg, ?_⟩
  unfold blockEnd at hLe
  rw [Nat.zero_div, Nat.zero_add, Nat.one_mul, Nat.add_mul, Nat.one_mul] at hLe
  omega

/-- **A checkpoint of a binary file is resumed at the beginning of the file only.** -/
theorem binary_resumes_iff (hFile : f.WellFormed pb) (hName : PlainName f.filename)
    (hText : f.text = false) (hBlock : 0 < blockSize)
    (hFetched : pb.fetched = fileFetched blockSize f.contents.length) (sleep : Bool) {k : Nat}
    (hk : k ≤ f.records.length) :
    ResumesAfter pb sleep f k ↔ k = 0 := by
  rw [resumesAfter_iff hFile hName sleep hk]
  constructor
  · rintro ⟨hRest, -⟩
    cases k with
    | zero => rfl
    | succ k =>
      obtain ⟨hNonneg, hLt⟩ := counted_lt_position hFile hText hBlock hFetched hk
      have hLe := toInt32_le_self hNonneg
      have hLength := (contents_eq (f := f) (k + 1)).1
      -- too few bytes are skipped, so too many are left
      have hSame := congrArg List.length (Option.some.inj hRest)
      rw [File.streamAt, hText, if_neg (by decide)] at hSame
      change (f.contents.drop (min (toInt32 (f.counted pb (k + 1))).toNat
        (min f.contents.length totalBytesLimit))).length = _ at hSame
      rw [List.length_drop] at hSame
      omega
  · rintro rfl
    have hSkip : ((f.streamAt 0).skip (toInt32 (f.counted pb 0))).2 = f.streamAt 0 := by
      rw [File.streamAt, hText, if_neg (by decide)]
      rfl
    have hFresh : Loaded pb f 0 f.fresh := loaded_fresh
    rw [hSkip, ← hFresh.stream]
    refine ⟨?_, fun r hr id => ?_⟩
    · show f.fresh.stream.map InputStream.rest = _
      rw [hFresh.stream, File.streamAt, hText]
      rfl
    · obtain ⟨m', hCall, -⟩ := loaded_step hFile sleep hr hFresh id
      exact ⟨m', hCall⟩

end HectorCore.Load
