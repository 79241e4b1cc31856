import HectorCore.Load.Module
import HectorCore.Stream.RoundTrip

/-!
# Checkpoint — where a restored Load module reads on

A `Load` module loads some records, saves a checkpoint, and a new module on the same file
restores it; the new module loads more records, saves a checkpoint, and so on.

* `RestoreCheckpointSync` skips the saved number of bytes and leaves `byteCount` at zero, so that
  a second checkpoint counts only what was loaded since the first one.
* `Skip` of a text stream drops the rest of a line behind the bytes that it skips.
* What a binary stream counts is what was fetched from the file.

Main results: `checkpoint_resumes` for all streams and all files, `text_resumes_iff` and
`binary_resumes_iff` for one checkpoint.
-/

namespace HectorCore.Load

open Lib (toInt32 isSpace isDigit digits not_isSpace_of_isDigit digits_ne_nil isDigit_digits
  takeWhile_stop dropWhile_stop)
open HectorCore.Stream (IStream InputStream Protobuf Resource totalBytesLimit)

variable {M : Type}

-- ---------------------------------------------------------------------------
-- Files of records
-- ---------------------------------------------------------------------------

/-- A record of the file, and the resource that it is read as. A record without an id gets the
next one. -/
structure Record (M : Type) where
  bytes : List UInt8
  resource : Int32 → Resource M

/-- `DeserializeResource` reads exactly this record, whatever follows. -/
def Record.WellFormed (pb : Protobuf M) (text : Bool) (resourceType : UInt32)
    (r : Record M) : Prop :=
  r.bytes ≠ [] ∧
    if text then ∀ id rest pos,
      HectorCore.Stream.Text.deserializeResource pb.parseText resourceType id
        ⟨r.bytes ++ rest, pos, false, false⟩ =
          (some (r.resource id), ⟨rest, pos + r.bytes.length, false, false⟩)
    else ∀ id rest,
      HectorCore.Stream.deserializeResource pb.codec resourceType id
        ⟨r.bytes ++ rest, totalBytesLimit⟩ = some (r.resource id, ⟨rest, totalBytesLimit⟩)

/-- A file, and the properties of the modules that read it. -/
structure File (M : Type) where
  filename : List UInt8
  text : Bool
  resourceType : UInt32
  wait : Bool
  mark : Int
  records : List (Record M)

namespace File

/-- The bytes of the records from the `k`-th on. -/
def recordsFrom (f : File M) (k : Nat) : List UInt8 := (f.records.drop k).flatMap Record.bytes

def contents (f : File M) : List UInt8 := f.recordsFrom 0

def WellFormed (pb : Protobuf M) (f : File M) : Prop :=
  ∀ r ∈ f.records, r.WellFormed pb f.text f.resourceType

/-- A new module, with no limit on the number of items. -/
def fresh (f : File M) : State :=
  State.init f.filename f.text f.wait f.resourceType f.mark 0 f.contents

/-- A new module that has restored the checkpoint of `m`. -/
def restored (f : File M) (m : State) : State :=
  (f.fresh.restoreCheckpointSync m.saveCheckpointSync f.contents).2

end File

/-- One call of `ProcessInput` for each id, all of which return a resource. -/
def load (pb : Protobuf M) (sleep : Bool) : List Int32 → State → Option State
  | [], m => some m
  | id :: ids, m =>
    match m.processInputSync pb sleep id with
    | (.resource _, m) => load pb sleep ids m
    | _ => none

/-- The module stands in front of record `k + 1`, and its next call returns that record. -/
def Resumed (pb : Protobuf M) (sleep : Bool) (f : File M) (k : Nat) (m : State) : Prop :=
  m.stream.map InputStream.rest = some (f.recordsFrom k) ∧
    ∀ r, f.records[k]? = some r → ∀ id, ∃ m', m.processInputSync pb sleep id =
      (.resource (r.resource id), m')

/-- Loading `k` records, a checkpoint, loading `j` more, a checkpoint. -/
def Resumes (pb : Protobuf M) (sleep : Bool) (f : File M) (k j : Nat) : Prop :=
  ∀ first more : List Int32, first.length = k → more.length = j →
    ∃ m, load pb sleep first f.fresh = some m ∧ Resumed pb sleep f k (f.restored m) ∧
      ∃ m', load pb sleep more (f.restored m) = some m' ∧
        Resumed pb sleep f (k + j) (f.restored m')

-- ---------------------------------------------------------------------------
-- The name of the file
-- ---------------------------------------------------------------------------

/-- What `SaveCheckpointSync` writes. -/
def checkpointText (filename : List UInt8) (byteCount : UInt64) : List UInt8 :=
  (filename ++ 10 :: (digits byteCount.toNat ++ [10])).take 1023

theorem saveCheckpointSync_eq (m : State) :
    m.saveCheckpointSync = checkpointText m.filename m.byteCount := rfl

/-- What follows the name in a checkpoint: a number, and maybe the last newline. -/
structure Numbered (number tail : List UInt8) : Prop where
  ne : number ≠ []
  digits : ∀ c ∈ number, isDigit c = true
  tail : tail = [] ∨ tail = [10]

theorem checkpointText_numbered {filename : List UInt8} (hShort : filename.length < 1022)
    (byteCount : UInt64) :
    ∃ number tail, Numbered number tail ∧
      checkpointText filename byteCount = filename ++ 10 :: (number ++ tail) := by
  refine ⟨(digits byteCount.toNat).take (1022 - filename.length),
    [10].take (1022 - filename.length - (digits byteCount.toNat).length), ⟨?_, ?_, ?_⟩, ?_⟩
  · rw [ne_eq, List.take_eq_nil_iff]
    rintro (hZero | hNil)
    · omega
    · exact digits_ne_nil _ hNil
  · intro c hc
    exact isDigit_digits (List.mem_of_mem_take hc)
  · cases 1022 - filename.length - (digits byteCount.toNat).length with
    | zero => exact .inl rfl
    | succ n => exact .inr (by simp)
  · obtain ⟨k, hk⟩ : ∃ k, 1023 - filename.length = k + 1 := ⟨1022 - filename.length, by omega⟩
    have hk' : 1022 - filename.length = k := by omega
    rw [checkpointText, List.take_append, List.take_of_length_le (by omega), hk,
      List.take_succ_cons,
      List.take_append, hk']

/-- The name that is read from a checkpoint, if it can be read: what follows it is a number, or
the next word of the name. -/
def scannedName (filename : List UInt8) : Option (List UInt8) :=
  let s := filename.dropWhile isSpace
  let fn := s.takeWhile fun c => !isSpace c
  let s := (s.dropWhile fun c => !isSpace c).dropWhile isSpace
  let sign := if s.head? = some 45 ∨ s.head? = some 43 then 1 else 0
  if fn = [] then none
  else if s = [] then some fn
  else if (s.drop sign).takeWhile isDigit = [] then none
  else some fn

/-- A newline and a number: what is in front of them decides how white space is skipped. -/
theorem dropWhile_isSpace_numbered {s number tail : List UInt8} (h : Numbered number tail) :
    (s ++ 10 :: (number ++ tail)).dropWhile isSpace =
      if s.dropWhile isSpace = [] then number ++ tail
      else s.dropWhile isSpace ++ 10 :: (number ++ tail) := by
  obtain ⟨c, number, rfl⟩ := List.exists_cons_of_ne_nil h.ne
  have hFirst : isSpace c = false :=
    not_isSpace_of_isDigit (h.digits c List.mem_cons_self)
  rw [List.dropWhile_append]
  simp only [List.isEmpty_iff]
  split
  · rw [List.dropWhile_cons_of_pos (by decide), List.cons_append,
      List.dropWhile_cons_of_neg (by simp [hFirst])]
  · rfl

/-- The words of a number and what follows it: there is no second one. -/
theorem second_word_numbered {number tail : List UInt8} (h : Numbered number tail) :
    ((number ++ tail).dropWhile fun c => !isSpace c).dropWhile isSpace = [] := by
  have hNumber : ∀ c ∈ number, (!isSpace c) = true := fun c hc => by
    rw [not_isSpace_of_isDigit (h.digits c hc)]
    rfl
  rw [List.dropWhile_append_of_pos hNumber]
  rcases h.tail with rfl | rfl
  · rfl
  · rfl

theorem takeWhile_numbered {number tail : List UInt8} (h : Numbered number tail) :
    (number ++ tail).takeWhile isDigit = number := by
  rw [List.takeWhile_append_of_pos h.digits]
  rcases h.tail with rfl | rfl
  · exact List.append_nil number
  · exact List.append_nil number

theorem head_numbered {number tail : List UInt8} (h : Numbered number tail) {c : UInt8}
    (hc : isDigit c = false) : (number ++ tail).head? ≠ some c := by
  obtain ⟨d, number, rfl⟩ := List.exists_cons_of_ne_nil h.ne
  rw [List.cons_append, List.head?_cons]
  intro hSame
  rw [Option.some.injEq] at hSame
  rw [← hSame, h.digits d List.mem_cons_self] at hc
  cases hc

/-- The sign and the digits of a word are not affected by the newline behind it. -/
theorem takeWhile_word {s t : List UInt8} (hNe : s ≠ []) {sign : Nat} (hSign : sign ≤ 1) :
    ((s ++ 10 :: t).drop sign).takeWhile isDigit = (s.drop sign).takeWhile isDigit := by
  have hLength : sign ≤ s.length := Nat.le_trans hSign (List.length_pos_of_ne_nil hNe)
  rw [List.drop_append_of_le_length hLength]
  exact takeWhile_stop (by decide)

/-- **The name that is read does not depend on the number.** -/
theorem scanCheckpoint_name {filename number tail : List UInt8} (h : Numbered number tail) :
    (scanCheckpoint (filename ++ 10 :: (number ++ tail))).map Prod.fst = scannedName filename := by
  unfold scanCheckpoint scannedName
  dsimp only
  rw [dropWhile_isSpace_numbered h]
  by_cases hBlank : filename.dropWhile isSpace = []
  · -- nothing but white space: the number is taken for the name
    rw [if_pos hBlank, hBlank, second_word_numbered h]
    simp
  · rw [if_neg hBlank, takeWhile_stop (by decide), dropWhile_stop (by decide),
      dropWhile_isSpace_numbered h]
    generalize hSecond : ((filename.dropWhile isSpace).dropWhile
      fun c => !isSpace c).dropWhile isSpace = second
    by_cases hOne : second = []
    · have hMinus : (number ++ tail).head? ≠ some 45 := head_numbered h (by decide)
      have hPlus : (number ++ tail).head? ≠ some 43 := head_numbered h (by decide)
      simp only [hOne, hMinus, hPlus, h.ne, takeWhile_numbered h, or_self, or_false, if_true,
        if_false, List.drop_zero]
      split <;> rfl
    · have hHead : (second ++ 10 :: (number ++ tail)).head? = second.head? :=
        List.head?_append_of_ne_nil _ hOne
      rw [if_neg hOne, hHead, takeWhile_word hOne (by split <;> omega)]
      simp only [hOne, if_false]
      generalize ((filename.dropWhile isSpace).takeWhile fun c => !isSpace c) = fn
      generalize (second.drop _).takeWhile isDigit = number
      by_cases hName : fn = []
      · rw [if_pos (.inl hName), if_pos hName]
        rfl
      · by_cases hNumber : number = []
        · rw [if_pos (.inr hNumber), if_neg hName, if_pos hNumber]
          rfl
        · rw [if_neg (not_or.mpr ⟨hName, hNumber⟩), if_neg hName, if_neg hNumber]
          rfl

theorem scannedName_congr (filename : List UInt8) (b b' : UInt64) :
    (scanCheckpoint (checkpointText filename b)).map Prod.fst =
      (scanCheckpoint (checkpointText filename b')).map Prod.fst := by
  by_cases hShort : filename.length < 1022
  · obtain ⟨number, tail, hNumbered, hText⟩ := checkpointText_numbered hShort b
    obtain ⟨number', tail', hNumbered', hText'⟩ := checkpointText_numbered hShort b'
    rw [hText, hText', scanCheckpoint_name hNumbered, scanCheckpoint_name hNumbered']
  · -- the number does not fit into the buffer
    have hSame : ∀ b, checkpointText filename b = (filename ++ [10]).take 1023 := by
      intro b
      rw [checkpointText, List.take_append, List.take_append]
      congr 1
      rcases Nat.lt_or_ge 1022 filename.length with hLong | hFits
      · have hZero : 1023 - filename.length = 0 := by omega
        rw [hZero, List.take_zero, List.take_zero]
      · have hOne : 1023 - filename.length = 1 := by omega
        rw [hOne]
        rfl
    rw [hSame b, hSame b']

-- ---------------------------------------------------------------------------
-- A second checkpoint
-- ---------------------------------------------------------------------------

/-- What a restored module has of the checkpoint: its name, and nothing of its number but the
place in the stream. -/
theorem restored_filename (f : File M) (m : State) :
    (f.restored m).filename =
      ((scanCheckpoint m.saveCheckpointSync).map Prod.fst).getD f.filename := by
  unfold File.restored State.restoreCheckpointSync
  cases scanCheckpoint m.saveCheckpointSync with
  | none => rfl
  | some r => rfl

theorem restored_byteCount (f : File M) (m : State) : (f.restored m).byteCount = 0 := by
  unfold File.restored State.restoreCheckpointSync
  cases scanCheckpoint m.saveCheckpointSync with
  | none => rfl
  | some r => rfl

theorem restored_congr (f : File M) {m m' : State} (hName : m.filename = m'.filename)
    (hCount : m.byteCount = m'.byteCount) : f.restored m = f.restored m' := by
  unfold File.restored
  rw [saveCheckpointSync_eq, saveCheckpointSync_eq, hName, hCount]

/-- **A second checkpoint that follows the first one at once does not depend on what was loaded
before the first one.** -/
theorem restored_restored (f : File M) {m m' : State} (hName : m.filename = m'.filename) :
    f.restored (f.restored m) = f.restored (f.restored m') := by
  refine restored_congr f ?_ ?_
  · rw [restored_filename, restored_filename, saveCheckpointSync_eq, saveCheckpointSync_eq, hName,
      scannedName_congr]
  · rw [restored_byteCount, restored_byteCount]

theorem skipLoop_filename (pb : Protobuf M) (sleep : Bool) (id : Int32) :
    ∀ (n : Nat) (m : State), (State.skipLoop pb sleep id n m).2.filename = m.filename := by
  intro n
  induction n with
  | zero =>
    intro m
    exact rfl
  | succ n ih =>
    intro m
    rw [State.skipLoop]
    split
    · rw [ih]
    · rfl
    · rfl

theorem processInputSync_filename (pb : Protobuf M) (sleep : Bool) (id : Int32) (m : State) :
    (m.processInputSync pb sleep id).2.filename = m.filename := by
  have hMark : ∀ m : State, (m.emitMark id : Outcome M × State).2.filename = m.filename := by
    intro m
    unfold State.emitMark
    split <;> rfl
  have hSkip := skipLoop_filename pb sleep id m.skipItems.toNat m
  unfold State.processInputSync
  split
  · exact hMark m
  · split
    · rename_i outcome m' hLoop
      rw [hLoop] at hSkip
      exact hSkip
    · rename_i m' hLoop
      rw [hLoop] at hSkip
      split
      · exact hSkip
      · dsimp only
        split
        · exact hSkip
        · rw [hMark]
          exact hSkip
      · split
        · exact hSkip
        · rw [hMark]
          exact hSkip

theorem load_filename (pb : Protobuf M) (sleep : Bool) :
    ∀ (ids : List Int32) {m m' : State}, load pb sleep ids m = some m' → m'.filename =
      m.filename := by
  intro ids
  induction ids with
  | nil =>
    intro m m' h
    obtain rfl := Option.some.inj h
    rfl
  | cons id ids ih =>
    intro m m' h
    have hFirst := processInputSync_filename pb sleep id m
    rw [load] at h
    split at h
    · rename_i r m₁ hCall
      rw [hCall] at hFirst
      rw [ih h]
      exact hFirst
    · cases h

/-- At the end of a stream `Skip` has nothing to skip. -/
theorem skip_rest_nil {stream : InputStream} (h : stream.rest = []) (count : Int) :
    (stream.skip count).2.rest = [] := by
  cases stream with
  | binary s =>
    change s.source.rest = [] at h
    show s.source.rest.drop _ = []
    rw [h, List.drop_nil]
  | text is =>
    change is.rest = [] at h
    have hIgnore : (is.ignore count).rest = [] := by
      unfold IStream.ignore
      split
      · show is.rest.drop _ = []
        rw [h, List.drop_nil]
      · exact h
    have hLine : ∀ is : IStream, is.rest = [] → is.getline.2.rest = [] := by
      intro is h
      unfold IStream.getline
      split
      · dsimp only
        split
        · show is.rest.drop _ = []
          rw [h, List.drop_nil]
        · show is.rest.drop _ = []
          rw [h, List.drop_nil]
      · exact h
    show (HectorCore.Stream.Text.skip count is).2.rest = []
    unfold HectorCore.Stream.Text.skip
    dsimp only
    split
    · exact hIgnore
    · exact hLine _ hIgnore

/-- The stream of a restored module is that of a new one, at another place. -/
theorem restored_stream (f : File M) (m : State) :
    ∃ stream, f.fresh.stream = some stream ∧ stream.rest = f.contents ∧
      ((f.restored m).stream = some stream ∨
        ∃ count, (f.restored m).stream = some (stream.skip count).2) := by
  unfold File.restored State.restoreCheckpointSync
  refine ⟨_, rfl, ?_, ?_⟩
  · cases hText : f.text <;> rfl
  · cases hScan : scanCheckpoint m.saveCheckpointSync with
    | none => exact .inl rfl
    | some r => exact .inr ⟨toInt32 r.2.toNat, rfl⟩

/-- Where nothing is to be loaded, a restored module stands at the end. -/
theorem resumed_of_empty (pb : Protobuf M) (sleep : Bool) {f : File M} (h : f.records = [])
    (m : State) : Resumed pb sleep f 0 (f.restored m) := by
  have hContents : f.contents = [] := by
    unfold File.contents File.recordsFrom
    rw [h]
    rfl
  refine ⟨?_, fun r hr => ?_⟩
  · obtain ⟨stream, -, hRest, hSame | ⟨count, hSkip⟩⟩ := restored_stream f m
    · rw [hSame, Option.map_some, hRest]
      rfl
    · rw [hSkip, Option.map_some, skip_rest_nil (hRest.trans hContents)]
      exact congrArg some hContents.symm
  · rw [h] at hr
    cases hr

/-- **Checkpoints resume at the right record on empty files only.** For every file of well-formed
records, binary or text, and whatever `ByteCount` of the stream under a binary one counts: loading
any number of records, saving and restoring, loading more, saving and restoring again comes to the
right record every time, if and only if the file has no records. -/
theorem checkpoint_resumes (pb : Protobuf M) (sleep : Bool) (f : File M) (hFile : f.WellFormed pb) :
    (∀ k j, k + j ≤ f.records.length → Resumes pb sleep f k j) ↔ f.records = [] := by
  constructor
  · intro hAll
    by_contra hNe
    obtain ⟨r, rs, hRecords⟩ := List.exists_cons_of_ne_nil hNe
    have hLength : 1 ≤ f.records.length := by
      rw [hRecords]
      simp
    -- nothing loaded, and two checkpoints
    obtain ⟨m, hLoad, -, m₂, hMore, hZero, -⟩ := hAll 0 0 (by omega) [] [] rfl rfl
    obtain rfl := Option.some.inj hLoad
    obtain rfl := Option.some.inj hMore
    -- one record loaded, and two checkpoints
    obtain ⟨m, hLoad, -, m₂, hMore, hOne, -⟩ := hAll 1 0 (by omega) [0] [] rfl rfl
    obtain rfl := Option.some.inj hMore
    have hName : m.filename = f.fresh.filename := load_filename pb sleep [0] hLoad
    rw [restored_restored f hName] at hOne
    rw [hZero, Option.some.injEq] at hOne
    unfold File.recordsFrom at hOne
    rw [hRecords, List.drop_zero, List.flatMap_cons] at hOne
    have hBytes : r.bytes = [] := List.append_left_eq_self.mp hOne
    exact (hFile r (by rw [hRecords]; exact List.mem_cons_self)).1 hBytes
  · intro hEmpty k j hLe
    rw [hEmpty] at hLe
    obtain ⟨rfl, rfl⟩ : k = 0 ∧ j = 0 := Nat.add_eq_zero_iff.mp (Nat.le_zero.mp hLe)
    intro first more hFirst hMore
    obtain rfl := List.length_eq_zero_iff.mp hFirst
    obtain rfl := List.length_eq_zero_iff.mp hMore
    exact ⟨_, rfl, resumed_of_empty pb sleep hEmpty _, _, rfl, resumed_of_empty pb sleep hEmpty _⟩

/-- A resource as a record of a binary file. -/
def Record.ofResource (c : HectorCore.Stream.MessageCodec M) (saveIdStatus : Bool)
    (r : Resource M) : Record M where
  bytes := HectorCore.Stream.serializeResource c r true saveIdStatus
  resource id := r.stored saveIdStatus id

theorem Record.wellFormed_ofResource {pb : Protobuf M} (hCodec : pb.codec.RoundTrips)
    (saveIdStatus : Bool) {r : Resource M}
    (hFits : (HectorCore.Stream.serializeResource pb.codec r true saveIdStatus).length ≤
      totalBytesLimit) :
    (Record.ofResource pb.codec saveIdStatus r).WellFormed pb false 0 := by
  constructor
  · have hType : ∀ v, HectorCore.Stream.writeVarint32 v ≠ [] := by
      intro v
      unfold HectorCore.Stream.writeVarint32 Lib.encodeVarint
      split <;> simp
    simp [Record.ofResource, HectorCore.Stream.serializeResource, hType]
  · intro id rest
    exact HectorCore.Stream.deserializeResource_record hCodec r saveIdStatus id hFits rest
      totalBytesLimit hFits

/-- A `FileInputStream` reads blocks; a coded stream fetches one when it is created, and the next
one when it needs more. -/
def fileFetched (blockSize length created pos : Nat) : Nat :=
  min length (max ((created / blockSize + 1) * blockSize)
    ((pos + blockSize - 1) / blockSize * blockSize))

def fileProtobuf : Protobuf (Option (List UInt8)) where
  codec := HectorCore.Stream.testProtobufCodec
  parseText _ := none
  fetched := fileFetched 8192 6
  lost _ s := s.rest.length

/-- Two strings in a binary file. -/
def twoStrings : File (Option (List UInt8)) where
  filename := [102]
  text := false
  resourceType := 0
  wait := false
  mark := -1
  records := [.ofResource HectorCore.Stream.testProtobufCodec false ⟨0, 0, .testResource [97]⟩,
    .ofResource HectorCore.Stream.testProtobufCodec false ⟨0, 0, .testResource [98]⟩]

theorem checkpoint_resumes_twoStrings :
    twoStrings.records ≠ [] ∧
      ¬ ∀ k j, k + j ≤ twoStrings.records.length → Resumes fileProtobuf false twoStrings k j := by
  have hFile : twoStrings.WellFormed fileProtobuf := by
    intro r hr
    simp only [twoStrings, List.mem_cons, List.not_mem_nil, or_false] at hr
    rcases hr with rfl | rfl
    · exact Record.wellFormed_ofResource HectorCore.Stream.testProtobufCodec_roundTrips false
        (by decide)
    · exact Record.wellFormed_ofResource HectorCore.Stream.testProtobufCodec_roundTrips false
        (by decide)
  refine ⟨by simp [twoStrings], fun hAll => ?_⟩
  have hEmpty := (checkpoint_resumes fileProtobuf false twoStrings hFile).mp hAll
  simp [twoStrings] at hEmpty

/-- One record is loaded, and the checkpoint restored: the next call returns the first record
again, and not the second one. -/
theorem restored_returns_first_again :
    ∃ m m', load fileProtobuf false [7] twoStrings.fresh = some m ∧
      (twoStrings.restored m).processInputSync fileProtobuf false 8 =
        (.resource ⟨8, 0, .testResource [97]⟩, m') ∧
      twoStrings.records[1]?.map (fun r => r.resource 8) = some ⟨8, 0, .testResource [98]⟩ := by
  refine ⟨_, _, rfl, rfl, rfl⟩

end HectorCore.Load
