import HectorCore.Stream.Input
import HectorCore.Stream.Output

/-!
# Truncated — a record that is cut off

What `DeserializeResource` makes of a proper prefix of a record.

* A binary record is needed as a whole (`needs_record`). The length of a string is written with 32
  bits, so that one of 4 GiB or more is read before its end.
* A reader of a text stream that comes to the end of the data leaves a stream that is not `good`,
  on which everything fails. But it takes what there is of a line: the last value of a record is
  accepted without its newline, and cut off anywhere.

Main result: `truncated_refused_iff`.
-/

namespace HectorCore.Stream

open Lib (Reader Reads Needs isSpace isDigit digits digits_ne_nil isDigit_digits
  not_isSpace_of_isDigit decimal decimal_digits takeWhile_stop)

variable {M : Type} {c : MessageCodec M}

-- ---------------------------------------------------------------------------
-- Binary records
-- ---------------------------------------------------------------------------

/-- A varint that is cut short is not read: each byte but the last one says that more come. -/
theorem needs_varint32 (v : UInt32) : Needs readVarint32 (writeVarint32 v) := by
  have hFits : v.toNat < 128 ^ (4 + 1) := Nat.lt_trans v.toNat_lt (by decide)
  exact Needs.map (Lib.reads_varint 4 hFits (by decide)) (Lib.needs_varint 4 hFits (by decide)) _

/-- A string behind its length. -/
theorem reads_string_of_size {size : UInt32} {bs : List UInt8} (h : size.toNat = bs.length) :
    Reads readString (writeVarint32 size ++ bs) bs := by
  refine (reads_varint32 size).bind ?_
  rw [h]
  exact Lib.reads_bytes bs

/-- Nor is a string of which some bytes are missing. -/
theorem needs_string_of_size {size : UInt32} {bs : List UInt8} (h : size.toNat = bs.length) :
    Needs readString (writeVarint32 size ++ bs) := by
  refine Needs.bind (reads_varint32 size) (needs_varint32 size) ?_
  rw [h]
  exact Lib.needs_bytes bs

/-- The type, and the id and the status of a resource. -/
def header (resource : Resource M) (saveIdStatus : Bool) : List UInt8 :=
  writeVarint32
      (if saveIdStatus then resource.payload.typeId ||| 0x80 else resource.payload.typeId) ++
    (if saveIdStatus then
      writeVarint32 resource.id.toUInt32 ++ writeVarint32 resource.status.toUInt32
    else [])

/-- A record is its header and its payload. -/
theorem serializeResource_eq (resource : Resource M) (saveIdStatus : Bool) :
    serializeResource c resource true saveIdStatus =
      header resource saveIdStatus ++ resource.payload.serialize c := by
  rw [serializeResource, if_pos rfl, header]

theorem needs_type (p : Payload M) (saveIdStatus : Bool) :
    Needs (readType 0) (writeVarint32 (if saveIdStatus then p.typeId ||| 0x80 else p.typeId)) :=
  Needs.map (reads_varint32 _) (needs_varint32 _) _

/-- What is left of `DeserializeResource` behind the header. -/
def deserializeRest (c : MessageCodec M) (kind : Kind) (id status : Int32) :
    Reader (Resource M) := do
  let payload ← kind.deserialize c
  refresh
  pure ⟨id, status, payload⟩

/-- The header is needed, and then the payload. -/
theorem needs_record (resource : Resource M) (saveIdStatus : Bool)
    (nextResourceId : Int32) {bs : List UInt8}
    (h : ∀ id status, Needs (deserializeRest c resource.payload.kind id status) bs) :
    Needs (deserializeResource c 0 nextResourceId) (header resource saveIdStatus ++ bs) := by
  unfold deserializeResource header
  rw [List.append_assoc]
  refine Needs.bind (reads_type resource.payload saveIdStatus) (needs_type _ _) ?_
  dsimp only
  rw [acquireResource_typeId]
  cases saveIdStatus with
  | false => exact h nextResourceId 0
  | true =>
    rw [if_pos rfl, List.append_assoc]
    refine Needs.bind (reads_varint32 _) (needs_varint32 _) ?_
    refine Needs.bind (reads_varint32 _) (needs_varint32 _) ?_
    exact h _ _

/-- The header is read, and then the payload. -/
theorem readsRecord_header (resource : Resource M) (saveIdStatus : Bool) (nextResourceId : Int32)
    {bs : List UInt8} {stored : Payload M}
    (h : Reads (resource.payload.kind.deserialize c) bs stored) :
    ReadsRecord (deserializeResource c 0 nextResourceId) (header resource saveIdStatus ++ bs)
      (if saveIdStatus then ⟨resource.id, resource.status, stored⟩
        else ⟨nextResourceId, 0, stored⟩) := by
  have hRest : ∀ id status, ReadsRecord (deserializeRest c resource.payload.kind id status) bs
      ⟨id, status, stored⟩ := by
    intro id status
    have hRead := readsRecord_bind h
      (q := fun payload => do refresh; pure (⟨id, status, payload⟩ : Resource M))
      (readsRecord_refresh (⟨id, status, stored⟩ : Resource M))
    rwa [List.append_nil] at hRead
  unfold deserializeResource header
  rw [List.append_assoc]
  refine readsRecord_bind (reads_type resource.payload saveIdStatus) ?_
  dsimp only
  rw [acquireResource_typeId]
  cases saveIdStatus with
  | false => exact hRest nextResourceId 0
  | true =>
    rw [if_pos rfl, List.append_assoc]
    refine readsRecord_bind (reads_varint32 _) (readsRecord_bind (reads_varint32 _) ?_)
    rw [Int32.toInt32_toUInt32, Int32.toInt32_toUInt32]
    exact hRest resource.id resource.status

/-- A marker in a binary stream. -/
theorem marker_refused (resource : Resource M) {mark : Int32}
    (hMarker : resource.payload = .markerResource mark) (saveIdStatus : Bool)
    (nextResourceId : Int32)
    {bytes : List UInt8} (hPrefix : bytes <+: serializeResource c resource true saveIdStatus)
    (hNe : bytes ≠ serializeResource c resource true saveIdStatus) :
    deserializeResource c 0 nextResourceId (openStream bytes) = none := by
  have hNeeds : Needs (deserializeResource c 0 nextResourceId)
      (serializeResource c resource true saveIdStatus) := by
    rw [serializeResource_eq]
    refine needs_record resource saveIdStatus nextResourceId fun id status => ?_
    rw [hMarker]
    have h := Needs.bind (q := fun payload => do refresh; pure (⟨id, status, payload⟩ : Resource M))
      ((reads_varint32 mark.toUInt32).map fun x => Payload.markerResource (M := M) x.toInt32)
      (Needs.map (reads_varint32 mark.toUInt32) (needs_varint32 mark.toUInt32) _) (Needs.nil _)
    rwa [List.append_nil] at h
  exact hNeeds.of_prefix hPrefix hNe totalBytesLimit

theorem toNat_ofNat_length_take (str : List UInt8) : (UInt32.ofNat str.length).toNat =
    ((str.map blank).take (str.length % 2 ^ 32)).length := by
  have hLe : str.length % 2 ^ 32 ≤ str.length := Nat.mod_le _ _
  rw [List.length_take, List.length_map, Nat.min_eq_left hLe, UInt32.toNat_ofNat']

section TestResource

variable (resource : Resource M) {str : List UInt8} (hTest : resource.payload = .testResource str)
  (saveIdStatus : Bool) (nextResourceId : Int32)

/-- What is read of the record of a `TestResource`: as much of the string as its length, which is
written with 32 bits, says. -/
def readPart (resource : Resource M) (str : List UInt8) (saveIdStatus : Bool) : List UInt8 :=
  header resource saveIdStatus ++ (writeVarint32 (UInt32.ofNat str.length) ++
    (str.map blank).take (str.length % 2 ^ 32))

/-- The length is written modulo `2 ^ 32`, and as many bytes are read. -/
theorem length_readPart : (readPart resource str saveIdStatus).length =
    (header resource saveIdStatus).length + (writeVarint32 (UInt32.ofNat str.length)).length +
      str.length % 2 ^ 32 := by
  have hLe : str.length % 2 ^ 32 ≤ str.length := Nat.mod_le _ _
  rw [readPart, List.length_append, List.length_append, List.length_take, List.length_map,
    Nat.min_eq_left hLe]
  omega

include hTest

theorem serializeResource_test : serializeResource c resource true saveIdStatus =
    header resource saveIdStatus ++ (writeVarint32 (UInt32.ofNat str.length) ++ str.map blank) := by
  rw [serializeResource_eq, hTest, Payload.serialize, replaceNewlines_eq _ List.count_le_length,
    writeString, List.length_map]

/-- The record begins with it, -/
theorem readPart_prefix :
    readPart resource str saveIdStatus <+: serializeResource c resource true saveIdStatus := by
  rw [serializeResource_test resource hTest, readPart]
  refine (List.prefix_append_right_inj _).mpr ((List.prefix_append_right_inj _).mpr ?_)
  exact List.take_prefix _ _

/-- it is read as a record, -/
theorem reads_readPart : ∃ r, ReadsRecord (deserializeResource c 0 nextResourceId)
    (readPart resource str saveIdStatus) r := by
  have hString : Reads (resource.payload.kind.deserialize c)
      (writeVarint32 (UInt32.ofNat str.length) ++ (str.map blank).take (str.length % 2 ^ 32))
      (.testResource ((str.map blank).take (str.length % 2 ^ 32))) := by
    rw [hTest]
    exact (reads_string_of_size (toNat_ofNat_length_take str)).map Payload.testResource
  exact ⟨_, readsRecord_header resource saveIdStatus nextResourceId hString⟩

/-- and none of its bytes can be spared. -/
theorem needs_readPart :
    Needs (deserializeResource c 0 nextResourceId) (readPart resource str saveIdStatus) := by
  refine needs_record resource saveIdStatus nextResourceId fun id status => ?_
  rw [hTest]
  have hSize := toNat_ofNat_length_take str
  have h := Needs.bind (q := fun payload => do refresh; pure (⟨id, status, payload⟩ : Resource M))
    ((reads_string_of_size hSize).map (Payload.testResource (M := M)))
    (Needs.map (reads_string_of_size hSize) (needs_string_of_size hSize) _) (Needs.nil _)
  rwa [List.append_nil] at h

/-- A `TestResource` in a binary stream. -/
theorem test_refused_iff :
    (∀ bytes, bytes <+: serializeResource c resource true saveIdStatus →
      bytes ≠ serializeResource c resource true saveIdStatus →
      deserializeResource c 0 nextResourceId (openStream bytes) = none) ↔
    str.length < 2 ^ 32 ∨ totalBytesLimit < (readPart resource str saveIdStatus).length := by
  have hPart := readPart_prefix (c := c) resource hTest saveIdStatus
  have hNeeds := needs_readPart (c := c) resource hTest saveIdStatus nextResourceId
  have hWhole : (serializeResource c resource true saveIdStatus).length =
      (header resource saveIdStatus).length + (writeVarint32 (UInt32.ofNat str.length)).length +
        str.length := by
    rw [serializeResource_test resource hTest, List.length_append, List.length_append,
      List.length_map]
    omega
  have hRead : (readPart resource str saveIdStatus).length = _ :=
    length_readPart resource saveIdStatus
  constructor
  · intro hRefused
    by_contra hNot
    rw [not_or, Nat.not_lt, Nat.not_lt] at hNot
    obtain ⟨hLong, hRoom⟩ := hNot
    obtain ⟨r, hReads⟩ := reads_readPart (c := c) resource hTest saveIdStatus nextResourceId
    have hAccepted := hReads [] totalBytesLimit hRoom
    rw [List.append_nil] at hAccepted
    have hNull := hRefused _ hPart fun hSame => by
      have hLength := congrArg List.length hSame
      omega
    rw [openStream, hAccepted] at hNull
    exact absurd hNull (by simp)
  · rintro (hShort | hLimit) bytes hPrefix hNe
    · have hSame : readPart resource str saveIdStatus =
        serializeResource c resource true saveIdStatus := by
        refine hPart.eq_of_length ?_
        rw [Nat.mod_eq_of_lt hShort] at hRead
        omega
      rw [hSame] at hNeeds
      exact hNeeds.of_prefix hPrefix hNe totalBytesLimit
    · exact hNeeds.of_limit hPart hPrefix hLimit

end TestResource

-- ---------------------------------------------------------------------------
-- Text records
-- ---------------------------------------------------------------------------

namespace Text

/-- On a stream that is not good everything fails. -/
theorem readVarint32_of_not_good {is : IStream} (h : is.good = false) :
    readVarint32 is = (none, { is with fail := true }) := by
  rw [readVarint32, IStream.extract, h]
  rfl

theorem getline_of_not_good {is : IStream} (h : is.good = false) :
    is.getline = ([], { is with fail := true }) := by
  rw [IStream.getline, h]
  rfl

theorem deserialize_of_not_good (parse : List UInt8 → Option M) (kind : Kind) {is : IStream}
    (h : is.good = false) : (deserialize parse kind is).1 = none := by
  cases kind with
  | testResource =>
    rw [deserialize, readString, getline_of_not_good h]
    rfl
  | testProtobufResource =>
    rw [deserialize, parseMessage, getline_of_not_good h]
    rfl
  | markerResource =>
    rw [deserialize, readVarint32_of_not_good h]
    rfl

/-- At the end of the stream there is no id. -/
theorem readIdStatus_of_not_good {is : IStream} (h : is.good = false) :
    (readIdStatus is).1 = none := by
  rw [readIdStatus, readVarint32_of_not_good h]

/-- A number without its newline, at the end of the data. -/
theorem extract_cut {ds : List UInt8} (hDigits : ∀ c ∈ ds, isDigit c = true) (bits pos : Nat) :
    (streamAt ds pos).extract bits =
      (if ds ≠ [] ∧ decimal ds < 2 ^ bits then some (decimal ds) else none,
        ⟨[], pos + ds.length, true, !decide (ds ≠ [] ∧ decimal ds < 2 ^ bits)⟩) := by
  have hSpace : ds.takeWhile isSpace = [] := by
    cases ds with
    | nil => rfl
    | cons d ds =>
      rw [List.takeWhile_cons_of_neg]
      rw [not_isSpace_of_isDigit (hDigits d List.mem_cons_self)]
      decide
  have hSign : ∀ c, isDigit c = false → ds.head? ≠ some c := by
    intro c hc hSame
    rw [hDigits c (List.mem_of_head? hSame)] at hc
    exact absurd hc (by decide)
  have hMinus := hSign 45 (by decide)
  have hPlus := hSign 43 (by decide)
  have hTake : ds.takeWhile isDigit = ds := List.takeWhile_eq_self_iff.mpr hDigits
  have hGood : (streamAt ds pos).good = true := rfl
  simp only [IStream.extract, hGood, if_true]
  simp only [streamAt, hSpace, List.length_nil, IStream.advance, List.drop_zero,
    Nat.add_zero, hMinus,
    hPlus, or_self, if_false, hTake, Nat.zero_add, List.drop_length, decide_true]
  by_cases hFits : ds ≠ [] ∧ decimal ds < 2 ^ bits
  · rw [if_pos hFits, if_pos hFits, decide_eq_true hFits]
    rfl
  · rw [if_neg hFits, if_neg hFits, decide_eq_false hFits]
    rfl

/-- Behind a number that is cut off nothing is read. -/
theorem not_good_readVarint32_cut {ds : List UInt8} (hDigits : ∀ c ∈ ds, isDigit c = true)
    (pos : Nat) : (readVarint32 (streamAt ds pos)).2.good = false := by
  rw [readVarint32, extract_cut hDigits]
  split
  · rename_i is hNone
    obtain ⟨-, rfl⟩ := Prod.mk.inj hNone
    rfl
  · rename_i value is hSome
    obtain ⟨-, rfl⟩ := Prod.mk.inj hSome
    rw [getline_of_not_good rfl]
    rfl

/-- A part of a line and of what follows it. -/
theorem prefix_line_cases {line tail bytes : List UInt8} (h : bytes <+: line ++ 10 :: tail) :
    bytes <+: line ∨ ∃ rest, bytes = line ++ 10 :: rest ∧ rest <+: tail := by
  rcases List.prefix_or_prefix_of_prefix h (List.prefix_append line (10 :: tail)) with hLine | hLine
  · exact .inl hLine
  · obtain ⟨rest, rfl⟩ := hLine
    have hRest := (List.prefix_append_right_inj line).mp h
    cases rest with
    | nil =>
      rw [List.append_nil]
      exact .inl (List.prefix_refl _)
    | cons d rest =>
      obtain ⟨rfl, hTail⟩ := List.cons_prefix_cons.mp hRest
      exact .inr ⟨rest, rfl, hTail⟩

/-- A part of a number, its newline and what follows: nothing is read behind the number, or the
number is there. -/
theorem readVarint32_prefix {v : UInt32} {tail bytes : List UInt8}
    (h : bytes <+: writeVarint32 v ++ tail) (pos : Nat) :
    (readVarint32 (streamAt bytes pos)).2.good = false ∨
      ∃ rest, bytes = writeVarint32 v ++ rest ∧ rest <+: tail := by
  have hLine : writeVarint32 v ++ tail = digits v.toNat ++ 10 :: tail := by
    rw [writeVarint32, writeNumber, List.append_assoc]
    rfl
  rw [hLine] at h
  rcases prefix_line_cases h with hCut | ⟨rest, rfl, hRest⟩
  · refine .inl (not_good_readVarint32_cut ?_ pos)
    intro c hc
    exact isDigit_digits (hCut.subset hc)
  · refine .inr ⟨rest, ?_, hRest⟩
    rw [writeVarint32, writeNumber, List.append_assoc]
    rfl

theorem readVarint32_writeVarint32 (v : UInt32) (rest : List UInt8) (pos : Nat) :
    readVarint32 (streamAt (writeVarint32 v ++ rest) pos) =
      (some v, streamAt rest (pos + (writeVarint32 v).length)) := by
  rw [readVarint32_eq, writeVarint32, readNumber_writeNumber v.toNat_lt, Option.map_some,
    UInt32.ofNat_toNat]

section Records

variable (parse : List UInt8 → Option M) (resource : Resource M) (nextResourceId : Int32)

/-- What is left of `DeserializeResource` behind the type. -/
def deserializeBehindType (parse : List UInt8 → Option M) (kind : Kind) (hasIdStatus : Bool)
    (nextResourceId : Int32) (is : IStream) : Option (Resource M) × IStream :=
  match if hasIdStatus then readIdStatus is else (some (nextResourceId, 0), is) with
  | (none, is) => (none, is)
  | (some (id, status), is) =>
    let (payload, is) := deserialize parse kind is
    (payload.map fun payload => ⟨id, status, payload⟩, is)

theorem deserializeResource_of_type {bytes : List UInt8} {pos : Nat} {type : UInt32} {is : IStream}
    (h : readVarint32 (streamAt bytes pos) = (some type, is)) {kind : Kind}
    (hKind : acquireResource (type &&& 0x7f) = some kind) :
    deserializeResource parse 0 nextResourceId (streamAt bytes pos) =
      deserializeBehindType parse kind (decide (type &&& 0x80 ≠ 0)) nextResourceId is := by
  have hType : readType 0 (streamAt bytes pos) =
      (some (type &&& 0x7f, decide (type &&& 0x80 ≠ 0)), is) := by
    simp only [readType, if_true, h, Option.map_some]
  unfold deserializeResource
  rw [hType]
  dsimp only
  rw [hKind]
  exact rfl

/-- The payload alone. -/
theorem deserializeBehindType_false (kind : Kind) (is : IStream) :
    (deserializeBehindType parse kind false nextResourceId is).1 =
      (deserialize parse kind is).1.map fun payload => ⟨nextResourceId, 0, payload⟩ := rfl

/-- The id and the status, and then the payload. -/
theorem deserializeBehindType_true {kind : Kind} {is is' : IStream} {id status : Int32}
    (h : readIdStatus is = (some (id, status), is')) :
    (deserializeBehindType parse kind true nextResourceId is).1 =
      (deserialize parse kind is').1.map fun payload => ⟨id, status, payload⟩ := by
  rw [deserializeBehindType, if_pos rfl, h]

theorem deserializeBehindType_of_none {kind : Kind} {is : IStream}
    (h : (readIdStatus is).1 = none) :
    (deserializeBehindType parse kind true nextResourceId is).1 = none := by
  rw [deserializeBehindType, if_pos rfl]
  rcases hRead : readIdStatus is with ⟨_ | ⟨id, status⟩, is'⟩
  · rfl
  · rw [hRead] at h
    exact absurd h (by simp)

/-- Nothing is read from a stream that has ended, whichever flags the type carries. -/
theorem deserializeBehindType_of_not_good {kind : Kind} {hasIdStatus : Bool} {is : IStream}
    (h : is.good = false) :
    (deserializeBehindType parse kind hasIdStatus nextResourceId is).1 = none := by
  cases hasIdStatus with
  | false =>
    rw [deserializeBehindType_false, deserialize_of_not_good parse kind h, Option.map_none]
  | true => exact deserializeBehindType_of_none parse nextResourceId (readIdStatus_of_not_good h)

/-- A type behind which nothing is read. -/
theorem deserializeResource_of_not_good {bytes : List UInt8} {pos : Nat}
    (h : (readVarint32 (streamAt bytes pos)).2.good = false) :
    (deserializeResource parse 0 nextResourceId (streamAt bytes pos)).1 = none := by
  obtain ⟨type, is, hRead⟩ : ∃ type is, readVarint32 (streamAt bytes pos) =
    (type, is) := ⟨_, _, rfl⟩
  rw [hRead] at h
  cases type with
  | none => simp only [deserializeResource, readType, if_true, hRead, Option.map_none]
  | some type =>
    cases hKind : acquireResource (type &&& 0x7f) with
    | none => simp only [deserializeResource, readType, if_true, hRead, Option.map_some, hKind]
    | some kind =>
      rw [deserializeResource_of_type parse nextResourceId hRead hKind]
      exact deserializeBehindType_of_not_good parse nextResourceId h

/-- **A text record is read up to its payload.** -/
theorem deserializeResource_type (saveIdStatus : Bool) (rest : List UInt8) :
    deserializeResource parse 0 nextResourceId (streamAt (writeVarint32 (if saveIdStatus then
        resource.payload.typeId ||| 0x80 else resource.payload.typeId) ++ rest) 0) =
      deserializeBehindType parse resource.payload.kind saveIdStatus nextResourceId
        (streamAt rest (0 + (writeVarint32 (if saveIdStatus then
          resource.payload.typeId ||| 0x80 else resource.payload.typeId)).length)) := by
  obtain ⟨hType, hFlag⟩ := Prod.mk.inj (typeId_flag resource.payload saveIdStatus)
  have h := deserializeResource_of_type parse nextResourceId
    (readVarint32_writeVarint32 (if saveIdStatus then
      resource.payload.typeId ||| 0x80 else resource.payload.typeId) rest 0)
    (hType ▸ acquireResource_typeId resource.payload)
  rw [h, hFlag]

/-- Ids and statuses are written as unsigned, and come back with their sign. -/
theorem readIdStatus_write (id status : Int32) (rest : List UInt8) (pos : Nat) :
    readIdStatus
        (streamAt (writeVarint32 id.toUInt32 ++ (writeVarint32 status.toUInt32 ++ rest)) pos) =
      (some (id, status), streamAt rest (pos + (writeVarint32 id.toUInt32).length +
        (writeVarint32 status.toUInt32).length)) := by
  simp only [readIdStatus, readVarint32_writeVarint32, Option.map_some, Int32.toInt32_toUInt32]

/-- Behind a part of the id and the status nothing is read. -/
theorem deserializeBehindType_prefix {kind : Kind} {id status : Int32} {payload bytes : List UInt8}
    (h : bytes <+: writeVarint32 id.toUInt32 ++ (writeVarint32 status.toUInt32 ++ payload))
    (pos : Nat) :
    (deserializeBehindType parse kind true nextResourceId (streamAt bytes pos)).1 = none ∨
      ∃ rest, bytes = writeVarint32 id.toUInt32 ++ (writeVarint32 status.toUInt32 ++ rest) ∧
        rest <+: payload := by
  rcases readVarint32_prefix h pos with hCut | ⟨bytes', rfl, h'⟩
  · refine .inl (deserializeBehindType_of_none parse nextResourceId ?_)
    rw [readIdStatus]
    rcases hRead : readVarint32 (streamAt bytes pos) with ⟨_ | id', is⟩
    · rfl
    · rw [hRead] at hCut
      dsimp only
      rw [readVarint32_of_not_good hCut]
      rfl
  · rcases readVarint32_prefix h' (pos + (writeVarint32 id.toUInt32).length) with
      hCut | ⟨rest, rfl, hRest⟩
    · refine .inl ?_
      rcases hRead : readIdStatus (streamAt (writeVarint32 id.toUInt32 ++ bytes') pos) with
        ⟨_ | ⟨id', status'⟩, is⟩
      · exact deserializeBehindType_of_none parse nextResourceId (by rw [hRead])
      · rw [deserializeBehindType_true parse nextResourceId hRead, deserialize_of_not_good,
          Option.map_none]
        simp only [readIdStatus, readVarint32_writeVarint32] at hRead
        rw [← (Prod.mk.inj hRead).2]
        exact hCut
    · exact .inr ⟨rest, rfl, hRest⟩

/-- The record is cut off in its payload, which is accepted. -/
theorem accepted_of_payload (saveIdStatus : Bool) {rest : List UInt8}
    (h : ∀ pos, (deserialize parse resource.payload.kind (streamAt rest pos)).1 ≠ none) :
    (deserializeResource parse 0 nextResourceId
      (IStream.ofBytes (header resource saveIdStatus ++ rest))).1 ≠ none := by
  show (deserializeResource parse 0 nextResourceId
    (streamAt (header resource saveIdStatus ++ rest) 0)).1 ≠ none
  rw [header, List.append_assoc, deserializeResource_type]
  cases saveIdStatus with
  | false =>
    rw [deserializeBehindType_false, if_neg Bool.false_ne_true, List.nil_append, ne_eq,
      Option.map_eq_none_iff]
    exact h _
  | true =>
    rw [if_pos rfl, List.append_assoc, deserializeBehindType_true parse nextResourceId
      (readIdStatus_write resource.id resource.status rest _), ne_eq, Option.map_eq_none_iff]
    exact h _

/-- Wherever the record is cut off, if no part of the payload is accepted. -/
theorem refused_of_payload (saveIdStatus : Bool) {payload bytes : List UInt8}
    (h : ∀ rest, rest <+: payload → rest ≠ payload → ∀ pos,
      (deserialize parse resource.payload.kind (streamAt rest pos)).1 = none)
    (hPrefix : bytes <+: header resource saveIdStatus ++ payload)
    (hNe : bytes ≠ header resource saveIdStatus ++ payload) :
    (deserializeResource parse 0 nextResourceId (IStream.ofBytes bytes)).1 = none := by
  show (deserializeResource parse 0 nextResourceId (streamAt bytes 0)).1 = none
  rw [header, List.append_assoc] at hPrefix hNe
  rcases readVarint32_prefix hPrefix 0 with hCut | ⟨bytes', rfl, hPrefix'⟩
  · exact deserializeResource_of_not_good parse nextResourceId hCut
  · rw [deserializeResource_type]
    have hNe' := fun hSame => hNe (congrArg (writeVarint32 _ ++ ·) hSame)
    cases saveIdStatus with
    | false =>
      rw [if_neg Bool.false_ne_true, List.nil_append] at hPrefix' hNe'
      rw [deserializeBehindType_false, h bytes' hPrefix' hNe', Option.map_none]
    | true =>
      rw [if_pos rfl, List.append_assoc] at hPrefix' hNe'
      rcases deserializeBehindType_prefix parse nextResourceId hPrefix' _ with
        hNone | ⟨rest, rfl, hRest⟩
      · exact hNone
      · rw [deserializeBehindType_true parse nextResourceId
          (readIdStatus_write resource.id resource.status rest _), h rest hRest, Option.map_none]
        intro hSame
        exact hNe' (by rw [hSame])

end Records

-- ---------------------------------------------------------------------------
-- Payloads
-- ---------------------------------------------------------------------------

/-- A number is accepted without its newline. -/
theorem readVarint32_digits (v : UInt32) (pos : Nat) :
    (readVarint32 (streamAt (digits v.toNat) pos)).1 = some v := by
  have hFits : digits v.toNat ≠ [] ∧ decimal (digits v.toNat) < 2 ^ 32 := by
    rw [decimal_digits]
    exact ⟨digits_ne_nil _, v.toNat_lt⟩
  rw [readVarint32, extract_cut fun c hc => isDigit_digits hc, if_pos hFits, decimal_digits]
  dsimp only
  rw [UInt32.ofNat_toNat]

/-- A line is accepted without its newline, unless it is empty. -/
theorem getline_cut {line : List UInt8} (h : 10 ∉ line) (pos : Nat) :
    (streamAt line pos).getline = (line, ⟨[], pos + line.length, true, line.isEmpty⟩) := by
  have hLine : line.takeWhile (· ≠ 10) = line := by
    rw [List.takeWhile_eq_self_iff]
    intro c hc
    have hNe : c ≠ 10 := fun hSame => h (hSame ▸ hc)
    exact decide_eq_true hNe
  have hGood : (streamAt line pos).good = true := rfl
  simp only [IStream.getline, hGood, if_true]
  simp only [streamAt, hLine, Nat.lt_irrefl, if_false, IStream.advance, List.drop_length]

/-- A line without its newline is read like a whole one, if there is anything in it. -/
theorem readString_cut {line : List UInt8} (h : 10 ∉ line) (pos : Nat) :
    (readString (streamAt line pos)).1 = none ↔ line = [] := by
  rw [readString, getline_cut h]
  dsimp only
  cases line with
  | nil => exact iff_of_true rfl rfl
  | cons d line => exact iff_of_false (by simp) (by simp)

theorem escape_ne_nil {str : List UInt8} (h : str ≠ []) : escape str ≠ [] := by
  obtain ⟨c, cs, rfl⟩ := List.exists_cons_of_ne_nil h
  rw [escape, List.flatMap_cons]
  intro hNil
  have hByte := (List.append_eq_nil_iff.mp hNil).1
  rw [escapeByte] at hByte
  split_ifs at hByte

end Text

-- ---------------------------------------------------------------------------
-- Both kinds of streams
-- ---------------------------------------------------------------------------

/-- **A truncated record is never accepted**: `DeserializeResource` returns NULL for every proper
prefix of the record. -/
def TruncatedRefused (pb : Protobuf M) (print : M → List UInt8) (resource : Resource M)
    (text saveIdStatus : Bool) : Prop :=
  ∀ bytes, bytes <+: serializeTo pb.codec print text resource true saveIdStatus →
    bytes ≠ serializeTo pb.codec print text resource true saveIdStatus →
    ∀ nextResourceId, ((InputStream.ofBytes text bytes).read pb 0 nextResourceId).1 = none

/-- The records of which all is needed: binary ones, unless a string is so long that its length
does not fit and the rest does, and the text record of an empty string. -/
structure NeededWhole (resource : Resource M) (text saveIdStatus : Bool) : Prop where
  test : ∀ str, resource.payload = .testResource str →
    if text then str = []
    else str.length < 2 ^ 32 ∨ totalBytesLimit < (header resource saveIdStatus).length +
      (writeVarint32 (UInt32.ofNat str.length)).length + str.length % 2 ^ 32
  marker : ∀ mark, resource.payload = .markerResource mark → text = false

section BothKinds

variable {pb : Protobuf M} {print : M → List UInt8} (resource : Resource M) {saveIdStatus : Bool}

/-- Binary: a string of 2 ^ 32 bytes or more is read as a shorter one, if the limit lets it. -/
theorem binary_truncated_test {str : List UInt8} (hTest : resource.payload = .testResource str) :
    TruncatedRefused pb print resource false saveIdStatus ↔
      (str.length < 2 ^ 32 ∨ totalBytesLimit < (header resource saveIdStatus).length +
        (writeVarint32 (UInt32.ofNat str.length)).length + str.length % 2 ^ 32) := by
  have hIff := fun nextResourceId => test_refused_iff (c := pb.codec) resource hTest saveIdStatus
    nextResourceId
  rw [length_readPart] at hIff
  constructor
  · intro h
    refine (hIff 0).mp fun bytes hPrefix hNe => ?_
    exact InputStream.read_binary_eq_none.mp (h bytes hPrefix hNe 0)
  · intro h bytes hPrefix hNe nextResourceId
    exact InputStream.read_binary_eq_none.mpr ((hIff nextResourceId).mpr h bytes hPrefix hNe)

/-- Binary: a mark is never taken for another one, -/
theorem binary_truncated_marker {mark : Int32} (hMarker : resource.payload = .markerResource mark) :
    TruncatedRefused pb print resource false saveIdStatus := by
  intro bytes hPrefix hNe nextResourceId
  exact InputStream.read_binary_eq_none.mpr
    (marker_refused resource hMarker saveIdStatus nextResourceId hPrefix hNe)

theorem read_text (bytes : List UInt8) (nextResourceId : Int32) :
    ((InputStream.ofBytes true bytes).read pb 0 nextResourceId).1 =
      (Text.deserializeResource pb.parseText 0 nextResourceId (IStream.ofBytes bytes)).1 := by
  rw [InputStream.ofBytes, if_pos rfl, InputStream.read]

/-- The last newline alone is missing. -/
theorem text_truncated_of_line {line : List UInt8}
    (hLine : Text.serialize print resource.payload = line ++ [10])
    (h : ∀ pos,
      (Text.deserialize pb.parseText resource.payload.kind (Text.streamAt line pos)).1 ≠ none) :
    ¬ TruncatedRefused pb print resource true saveIdStatus := by
  intro hRefused
  have hRecord : serializeTo pb.codec print true resource true saveIdStatus =
      (Text.header resource saveIdStatus ++ line) ++ [10] := by
    rw [serializeTo, if_pos rfl, Text.serializeResource, if_pos rfl, hLine, List.append_assoc]
  have hNull := hRefused (Text.header resource saveIdStatus ++ line)
    (hRecord ▸ List.prefix_append _ _) (by rw [hRecord]; simp) 0
  rw [read_text] at hNull
  exact Text.accepted_of_payload pb.parseText resource 0 saveIdStatus h hNull

/-- Text: a string without its last bytes is a string. -/
theorem text_truncated_test {str : List UInt8} (hTest : resource.payload = .testResource str) :
    TruncatedRefused pb print resource true saveIdStatus ↔ str = [] := by
  have hPayload : Text.serialize print resource.payload = Text.escape (str.map blank) ++ [10] := by
    rw [hTest, Text.serialize, replaceNewlines_eq _ List.count_le_length, Text.writeString_eq]
  have hNewline := Text.newline_not_mem_escape (str.map blank)
  constructor
  · intro hRefused
    by_contra hNe
    refine text_truncated_of_line resource hPayload ?_ hRefused
    intro pos
    have hRead := (Text.readString_cut hNewline pos).not.mpr
      (Text.escape_ne_nil (by simpa using hNe))
    rw [hTest, ne_eq]
    exact fun hNone => hRead (Option.map_eq_none_iff.mp hNone)
  · rintro rfl bytes hPrefix hNe nextResourceId
    rw [serializeTo, if_pos rfl, Text.serializeResource, if_pos rfl] at hPrefix hNe
    rw [read_text]
    refine Text.refused_of_payload pb.parseText resource nextResourceId saveIdStatus ?_ hPrefix hNe
    intro rest hRest hRestNe pos
    -- nothing is left of an empty line
    rw [hPayload] at hRest hRestNe
    have hNil : rest = [] := by
      cases rest with
      | nil => rfl
      | cons d rest =>
        obtain ⟨rfl, hTail⟩ := List.cons_prefix_cons.mp hRest
        rw [List.prefix_nil.mp hTail] at hRestNe
        exact absurd rfl hRestNe
    rw [hNil, hTest]
    rfl

/-- and a mark without its last digit is a mark. -/
theorem text_truncated_marker {mark : Int32} (hMarker : resource.payload = .markerResource mark) :
    ¬ TruncatedRefused pb print resource true saveIdStatus := by
  have hPayload : Text.serialize print resource.payload = digits mark.toUInt32.toNat ++ [10] := by
    rw [hMarker]
    rfl
  refine text_truncated_of_line resource hPayload fun pos => ?_
  have hRead := Text.readVarint32_digits mark.toUInt32 pos
  rw [hMarker, ne_eq]
  intro hNone
  exact absurd (hRead.symm.trans (Option.map_eq_none_iff.mp hNone)) (by simp)

end BothKinds

/-- **Which truncated records are refused**, of a `TestResource` or a `MarkerResource`. -/
theorem truncated_refused_iff (pb : Protobuf M) (print : M → List UInt8) (resource : Resource M)
    (hKind : resource.payload.kind ≠ .testProtobufResource) (text saveIdStatus : Bool) :
    TruncatedRefused pb print resource text saveIdStatus ↔
      NeededWhole resource text saveIdStatus := by
  obtain ⟨id, status, payload⟩ := resource
  cases payload with
  | testProtobufResource r => exact absurd rfl hKind
  | testResource str =>
    cases text with
    | false =>
      rw [binary_truncated_test _ rfl]
      exact ⟨fun h => ⟨by rintro _ ⟨⟩; exact h, by rintro _ ⟨⟩⟩, fun h => h.test str rfl⟩
    | true =>
      rw [text_truncated_test _ rfl]
      exact ⟨fun h => ⟨by rintro _ ⟨⟩; exact h, by rintro _ ⟨⟩⟩, fun h => h.test str rfl⟩
  | markerResource mark =>
    cases text with
    | false => exact iff_of_true (binary_truncated_marker _ rfl) ⟨by rintro _ ⟨⟩, fun _ _ => rfl⟩
    | true =>
      refine iff_of_false (text_truncated_marker _ rfl) fun h => ?_
      exact absurd (h.marker mark rfl) (by decide)

theorem truncated_refused_marker :
    TruncatedRefused ⟨testProtobufCodec, fun _ => none, fun _ q => q, fun _ s => s.rest.length⟩
      (fun _ => [])
      ⟨7, -1, .markerResource 300⟩ false true :=
  (truncated_refused_iff _ _ _ (by decide) false true).mpr ⟨by rintro _ ⟨⟩, fun _ _ => rfl⟩

/-- A `TestResource` in a text stream, of which two bytes and the newline are missing. -/
theorem truncated_text_accepted :
    ¬ TruncatedRefused ⟨testProtobufCodec, fun _ => none, fun _ q => q, fun _ s => s.rest.length⟩
      (fun _ => [])
      ⟨7, 0, .testResource [104, 101, 108, 108, 111]⟩ true false := by
  intro h
  have hNull := h [49, 10, 104, 101, 108] (by decide) (by decide) 0
  exact absurd hNull (by decide)

end HectorCore.Stream
