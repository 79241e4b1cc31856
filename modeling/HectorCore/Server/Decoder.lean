import HectorCore.Stream.RoundTrip
import HectorCore.Server.Process

/-!
# Decoder — the request loop against DeserializeResource

The loop of `BaseServer::HandleRequest` reads the type of a record itself and hands it to
`DeserializeResource` as `resourceType`; `DeserializeResource(stream, 0, ..)` reads the type,
takes the flag off it, and then the id and the status if the flag was set.

The classes are those of any registry: a class writes payloads and reads them back, and has a
type. `Record` is a resource of a registered class that reads back what it writes; what the
resources of the repository write and read are records (`Record.ofResource`).

* `deserializeResource_type`  — where the two ways agree: a type of seven bits, without the flag;
* `decoders_agree_iff`        — for which lists both decode the same resources.
-/

namespace HectorCore.Server

open HectorCore.Stream
open Lib (Source Reader Reads)

variable {P : Type}

-- ---------------------------------------------------------------------------
-- Classes
-- ---------------------------------------------------------------------------

/-- `Serialize` and `Deserialize` of a class. -/
structure WireClass (P : Type) where
  serialize : P → List UInt8
  deserialize : Reader P

/-- What the registry knows. `AcquireResource` refuses negative types, and zero is no type: it
stands for a type that has to be read. -/
structure Classes (P : Type) where
  find : UInt32 → Option (WireClass P)
  positive : ∀ type cls, find type = some cls → 0 < type.toNat ∧ type.toNat < 2 ^ 31

/-- A resource of a registered class that reads back what it writes, whatever follows. -/
structure Record (classes : Classes P) where
  typeId : UInt32
  cls : WireClass P
  registered : classes.find typeId = some cls
  id : Int32
  status : Int32
  payload : P
  stored : P
  reads : (cls.serialize payload).length ≤ totalBytesLimit →
    Reads cls.deserialize (cls.serialize payload) stored

/-- What a decoder makes of a record. -/
structure Decoded (P : Type) where
  typeId : UInt32
  id : Int32
  status : Int32
  payload : P
  deriving DecidableEq, Repr

variable {classes : Classes P}

/-- The type as it is written. -/
def Record.wireType (r : Record classes) (saveIdStatus : Bool) : UInt32 :=
  if saveIdStatus then r.typeId ||| 0x80 else r.typeId

def Record.idStatus (r : Record classes) (saveIdStatus : Bool) : List UInt8 :=
  if saveIdStatus then writeVarint32 r.id.toUInt32 ++ writeVarint32 r.status.toUInt32 else []

/-- `SerializeResource(resource, stream, true, saveIdStatus)` -/
def Record.serializeResource (r : Record classes) (saveIdStatus : Bool) : List UInt8 :=
  writeVarint32 (r.wireType saveIdStatus) ++ (r.idStatus saveIdStatus ++ r.cls.serialize r.payload)

def serializeRecords (saveIdStatus : Bool) (rs : List (Record classes)) : List UInt8 :=
  rs.flatMap fun r => r.serializeResource saveIdStatus

/-- The id and the status, if they are there; otherwise those of a resource just acquired. -/
def readIdStatus (present : Bool) (nextResourceId : Int32) : Reader (Int32 × Int32) :=
  if present then do
    let id ← readVarint32
    let status ← readVarint32
    pure (id.toInt32, status.toInt32)
  else pure (nextResourceId, 0)

/-- `DeserializeResource` behind the type. -/
def Classes.readRecord (classes : Classes P) (type : UInt32) (idStatus : Bool)
    (nextResourceId : Int32) : Reader (Decoded P) :=
  match classes.find type with
  | none => fun _ => none
  | some cls => do
    let (id, status) ← readIdStatus idStatus nextResourceId
    let payload ← cls.deserialize
    refresh
    pure ⟨type, id, status, payload⟩

/-- `DeserializeResource(stream, resourceType, NULL)` -/
def Classes.deserializeResource (classes : Classes P) (resourceType : UInt32)
    (nextResourceId : Int32) : Reader (Decoded P) := do
  let (type, readIdStatus) ← readType resourceType
  classes.readRecord type readIdStatus nextResourceId

-- ---------------------------------------------------------------------------
-- The two decoders
-- ---------------------------------------------------------------------------

/-- One turn of `while (stream.ReadVarint32(&typeId))` -/
def Classes.requestStep (classes : Classes P) (nextResourceId : Int32) : Reader (Decoded P) := do
  let typeId ← readVarint32
  classes.deserializeResource typeId nextResourceId

/-- What a step reads, again and again until it fails; the `k`-th resource that is acquired gets
the id `nextResourceId k`. -/
def decodeLoop (step : Int32 → Reader (Decoded P)) (nextResourceId : Nat → Int32) :
    Nat → Nat → Source → List (Decoded P)
  | 0, _, _ => []
  | fuel + 1, k, s =>
    match step (nextResourceId k) s with
    | none => []
    | some (r, s) => r :: decodeLoop step nextResourceId fuel (k + 1) s

/-- The resources that the request loop decodes. Every turn reads a byte, so that the length of
the body bounds the number of turns. -/
def Classes.decodeRequest (classes : Classes P) (nextResourceId : Nat → Int32) (body : List UInt8) :
    List (Decoded P) :=
  decodeLoop classes.requestStep nextResourceId (body.length + 1) 0 (openStream body)

/-- The resources that repeated `DeserializeResource(stream, 0, NULL)` decodes. -/
def Classes.decodeStream (classes : Classes P) (nextResourceId : Nat → Int32) (body : List UInt8) :
    List (Decoded P) :=
  decodeLoop (classes.deserializeResource 0) nextResourceId (body.length + 1) 0 (openStream body)

-- ---------------------------------------------------------------------------
-- One record
-- ---------------------------------------------------------------------------

theorem deserializeResource_run {s s' : Source} {type : UInt32} (nextResourceId : Int32)
    (hRead : readVarint32 s = some (type, s')) :
    classes.deserializeResource 0 nextResourceId s =
      classes.readRecord (type &&& 0x7f) (decide (type &&& 0x80 ≠ 0)) nextResourceId s' := by
  rw [Classes.deserializeResource, readType, if_pos rfl, Reader.bind_run, Reader.bind_run, hRead]
  rfl

theorem requestStep_run {s s' : Source} {type : UInt32} (nextResourceId : Int32)
    (hRead : readVarint32 s = some (type, s')) (hType : type ≠ 0) :
    classes.requestStep nextResourceId s = classes.readRecord type false nextResourceId s' := by
  rw [Classes.requestStep, Reader.bind_run, hRead, Option.bind_some, Classes.deserializeResource,
    readType, if_neg hType]
  rfl

/-- A type of seven bits: both ways read the same. -/
theorem seven_bits (type : UInt32) (h : type.toNat < 128) :
    type &&& 0x7f = type ∧ decide (type &&& 0x80 ≠ 0) = false := by
  have hLow : type &&& 0x7f = type := by
    apply UInt32.toNat_inj.mp
    rw [UInt32.toNat_and]
    show type.toNat &&& (2 ^ 7 - 1) = type.toNat
    rw [Nat.and_two_pow_sub_one_eq_mod]
    exact Nat.mod_eq_of_lt h
  have hHigh : type &&& 0x80 = 0 := by
    rw [← hLow, UInt32.and_assoc]
    have hZero : (0x7f : UInt32) &&& 0x80 = 0 := by decide
    rw [hZero, UInt32.and_zero]
  exact ⟨hLow, by rw [hHigh]; decide⟩

/-- The flag is in the type that carries it. -/
theorem flag_set (type : UInt32) : (type ||| 0x80) &&& 0x80 = 0x80 := by
  apply UInt32.toBitVec_inj.mp
  ext i hi
  simp
  grind

/-- The mask takes the flag off. -/
theorem flag_off (type : UInt32) : (type ||| 0x80) &&& 0x7f = type &&& 0x7f := by
  apply UInt32.toBitVec_inj.mp
  have hApart : ∀ i (h : i < 32), ((128 : BitVec 32)[i] && (127 : BitVec 32)[i]) = false := by
    decide
  ext i hi
  have hBit := hApart i hi
  simp at hBit ⊢
  grind

/-- **Where the two ways agree**: a type of seven bits, without the flag. -/
theorem deserializeResource_type (classes : Classes P) {s s' : Source} {type : UInt32}
    (nextResourceId : Int32)
    (hRead : readVarint32 s = some (type, s')) (hType : type ≠ 0) (hSeven : type.toNat < 128) :
    classes.deserializeResource 0 nextResourceId s = classes.requestStep nextResourceId s := by
  obtain ⟨hLow, hFlag⟩ := seven_bits type hSeven
  rw [deserializeResource_run nextResourceId hRead, requestStep_run nextResourceId hRead
    hType, hLow,
    hFlag]

theorem readRecord_of_none {type : UInt32} {idStatus : Bool} {nextResourceId : Int32} (s : Source)
    (hFind : classes.find type = none) :
    classes.readRecord type idStatus nextResourceId s = none := by
  rw [Classes.readRecord, hFind]

/-- Behind the type: the id and the status, the payload, and a new coded stream. -/
theorem readRecord_run {type : UInt32} {idStatus : Bool} {nextResourceId : Int32}
    {cls : WireClass P}
    (s : Source) (hFind : classes.find type = some cls) :
    classes.readRecord type idStatus nextResourceId s =
      (readIdStatus idStatus nextResourceId s).bind fun x =>
        (cls.deserialize x.2).map fun y =>
          (⟨type, x.1.1, x.1.2, y.1⟩, ⟨y.2.rest, totalBytesLimit⟩) := by
  rw [Classes.readRecord, hFind]
  show (readIdStatus idStatus nextResourceId >>= _) s = _
  rw [Reader.bind_run]
  congr 1
  funext x
  obtain ⟨⟨id, status⟩, s'⟩ := x
  show (cls.deserialize >>= _) s' = _
  rw [Reader.bind_run]
  cases cls.deserialize s' <;> rfl

/-- The type of what is decoded is the one that the class was found under. -/
theorem typeId_readRecord {type : UInt32} {idStatus : Bool} {nextResourceId : Int32}
    {s s' : Source} {r : Decoded P}
    (h : classes.readRecord type idStatus nextResourceId s = some (r, s')) : r.typeId = type := by
  cases hFind : classes.find type with
  | none =>
    rw [readRecord_of_none s hFind] at h
    cases h
  | some cls =>
    rw [readRecord_run s hFind] at h
    obtain ⟨x, -, hRest⟩ := Option.bind_eq_some_iff.mp h
    obtain ⟨y, -, hSame⟩ := Option.map_eq_some_iff.mp hRest
    rw [← (Prod.mk.inj hSame).1]

namespace Record

variable (r : Record classes)

theorem typeId_ne_zero : r.typeId ≠ 0 := by
  intro hZero
  have hPos := (classes.positive r.typeId r.cls r.registered).1
  rw [hZero] at hPos
  exact absurd hPos (by decide)

/-- The class reads its record, without id and status. -/
theorem readRecord_plain (nextResourceId : Int32) {rest : List UInt8} {limit : Nat}
    (hShort : (r.cls.serialize r.payload).length ≤ totalBytesLimit)
    (hLimit : (r.cls.serialize r.payload).length ≤ limit) :
    classes.readRecord r.typeId false nextResourceId ⟨r.cls.serialize r.payload ++ rest, limit⟩ =
      some (⟨r.typeId, nextResourceId, 0, r.stored⟩, ⟨rest, totalBytesLimit⟩) := by
  rw [readRecord_run _ r.registered]
  show (r.cls.deserialize _).map _ = _
  rw [r.reads hShort rest limit hLimit]
  rfl

/-- What is left behind the type of the record. -/
def behindType (saveIdStatus : Bool) (rest : List UInt8) : Source :=
  ⟨r.idStatus saveIdStatus ++ r.cls.serialize r.payload ++ rest,
    totalBytesLimit - (writeVarint32 (r.wireType saveIdStatus)).length⟩

/-- What is left behind the id and the status. -/
def behindStatus (rest : List UInt8) : Source :=
  ⟨r.cls.serialize r.payload ++ rest,
    totalBytesLimit - (writeVarint32 (r.wireType true)).length - (r.idStatus true).length⟩

/-- The record fits into one coded stream. -/
def Fits (saveIdStatus : Bool) : Prop :=
  (r.serializeResource saveIdStatus).length ≤ totalBytesLimit

instance (saveIdStatus : Bool) : Decidable (r.Fits saveIdStatus) :=
  inferInstanceAs (Decidable ((r.serializeResource saveIdStatus).length ≤ totalBytesLimit))

variable {r} in
theorem Fits.lengths {saveIdStatus : Bool} (h : r.Fits saveIdStatus) :
    (writeVarint32 (r.wireType saveIdStatus)).length + (r.idStatus saveIdStatus).length +
      (r.cls.serialize r.payload).length ≤ totalBytesLimit := by
  rw [Fits, serializeResource, List.length_append, List.length_append] at h
  omega

variable {r} in
theorem Fits.readVarint32 {saveIdStatus : Bool} (h : r.Fits saveIdStatus) (rest : List UInt8) :
    Stream.readVarint32 (openStream (r.serializeResource saveIdStatus ++ rest)) =
      some (r.wireType saveIdStatus, r.behindType saveIdStatus rest) := by
  have hLengths := h.lengths
  have hRead := reads_varint32 (r.wireType saveIdStatus)
    (r.idStatus saveIdStatus ++ r.cls.serialize r.payload ++ rest) totalBytesLimit (by omega)
  rw [openStream, serializeResource, List.append_assoc]
  exact hRead

/-- The flag alone makes the type of a record no zero. -/
theorem wireType_ne_zero (saveIdStatus : Bool) : r.wireType saveIdStatus ≠ 0 := by
  cases saveIdStatus with
  | false => exact r.typeId_ne_zero
  | true =>
    intro hZero
    have hBit : (r.typeId ||| 0x80) &&& 0x80 = 0 := by
      rw [show r.typeId ||| 0x80 = 0 from hZero, UInt32.zero_and]
    rw [flag_set] at hBit
    exact absurd hBit (by decide)

variable {r} in
/-- The request loop hands the type on as it was written. -/
theorem Fits.requestStep {saveIdStatus : Bool} (h : r.Fits saveIdStatus) (nextResourceId : Int32)
    (rest : List UInt8) :
    classes.requestStep nextResourceId (openStream (r.serializeResource saveIdStatus ++ rest)) =
      classes.readRecord (r.wireType saveIdStatus) false nextResourceId
        (r.behindType saveIdStatus rest) :=
  requestStep_run nextResourceId (h.readVarint32 rest) (r.wireType_ne_zero saveIdStatus)

variable {r} in
/-- `DeserializeResource` takes seven bits of it. -/
theorem Fits.deserializeResource {saveIdStatus : Bool} (h : r.Fits saveIdStatus)
    (nextResourceId : Int32) (rest : List UInt8) :
    classes.deserializeResource 0 nextResourceId
      (openStream (r.serializeResource saveIdStatus ++ rest)) =
      classes.readRecord (r.wireType saveIdStatus &&& 0x7f)
        (decide (r.wireType saveIdStatus &&& 0x80 ≠ 0)) nextResourceId
        (r.behindType saveIdStatus rest) :=
  deserializeResource_run nextResourceId (h.readVarint32 rest)

variable {r} in
/-- Without the flag, the request loop decodes the record. -/
theorem Fits.requestStep_plain (h : r.Fits false) (nextResourceId : Int32) (rest : List UInt8) :
    classes.requestStep nextResourceId (openStream (r.serializeResource false ++ rest)) =
      some (⟨r.typeId, nextResourceId, 0, r.stored⟩, openStream rest) := by
  have hLengths := h.lengths
  rw [h.requestStep]
  exact r.readRecord_plain nextResourceId (by omega) (by omega)

end Record

-- ---------------------------------------------------------------------------
-- Lists of records
-- ---------------------------------------------------------------------------

theorem serializeRecords_cons (saveIdStatus : Bool) (r : Record classes)
    (rs : List (Record classes)) :
    serializeRecords saveIdStatus (r :: rs) =
      r.serializeResource saveIdStatus ++ serializeRecords saveIdStatus rs :=
  List.flatMap_cons

theorem length_serializeResource_pos (r : Record classes) (saveIdStatus : Bool) :
    0 < (r.serializeResource saveIdStatus).length := by
  have hType : 0 < (writeVarint32 (r.wireType saveIdStatus)).length := by
    rw [writeVarint32, Lib.encodeVarint]
    split <;> simp
  rw [Record.serializeResource, List.length_append]
  omega

/-- No more records than bytes. -/
theorem length_le_serializeRecords (saveIdStatus : Bool) : ∀ rs : List (Record classes),
    rs.length ≤ (serializeRecords saveIdStatus rs).length := by
  intro rs
  induction rs with
  | nil => exact Nat.zero_le _
  | cons r rs ih =>
    have hPos := length_serializeResource_pos r saveIdStatus
    rw [serializeRecords_cons, List.length_append, List.length_cons]
    omega

variable {step step' : Int32 → Reader (Decoded P)} {nextResourceId : Nat → Int32}

theorem decodeLoop_none {fuel k : Nat} {s : Source} (h : step (nextResourceId k) s = none) :
    decodeLoop step nextResourceId fuel k s = [] := by
  cases fuel with
  | zero => rfl
  | succ fuel => rw [decodeLoop, h]

theorem decodeLoop_some {fuel k : Nat} {s s' : Source} {r : Decoded P}
    (h : step (nextResourceId k) s = some (r, s')) :
    decodeLoop step nextResourceId (fuel + 1) k s =
      r :: decodeLoop step nextResourceId fuel (k + 1) s' := by
  rw [decodeLoop, h]

/-- Two loops whose first steps decode resources of different types decode the same only if both
decode nothing. -/
theorem decodeLoop_of_types {fuel k : Nat} {s : Source} {type type' : UInt32} (hNe : type ≠ type')
    (h : ∀ r s', step (nextResourceId k) s = some (r, s') → r.typeId = type)
    (h' : ∀ r s', step' (nextResourceId k) s = some (r, s') → r.typeId = type')
    (hSame : decodeLoop step nextResourceId (fuel + 1) k s =
      decodeLoop step' nextResourceId (fuel + 1) k s) :
    step (nextResourceId k) s = none ∧ step' (nextResourceId k) s = none := by
  cases hStep : step (nextResourceId k) s with
  | none =>
    cases hStep' : step' (nextResourceId k) s with
    | none => exact ⟨rfl, rfl⟩
    | some x =>
      rw [decodeLoop_none hStep, decodeLoop_some hStep'] at hSame
      exact absurd hSame (by simp)
  | some x =>
    cases hStep' : step' (nextResourceId k) s with
    | none =>
      rw [decodeLoop_none hStep', decodeLoop_some hStep] at hSame
      exact absurd hSame (by simp)
    | some y =>
      rw [decodeLoop_some hStep, decodeLoop_some hStep'] at hSame
      have hHead := (List.cons.inj hSame).1
      have hType := h x.1 x.2 hStep
      have hType' := h' y.1 y.2 hStep'
      rw [hHead, hType'] at hType
      exact absurd hType.symm hNe

/-- Seven bits of a type are another type, if there is more to it. -/
theorem type_ne_low {type : UInt32} (h : 128 ≤ type.toNat) : type ≠ type &&& 0x7f := by
  intro hSame
  have hLow : (type &&& 0x7f).toNat ≤ 0x7f := by
    rw [UInt32.toNat_and]
    exact Nat.and_le_right
  rw [← hSame] at hLow
  omega

theorem flagged_ne_low (type : UInt32) : type ||| 0x80 ≠ (type ||| 0x80) &&& 0x7f := by
  refine type_ne_low ?_
  rw [UInt32.toNat_or]
  exact Nat.right_le_or

/-- Both loops start a list of records at its first one. -/
theorem first_types {r : Record classes} {saveIdStatus : Bool} (hFits : r.Fits saveIdStatus)
    (nextResourceId : Int32) (rest : List UInt8) :
    (∀ d s', classes.requestStep nextResourceId
      (openStream (r.serializeResource saveIdStatus ++ rest)) = some (d, s') →
      d.typeId = r.wireType saveIdStatus) ∧
    (∀ d s', classes.deserializeResource 0 nextResourceId
      (openStream (r.serializeResource saveIdStatus ++ rest)) = some (d, s') →
      d.typeId = r.wireType saveIdStatus &&& 0x7f) := by
  refine ⟨?_, ?_⟩
  · intro d s' h
    rw [hFits.requestStep] at h
    exact typeId_readRecord h
  · intro d s' h
    rw [hFits.deserializeResource] at h
    exact typeId_readRecord h

/-- Without the flag, and with types of seven bits, both loops do the same on every record. -/
theorem decodeLoop_seven_bits (nextResourceId : Nat → Int32) : ∀ {rs : List (Record classes)}
    (fuel k : Nat),
    (∀ r ∈ rs, r.Fits false) → (∀ r ∈ rs, r.typeId.toNat < 128) →
    decodeLoop classes.requestStep nextResourceId fuel k (openStream (serializeRecords false rs)) =
      decodeLoop (classes.deserializeResource 0) nextResourceId fuel k
        (openStream (serializeRecords false rs)) := by
  intro rs
  induction rs with
  | nil =>
    intro fuel k _ _
    have hRequest : classes.requestStep (nextResourceId k) (openStream []) = none := rfl
    have hStream : classes.deserializeResource 0 (nextResourceId k) (openStream []) = none := rfl
    exact (decodeLoop_none hRequest).trans (decodeLoop_none hStream).symm
  | cons r rs ih =>
    intro fuel k hFits hSeven
    rw [serializeRecords_cons]
    cases fuel with
    | zero => rfl
    | succ fuel =>
      have hHere := hFits r List.mem_cons_self
      have hRequest := hHere.requestStep_plain (nextResourceId k) (serializeRecords false rs)
      have hStream := deserializeResource_type classes (nextResourceId k)
        (hHere.readVarint32 (serializeRecords false rs)) r.typeId_ne_zero
        (hSeven r List.mem_cons_self)
      rw [hRequest] at hStream
      rw [decodeLoop_some hRequest, decodeLoop_some hStream]
      rw [ih fuel (k + 1) (fun r' hr' => hFits r' (List.mem_cons_of_mem r hr'))
        fun r' hr' => hSeven r' (List.mem_cons_of_mem r hr')]

/-- Without the flag, the loops part at the first type that has more than seven bits. -/
theorem seven_bits_of_decodeLoop (nextResourceId : Nat → Int32) : ∀ {rs : List (Record classes)}
    (fuel k : Nat),
    (∀ r ∈ rs, r.Fits false) → rs.length ≤ fuel →
    decodeLoop classes.requestStep nextResourceId fuel k (openStream (serializeRecords false rs)) =
      decodeLoop (classes.deserializeResource 0) nextResourceId fuel k
        (openStream (serializeRecords false rs)) →
    ∀ r ∈ rs, r.typeId.toNat < 128 := by
  intro rs
  induction rs with
  | nil =>
    intro _ _ _ _ _ r hr
    exact absurd hr List.not_mem_nil
  | cons r rs ih =>
    intro fuel k hFits hFuel hSame
    obtain ⟨fuel, rfl⟩ : ∃ n, fuel = n + 1 := ⟨fuel - 1, by rw [List.length_cons] at hFuel; omega⟩
    rw [serializeRecords_cons] at hSame
    have hHere := hFits r List.mem_cons_self
    have hRequest := hHere.requestStep_plain (nextResourceId k) (serializeRecords false rs)
    have hSeven : r.typeId.toNat < 128 := by
      by_contra hMore
      obtain ⟨hFirst, hSecond⟩ := first_types hHere (nextResourceId k) (serializeRecords false rs)
      have hNone := (decodeLoop_of_types (type_ne_low (Nat.le_of_not_lt hMore)) hFirst
        hSecond hSame).1
      rw [hRequest] at hNone
      exact absurd hNone (by simp)
    have hStream := deserializeResource_type classes (nextResourceId k)
      (hHere.readVarint32 (serializeRecords false rs)) r.typeId_ne_zero hSeven
    rw [hRequest] at hStream
    rw [decodeLoop_some hRequest, decodeLoop_some hStream] at hSame
    have hRest := ih fuel (k + 1) (fun r' hr' => hFits r' (List.mem_cons_of_mem r hr'))
      (by rw [List.length_cons] at hFuel; omega) (List.cons.inj hSame).2
    intro r' hr'
    rcases List.mem_cons.mp hr' with rfl | hr'
    · exact hSeven
    · exact hRest r' hr'

-- ---------------------------------------------------------------------------
-- The flag
-- ---------------------------------------------------------------------------

/-- No class reads the record with the flag: not the class of the type with the flag, which
takes the id for the payload, and not the class of seven bits of the type. If the type has no
more than seven bits, the latter is the class of the record, and reads it. -/
structure Record.Unreadable (r : Record classes) (rest : List UInt8) : Prop where
  flagged : ∀ cls, classes.find (r.typeId ||| 0x80) = some cls →
    cls.deserialize (r.behindType true rest) = none
  low : ∀ cls, classes.find ((r.typeId ||| 0x80) &&& 0x7f) = some cls →
    cls.deserialize (r.behindStatus rest) = none

/-- Without id and status, a record is not read if its class does not read the payload. -/
theorem readRecord_eq_none_plain {type : UInt32} {nextResourceId : Int32} {s : Source} :
    classes.readRecord type false nextResourceId s = none ↔
      ∀ cls, classes.find type = some cls → cls.deserialize s = none := by
  cases hFind : classes.find type with
  | none =>
    refine ⟨fun _ cls h => absurd h (by simp), fun _ => readRecord_of_none s hFind⟩
  | some cls =>
    have hRun : classes.readRecord type false nextResourceId s =
        (cls.deserialize s).map fun y =>
          (⟨type, nextResourceId, 0, y.1⟩, ⟨y.2.rest, totalBytesLimit⟩) := readRecord_run s hFind
    rw [hRun, Option.map_eq_none_iff]
    refine ⟨?_, fun h => h cls rfl⟩
    rintro h _ ⟨⟩
    exact h

/-- The id and the status of a record are read. -/
theorem Record.Fits.readIdStatus {r : Record classes} (hFits : r.Fits true) (nextResourceId : Int32)
    (rest : List UInt8) :
    Server.readIdStatus true nextResourceId (r.behindType true rest) =
      some ((r.id, r.status), r.behindStatus rest) := by
  have hLengths := hFits.lengths
  have hId : Reads Stream.readVarint32 (writeVarint32 r.id.toUInt32) r.id.toUInt32 :=
    reads_varint32 _
  have hStatus := (reads_varint32 r.status.toUInt32).map fun status =>
    (r.id.toUInt32.toInt32, status.toInt32)
  have hRead := hId.bind (q := fun id => do
    let status ← Stream.readVarint32
    pure (id.toInt32, status.toInt32)) hStatus
  rw [Int32.toInt32_toUInt32, Int32.toInt32_toUInt32] at hRead
  have hBoth := hRead (r.cls.serialize r.payload ++ rest)
    (totalBytesLimit - (writeVarint32 (r.wireType true)).length)
    (by rw [idStatus, if_pos rfl] at hLengths; omega)
  rw [← List.append_assoc] at hBoth
  exact hBoth

/-- With id and status, a record is not read if its class does not read the payload. -/
theorem readRecord_eq_none_flagged {r : Record classes} (hFits : r.Fits true) {type : UInt32}
    {nextResourceId : Int32} {rest : List UInt8} :
    classes.readRecord type true nextResourceId (r.behindType true rest) = none ↔
      ∀ cls, classes.find type = some cls → cls.deserialize (r.behindStatus rest) = none := by
  cases hFind : classes.find type with
  | none =>
    refine ⟨fun _ cls h => absurd h (by simp), fun _ => readRecord_of_none _ hFind⟩
  | some cls =>
    rw [readRecord_run _ hFind, hFits.readIdStatus, Option.bind_some, Option.map_eq_none_iff]
    refine ⟨?_, fun h => h cls rfl⟩
    rintro h _ ⟨⟩
    exact h

/-- With the flag, both loops decode nothing or they differ in the first resource. -/
theorem decodeLoop_flagged {r : Record classes} (hFits : r.Fits true) (nextResourceId : Nat → Int32)
    (rest : List UInt8) (fuel k : Nat) :
    decodeLoop classes.requestStep nextResourceId (fuel + 1) k
        (openStream (r.serializeResource true ++ rest)) =
      decodeLoop (classes.deserializeResource 0) nextResourceId (fuel + 1) k
        (openStream (r.serializeResource true ++ rest)) ↔ r.Unreadable rest := by
  have hFlag : decide (r.wireType true &&& 0x80 ≠ 0) = true := by
    rw [Record.wireType, if_pos rfl, flag_set]
    decide
  have hRequest := hFits.requestStep (nextResourceId k) rest
  have hStream := hFits.deserializeResource (nextResourceId k) rest
  rw [hFlag] at hStream
  constructor
  · intro hSame
    obtain ⟨hFirst, hSecond⟩ := first_types hFits (nextResourceId k) rest
    obtain ⟨hNone, hNone'⟩ := decodeLoop_of_types (flagged_ne_low r.typeId) hFirst hSecond hSame
    rw [hRequest] at hNone
    rw [hStream] at hNone'
    exact ⟨readRecord_eq_none_plain.mp hNone, (readRecord_eq_none_flagged hFits).mp hNone'⟩
  · intro hUnreadable
    have hNone : classes.readRecord (r.wireType true) false (nextResourceId k)
        (r.behindType true rest) = none :=
      readRecord_eq_none_plain.mpr hUnreadable.flagged
    have hNone' : classes.readRecord (r.wireType true &&& 0x7f) true (nextResourceId k)
        (r.behindType true rest) = none :=
      (readRecord_eq_none_flagged hFits).mpr hUnreadable.low
    rw [decodeLoop_none (hRequest.trans hNone), decodeLoop_none (hStream.trans hNone')]

/-- A record whose type has seven bits is read. -/
theorem Record.not_unreadable {r : Record classes} (hFits : r.Fits true)
    (hSeven : r.typeId.toNat < 128)
    (rest : List UInt8) : ¬ r.Unreadable rest := by
  intro h
  have hLow : (r.typeId ||| 0x80) &&& 0x7f = r.typeId := by
    rw [flag_off, (seven_bits r.typeId hSeven).1]
  have hLengths := hFits.lengths
  have hNone := h.low r.cls (by rw [hLow]; exact r.registered)
  rw [behindStatus, r.reads (by omega) rest _ (by omega)] at hNone
  exact absurd hNone (by simp)

/-- For which lists the two decoders agree. -/
def DecodersAgreeOn (saveIdStatus : Bool) : List (Record classes) → Prop
  | [] => True
  | r :: rs =>
    if saveIdStatus then r.Unreadable (serializeRecords true rs)
    else ∀ r' ∈ r :: rs, r'.typeId.toNat < 128

/-- **The request loop decodes what repeated `DeserializeResource` does** exactly on the empty
list, and without the flag on the lists of resources whose types have seven bits; with the flag
only if neither decodes anything. -/
theorem decoders_agree_iff (classes : Classes P) (saveIdStatus : Bool) (rs : List (Record classes))
    (hFits : ∀ r ∈ rs, r.Fits saveIdStatus) (nextResourceId : Nat → Int32) :
    classes.decodeRequest nextResourceId (serializeRecords saveIdStatus rs) =
      classes.decodeStream nextResourceId (serializeRecords saveIdStatus rs) ↔
    DecodersAgreeOn saveIdStatus rs := by
  cases rs with
  | nil => exact ⟨fun _ => trivial, fun _ => rfl⟩
  | cons r rs =>
    cases saveIdStatus with
    | false =>
      have hFuel := length_le_serializeRecords false (r :: rs)
      exact ⟨seven_bits_of_decodeLoop nextResourceId _ 0 hFits (Nat.le_succ_of_le hFuel),
        decodeLoop_seven_bits nextResourceId _ 0 hFits⟩
    | true =>
      rw [serializeRecords_cons]
      exact decodeLoop_flagged (hFits r List.mem_cons_self) nextResourceId _ _ 0

-- ---------------------------------------------------------------------------
-- The classes of the repository
-- ---------------------------------------------------------------------------

variable {M : Type}

/-- What the registry of the repository knows. -/
def builtin (c : MessageCodec M) : Classes (Payload M) where
  find type := (acquireResource type).map fun kind => ⟨Payload.serialize c, kind.deserialize c⟩
  positive := by
    intro type cls h
    obtain ⟨kind, hKind, -⟩ := Option.map_eq_some_iff.mp h
    rw [acquireResource] at hKind
    split at hKind
    · next hType => rw [hType]; decide
    · split at hKind
      · next hType => rw [hType]; decide
      · split at hKind
        · next hType => rw [hType]; decide
        · exact absurd hKind (by simp)

theorem find_builtin (c : MessageCodec M) (type : UInt32) : (builtin c).find type =
    (acquireResource type).map fun kind => ⟨Payload.serialize c, kind.deserialize c⟩ := rfl

/-- Every resource of the repository is such a record. -/
def Record.ofResource {c : MessageCodec M} (hCodec : c.RoundTrips) (r : Resource M) :
    Record (builtin c) where
  typeId := r.payload.typeId
  cls := ⟨Payload.serialize c, r.payload.kind.deserialize c⟩
  registered := by rw [find_builtin, acquireResource_typeId]; rfl
  id := r.id
  status := r.status
  payload := r.payload
  stored := r.payload.stored
  reads := fun hLength => reads_payload hCodec r.payload
    (Nat.lt_of_le_of_lt hLength (by decide))

/-- They are written as `SerializeResource` writes them. -/
theorem serializeResource_ofResource {c : MessageCodec M} (hCodec : c.RoundTrips) (r : Resource M)
    (saveIdStatus : Bool) :
    (Record.ofResource hCodec r).serializeResource saveIdStatus =
      Stream.serializeResource c r true saveIdStatus := by
  rw [Stream.serializeResource, if_pos rfl, List.append_assoc]
  rfl

/-- And `DeserializeResource` reads them. -/
theorem deserializeResource_builtin (c : MessageCodec M) (resourceType : UInt32)
    (nextResourceId : Int32)
    (s : Source) :
    Stream.deserializeResource c resourceType nextResourceId s =
      ((builtin c).deserializeResource resourceType nextResourceId s).map fun x =>
        (⟨x.1.id, x.1.status, x.1.payload⟩, x.2) := by
  rw [Stream.deserializeResource, Classes.deserializeResource, Reader.bind_run, Reader.bind_run]
  cases readType resourceType s with
  | none => rfl
  | some x =>
    obtain ⟨⟨type, flag⟩, s'⟩ := x
    show _ = ((builtin c).readRecord type flag nextResourceId s').map _
    rw [Option.bind_some]
    dsimp only
    cases hKind : acquireResource type with
    | none =>
      have hFind : (builtin c).find type = none := by rw [find_builtin, hKind]; rfl
      rw [readRecord_of_none s' hFind]
      rfl
    | some kind =>
      have hFind : (builtin c).find type = some ⟨Payload.serialize c, kind.deserialize c⟩ := by
        rw [find_builtin, hKind]
        rfl
      rw [readRecord_run s' hFind]
      have hPayload : ∀ (id status : Int32) (s : Source),
          (kind.deserialize c >>= fun payload => do
            refresh
            pure (⟨id, status, payload⟩ : Resource M)) s =
          (kind.deserialize c s).map fun y =>
            (⟨id, status, y.1⟩, ⟨y.2.rest, totalBytesLimit⟩) := by
        intro id status s
        rw [Reader.bind_run]
        cases kind.deserialize c s <;> rfl
      cases flag with
      | false =>
        dsimp only
        rw [readIdStatus, if_neg Bool.false_ne_true, if_neg Bool.false_ne_true]
        refine (hPayload nextResourceId 0 s').trans ?_
        show _ = ((kind.deserialize c s').map _).map _
        rw [Option.map_map]
        rfl
      | true =>
        rw [readIdStatus, if_pos rfl]
        show (Stream.readVarint32 >>= _) s' = _
        rw [Reader.bind_run, Reader.bind_run]
        cases Stream.readVarint32 s' with
        | none => rfl
        | some x =>
          rw [Option.bind_some, Option.bind_some, Reader.bind_run, Reader.bind_run]
          cases Stream.readVarint32 x.2 with
          | none => rfl
          | some y =>
            refine (hPayload x.1.toInt32 y.1.toInt32 y.2).trans ?_
            show _ = ((kind.deserialize c y.2).map _).map _
            rw [Option.map_map]
            rfl

theorem serializeRecords_ofResource {c : MessageCodec M} (hCodec : c.RoundTrips)
    (rs : List (Resource M)) (saveIdStatus : Bool) :
    serializeRecords saveIdStatus (rs.map (Record.ofResource hCodec)) =
      serializeAll c saveIdStatus rs := by
  rw [serializeRecords, serializeAll, List.flatMap_map]
  exact List.flatMap_congr fun r _ => serializeResource_ofResource hCodec r saveIdStatus

/-- The loop of a request whose resources the engine takes: the ids it keeps are those of the
resources that it decodes. -/
theorem readResources_decodeLoop (c : MessageCodec M) (registry : Registry) (engine : Engine M)
    (hTakes : ∀ k, engine.processResource k = true) :
    ∀ (fuel k : Nat) (s s' : BodyStream) (ids : List Int32),
      readResources c registry engine fuel k s = some (.left ids s') →
      ids = (decodeLoop (builtin c).requestStep registry.nextResourceId fuel k s.stream).map
        fun d => d.id := by
  intro fuel
  induction fuel with
  | zero =>
    intro k s s' ids h
    exact absurd h (by simp [readResources])
  | succ fuel ih =>
    intro k s s' ids h
    rw [readResources] at h
    have hStep : (builtin c).requestStep (registry.nextResourceId k) s.stream =
        (readVarint32 s.stream).bind fun x =>
          (builtin c).deserializeResource x.1 (registry.nextResourceId k) x.2 := rfl
    cases hType : readVarint32 s.stream with
    | none =>
      rw [hType] at h hStep
      have hIds : ids = [] := by simpa [eq_comm] using (Loop.left.inj (Option.some.inj h)).1
      rw [hIds, decodeLoop_none hStep]
      rfl
    | some x =>
      rw [hType] at h hStep
      dsimp only at h
      rw [BodyStream.deserializeResource, deserializeResource_builtin] at h
      cases hRecord : (builtin c).deserializeResource x.1 (registry.nextResourceId k) x.2 with
      | none =>
        rw [hRecord] at h
        exact absurd h (by simp)
      | some y =>
        rw [hRecord] at h
        simp only [Option.map_some, hTakes, if_true] at h
        obtain ⟨loop, hLoop, hPush⟩ := Option.map_eq_some_iff.mp h
        rw [decodeLoop_some (hStep.trans hRecord), List.map_cons]
        cases loop with
        | failed typeId => exact absurd hPush (by simp [Loop.push])
        | left ids' stream =>
          obtain ⟨hIds, -⟩ := Loop.left.inj hPush
          rw [← hIds, ih (k + 1) _ stream ids' hLoop]

/-- Two markers. -/
def twoMarkers : List (Record (builtin testProtobufCodec)) :=
  [⟨5, 0, .markerResource 7⟩, ⟨6, 1, .markerResource (-1)⟩].map
    (Record.ofResource testProtobufCodec_roundTrips)

/-- Without ids and statuses, both decode the two markers. -/
theorem decoders_agree_two_markers :
    ((builtin testProtobufCodec).decodeRequest (fun _ => 9)
    (serializeRecords false twoMarkers)).length = 2 ∧
      (builtin testProtobufCodec).decodeRequest (fun _ => 9) (serializeRecords false twoMarkers) =
        (builtin testProtobufCodec).decodeStream (fun _ => 9)
        (serializeRecords false twoMarkers) := by
  have hFits : ∀ r ∈ twoMarkers, r.Fits false := by decide
  have hSeven : ∀ r ∈ twoMarkers, r.typeId.toNat < 128 := by decide
  exact ⟨by decide, (decoders_agree_iff _ false twoMarkers hFits fun _ => 9).mpr hSeven⟩

/-- With them, `DeserializeResource` decodes the two markers and the request loop nothing. -/
theorem flagged_markers_not_decoded :
    (builtin testProtobufCodec).decodeRequest (fun _ => 9) (serializeRecords true twoMarkers) ≠
      (builtin testProtobufCodec).decodeStream (fun _ => 9) (serializeRecords true twoMarkers) := by
  decide

end HectorCore.Server
