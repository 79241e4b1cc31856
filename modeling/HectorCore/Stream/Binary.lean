import HectorCore.Lib.ByteReader
import HectorCore.Lib.CText

/-!
# Binary — resources in a binary stream

`ResourceOutputStreamBinary`, `ResourceInputStreamBinary`, the `Serialize` and `Deserialize`
methods of `TestResource`, `TestProtobufResource` and `MarkerResource`, and
`Resource::SerializeResource` and `DeserializeResource` over them.

* The coded streams read and write varints and raw bytes as they are documented to. A coded
  input stream hands out at most `totalBytesLimit` bytes; `Refresh` replaces it by a new one.
* The codec of the protocol buffer message is a parameter: `serialize`, and `parse` of the bytes
  up to the limit or the end of the stream, with the bytes that it leaves.
* A stream on a string has as many bytes as an `int` makes of the length of the string.
* A reader that fails leaves the stream somewhere; nobody reads on after that.
-/

namespace HectorCore.Stream

open Lib (Source Reader toInt32)

/-- `SetTotalBytesLimit(512*1024*1024, 256*1024*1024)` -/
def totalBytesLimit : Nat := 512 * 1024 * 1024

/-- The generated code of a message type. -/
structure MessageCodec (M : Type) where
  /-- The message after `Clear()`. -/
  empty : M
  serialize : M → List UInt8
  parse : List UInt8 → Option (M × List UInt8)

inductive Payload (M : Type) where
  | testResource (str : List UInt8)
  | testProtobufResource (r : M)
  | markerResource (mark : Int32)
  deriving DecidableEq, Repr

/-- `id` and `status` are in every resource. -/
structure Resource (M : Type) where
  id : Int32
  status : Int32
  payload : Payload M
  deriving DecidableEq, Repr

variable {M : Type}

/-- `GetTypeId` -/
def Payload.typeId : Payload M → UInt32
  | .testResource _ => 1
  | .testProtobufResource _ => 2
  | .markerResource _ => 3

def Payload.clear (c : MessageCodec M) : Payload M → Payload M
  | .testResource _ => .testResource []
  | .testProtobufResource _ => .testProtobufResource c.empty
  | .markerResource _ => .markerResource 0

def Resource.clear (c : MessageCodec M) (r : Resource M) : Resource M := ⟨0, 0, r.payload.clear c⟩

-- ---------------------------------------------------------------------------
-- Writing
-- ---------------------------------------------------------------------------

def writeVarint32 (value : UInt32) : List UInt8 := Lib.encodeVarint 5 value.toNat

def writeString (buffer : List UInt8) : List UInt8 :=
  writeVarint32 (UInt32.ofNat buffer.length) ++ buffer

/-- `strcopy.find('\n')` and `strcopy.replace(idx, 1, " ")` -/
def replaceNewline : List UInt8 → Option (List UInt8)
  | [] => none
  | c :: cs => if c = 10 then some (32 :: cs) else (replaceNewline cs).map (c :: ·)

/-- The loop of `TestResource::Serialize`; every turn takes away one newline. -/
def replaceNewlines : Nat → List UInt8 → List UInt8
  | 0, strcopy => strcopy
  | n + 1, strcopy =>
    match replaceNewline strcopy with
    | none => strcopy
    | some strcopy => replaceNewlines n strcopy

def Payload.serialize (c : MessageCodec M) : Payload M → List UInt8
  | .testResource str => writeString (replaceNewlines str.length str)
  | .testProtobufResource r =>
    writeVarint32 (UInt32.ofNat (c.serialize r).length) ++ c.serialize r
  | .markerResource mark => writeVarint32 mark.toUInt32

def serializeResource (c : MessageCodec M) (resource : Resource M) (saveType saveIdStatus : Bool) :
    List UInt8 :=
  (if saveType then
    writeVarint32
      (if saveIdStatus then resource.payload.typeId ||| 0x80 else resource.payload.typeId) ++
    (if saveIdStatus then
      writeVarint32 resource.id.toUInt32 ++ writeVarint32 resource.status.toUInt32
    else [])
  else []) ++ resource.payload.serialize c

/-- One resource after the other, with their types. -/
def serializeAll (c : MessageCodec M) (saveIdStatus : Bool) (rs : List (Resource M)) : List UInt8 :=
  rs.flatMap fun r => serializeResource c r true saveIdStatus

-- ---------------------------------------------------------------------------
-- Reading
-- ---------------------------------------------------------------------------

/-- A varint has at most ten bytes, of which 32 bits are kept. -/
def readVarint32 : Reader UInt32 := do
  let n ← Reader.varint 10
  pure (UInt32.ofNat n)

def readString : Reader (List UInt8) := do
  let size ← readVarint32
  Reader.bytes size.toNat

/-- The message is parsed from the bytes up to `PushLimit(size)`. -/
def parseWindow (c : MessageCodec M) (size : UInt32) : Reader M := fun s =>
  let window := (s.rest.take s.limit).take size.toNat
  match c.parse window with
  | none => none
  | some (r, left) =>
    let used := window.length - left.length
    some (r, ⟨s.rest.drop used, s.limit - used⟩)

/-- `ParseMessage(msg)` -/
def parseMessage (c : MessageCodec M) : Reader M := do
  let size ← readVarint32
  parseWindow c size

/-- `Refresh`: a new coded stream, at the same place. -/
def refresh : Reader Unit := fun s => some ((), ⟨s.rest, totalBytesLimit⟩)

/-- The types that the registry knows. -/
inductive Kind where
  | testResource
  | testProtobufResource
  | markerResource
  deriving DecidableEq, Repr

def acquireResource (typeId : UInt32) : Option Kind :=
  if typeId = 1 then some .testResource
  else if typeId = 2 then some .testProtobufResource
  else if typeId = 3 then some .markerResource
  else none

/-- `Deserialize` -/
def Kind.deserialize (c : MessageCodec M) : Kind → Reader (Payload M)
  | .testResource => do
    let str ← readString
    pure (.testResource str)
  | .testProtobufResource => do
    let r ← parseMessage c
    pure (.testProtobufResource r)
  | .markerResource => do
    let mark ← readVarint32
    pure (.markerResource mark.toInt32)

/-- The type of the record, and whether its id and status follow. -/
def readType (resourceType : UInt32) : Reader (UInt32 × Bool) :=
  if resourceType = 0 then do
    let type ← readVarint32
    pure (type &&& 0x7f, decide (type &&& 0x80 ≠ 0))
  else pure (resourceType, false)

/-- `nextResourceId` is the id that `AcquireResource` gives to the resource. -/
def deserializeResource (c : MessageCodec M) (resourceType : UInt32) (nextResourceId : Int32) :
    Reader (Resource M) := do
  let (type, readIdStatus) ← readType resourceType
  match acquireResource type with
  | none => fun _ => none
  | some kind => do
    let (id, status) ←
      if readIdStatus then do
        let id ← readVarint32
        let status ← readVarint32
        pure (id.toInt32, status.toInt32)
      else pure (nextResourceId, 0)
    let payload ← kind.deserialize c
    refresh
    pure ⟨id, status, payload⟩

/-- `ResourceInputStreamBinary(fd)`, for the bytes of the file; and `ResourceInputStreamBinary(s)`
for strings of less than 2 GiB, see `openString`. -/
def openStream (bytes : List UInt8) : Source := ⟨bytes, totalBytesLimit⟩

/-- `ResourceInputStreamBinary(s)`. The size of the `ArrayInputStream` is an `int`; there is nothing
to read in one of negative size. -/
def openString (bytes : List UInt8) : Source :=
  openStream (bytes.take (toInt32 bytes.length).toNat)

/-- What a stream is opened on. -/
inductive Origin where
  | descriptor
  | string
  deriving DecidableEq, Repr

def Origin.openStream : Origin → List UInt8 → Source
  | .descriptor, bytes => Stream.openStream bytes
  | .string, bytes => openString bytes

/-- What `n` calls of `DeserializeResource(stream, 0, ..)` return, one after the other; the
stream stays where it is when one of them returns NULL. -/
def deserializeCalls (c : MessageCodec M) (nextResourceId : Nat → Int32) :
    Nat → Source → List (Option (Resource M)) × Source
  | 0, s => ([], s)
  | n + 1, s =>
    match deserializeResource c 0 (nextResourceId n) s with
    | none =>
      let (results, s) := deserializeCalls c nextResourceId n s
      (none :: results, s)
    | some (r, s) =>
      let (results, s) := deserializeCalls c nextResourceId n s
      (some r :: results, s)

end HectorCore.Stream
