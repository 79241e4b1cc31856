import HectorCore.Stream.RoundTrip
import HectorCore.Stream.Input
import HectorCore.Stream.TextRoundTrip

/-!
# Output — the two kinds of resource output streams

`Resource::SerializeResource` on a `ResourceOutputStreamText`, and on a stream of either kind. The
text format of the protocol buffer message (`SerializeMessage` prints it on one line) is a
parameter.
-/

namespace HectorCore.Stream

variable {M : Type}

namespace Text

/-- `Serialize` of the three resource types. -/
def serialize (print : M → List UInt8) : Payload M → List UInt8
  | .testResource str => writeString (replaceNewlines str.length str)
  | .testProtobufResource r => print r ++ [10]
  | .markerResource mark => writeVarint32 mark.toUInt32

/-- The type, and the id and the status of a resource. -/
def header (resource : Resource M) (saveIdStatus : Bool) : List UInt8 :=
  writeVarint32
      (if saveIdStatus then resource.payload.typeId ||| 0x80 else resource.payload.typeId) ++
    (if saveIdStatus then
      writeVarint32 resource.id.toUInt32 ++ writeVarint32 resource.status.toUInt32
    else [])

def serializeResource (print : M → List UInt8) (resource : Resource M)
    (saveType saveIdStatus : Bool) : List UInt8 :=
  (if saveType then header resource saveIdStatus else []) ++ serialize print resource.payload

end Text

/-- `SerializeResource` -/
def serializeTo (c : MessageCodec M) (print : M → List UInt8) (text : Bool) (resource : Resource M)
    (saveType saveIdStatus : Bool) : List UInt8 :=
  if text then Text.serializeResource print resource saveType saveIdStatus
  else serializeResource c resource saveType saveIdStatus

/-- A new input stream. -/
def InputStream.ofBytes (text : Bool) (bytes : List UInt8) : InputStream :=
  if text then .text (IStream.ofBytes bytes) else .binary ⟨openStream bytes, 0, 0⟩

end HectorCore.Stream
