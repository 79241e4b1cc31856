import HectorCore.Lib.CText
import HectorCore.Lib.Find
import HectorCore.Stream.Binary

/-!
# Text — resources in a text stream

`ResourceInputStreamText` over a `std::istream`, and `Resource::DeserializeResource` on it.

* A stream has an end-of-file and a fail flag besides its position. Every operation first tests
  them (the sentry of the standard library) and does nothing but fail when one is set.
* `>>` skips white space and takes a sign and digits; `getline` takes a line with its newline.
* A reader that fails leaves the stream where it got to: `DeserializeResource` may be called
  again on what is left.
* The text format of the protocol buffer message is a parameter.
-/

namespace HectorCore.Stream

open Lib (isSpace isDigit decimal)

/-- A `std::istream` in memory or over a file. -/
structure IStream where
  rest : List UInt8
  pos : Nat
  eof : Bool
  fail : Bool
  deriving DecidableEq, Repr

-- ---------------------------------------------------------------------------
-- The standard library
-- ---------------------------------------------------------------------------

namespace IStream

def ofBytes (bytes : List UInt8) : IStream := ⟨bytes, 0, false, false⟩

def good (is : IStream) : Bool := !is.eof && !is.fail

def advance (is : IStream) (n : Nat) : IStream :=
  { is with rest := is.rest.drop n, pos := is.pos + n }

/-- `getline(is, s, '\n')` -/
def getline (is : IStream) : List UInt8 × IStream :=
  if is.good then
    let line := is.rest.takeWhile (· ≠ 10)
    if line.length < is.rest.length then (line, is.advance (line.length + 1))
    else (line, { is.advance line.length with eof := true, fail := line.isEmpty })
  else ([], { is with fail := true })

/-- `is >> value` for an unsigned type. -/
def extract (bits : Nat) (is : IStream) : Option Nat × IStream :=
  if is.good then
    let is := is.advance (is.rest.takeWhile isSpace).length
    let minus := is.rest.head? = some 45
    let sign := if minus ∨ is.rest.head? = some 43 then 1 else 0
    let digits := (is.rest.drop sign).takeWhile isDigit
    let n := decimal digits
    let atEnd := decide (sign + digits.length = is.rest.length)
    if digits ≠ [] ∧ n < 2 ^ bits then
      (some (if minus then (2 ^ bits - n) % 2 ^ bits else n),
        { is.advance (sign + digits.length) with eof := atEnd })
    else (none, { is.advance (sign + digits.length) with eof := atEnd, fail := true })
  else (none, { is with fail := true })

/-- `is.ignore(count)` -/
def ignore (count : Int) (is : IStream) : IStream :=
  if is.good then
    { is.advance (min count.toNat is.rest.length) with
      eof := decide (is.rest.length < count.toNat) }
  else { is with fail := true }

/-- `is.tellg()` -/
def tellg (is : IStream) : Int × IStream :=
  if is.good then (is.pos, is) else (-1, { is with fail := true })

end IStream

/-- `replace_all` of `lib/common.h`: the loop, which is at `offset`; every turn passes a
character of `s`. -/
def replaceAll (sub other : List UInt8) : Nat → Nat → List UInt8 → List UInt8
  | 0, _, s => s
  | n + 1, offset, s =>
    match Lib.find s sub offset with
    | none => s
    | some offset =>
      replaceAll sub other n (offset + other.length)
        (s.take offset ++ other ++ s.drop (offset + sub.length))

-- ---------------------------------------------------------------------------
-- ResourceInputStreamText
-- ---------------------------------------------------------------------------

namespace Text

variable {M : Type}

/-- `ReadString` -/
def readString (is : IStream) : Option (List UInt8) × IStream :=
  let (value, is) := is.getline
  if is.fail then (none, is)
  else
    let value := replaceAll [92, 110] [10] value.length 0 value
    (some (replaceAll [92, 92] [92] value.length 0 value), is)

/-- `ReadVarint32` -/
def readVarint32 (is : IStream) : Option UInt32 × IStream :=
  match is.extract 32 with
  | (none, is) => (none, is)
  | (some value, is) => (some (UInt32.ofNat value), is.getline.2)

/-- `Skip`: the bytes, and the rest of the line. -/
def skip (count : Int) (is : IStream) : Bool × IStream :=
  let is := is.ignore count
  if is.fail then (false, is) else (true, is.getline.2)

/-- `ParseMessage(msg)` -/
def parseMessage (parse : List UInt8 → Option M) (is : IStream) : Option M × IStream :=
  let (s, is) := is.getline
  if is.fail then (none, is) else (parse s, is)

/-- `Deserialize` of the three resource types. -/
def deserialize (parse : List UInt8 → Option M) : Kind → IStream → Option (Payload M) × IStream
  | .testResource, is =>
    let (str, is) := readString is
    (str.map .testResource, is)
  | .testProtobufResource, is =>
    let (r, is) := parseMessage parse is
    (r.map .testProtobufResource, is)
  | .markerResource, is =>
    let (mark, is) := readVarint32 is
    (mark.map fun mark => .markerResource mark.toInt32, is)

/-- The type of the record, and whether its id and status follow. -/
def readType (resourceType : UInt32) (is : IStream) : Option (UInt32 × Bool) × IStream :=
  if resourceType = 0 then
    let (type, is) := readVarint32 is
    (type.map fun type => (type &&& 0x7f, decide (type &&& 0x80 ≠ 0)), is)
  else (some (resourceType, false), is)

def readIdStatus (is : IStream) : Option (Int32 × Int32) × IStream :=
  match readVarint32 is with
  | (none, is) => (none, is)
  | (some id, is) =>
    let (status, is) := readVarint32 is
    (status.map fun status => (id.toInt32, status.toInt32), is)

/-- `Resource::DeserializeResource`; `Refresh` does nothing here. -/
def deserializeResource (parse : List UInt8 → Option M) (resourceType : UInt32)
    (nextResourceId : Int32) (is : IStream) : Option (Resource M) × IStream :=
  match readType resourceType is with
  | (none, is) => (none, is)
  | (some (type, hasIdStatus), is) =>
    match acquireResource type with
    | none => (none, is)
    | some kind =>
      match if hasIdStatus then readIdStatus is else (some (nextResourceId, 0), is) with
      | (none, is) => (none, is)
      | (some (id, status), is) =>
        let (payload, is) := deserialize parse kind is
        (payload.map fun payload => ⟨id, status, payload⟩, is)

end Text

end HectorCore.Stream
