import HectorCore.Lib.CText
import HectorCore.Lib.Find
import Mathlib

/-!
# HttpConn — reading a request from a connection

`SimpleHTTPConn::ReadRequest` with `RequestReady`, `ParseRequestHeader` and `GetRequestBody`. A
connection collects what `read` returns, a chunk of at most 65536 bytes each time, and looks
after every chunk whether the request is there.

* A string is a list of bytes. A position is a natural number, and -1 is `none`; the source has
  `int`, which is the same for requests of less than 2 GiB.
* `request_body_length` is the `int` that the `long` of `atol` is cut down to.
* `ReadRequest` returns false when no further chunk arrives in time.
-/

namespace HectorCore.Server

open Lib (find substr toInt32 isSpace cStr)

abbrev Bytes := List UInt8

/-- `"\n"`, `" "`, `": "`, `"\r\n\r\n"`, `"\n\n"` -/
def lf : Bytes := [10]
def space : Bytes := [32]
def colonSpace : Bytes := [58, 32]
def crlfCrlf : Bytes := [13, 10, 13, 10]
def lfLf : Bytes := [10, 10]

/-- `"Content-Length"`, `"Connection"`, `"keep-alive"` -/
def contentLength : Bytes := [67, 111, 110, 116, 101, 110, 116, 45, 76, 101, 110, 103, 116, 104]
def connection : Bytes := [67, 111, 110, 110, 101, 99, 116, 105, 111, 110]
def keepAliveValue : Bytes := [107, 101, 101, 112, 45, 97, 108, 105, 118, 101]

/-- `std::tr1::unordered_map<string, string>` -/
abbrev HeaderFields := Bytes → Option Bytes

inductive RequestReady where
  | incomplete
  | parsed
  | failed
  deriving DecidableEq, Repr

structure Conn where
  keepAlive : Bool
  requestBodyLength : Int
  requestMethod : Bytes
  requestArgs : Bytes
  requestProtocol : Bytes
  requestBuffer : Bytes
  requestBodyOffset : Option Nat
  requestHeaderOffset : Option Nat
  headerFields : Option HeaderFields

def Conn.new : Conn :=
  { keepAlive := false, requestBodyLength := -1, requestMethod := [], requestArgs := []
    requestProtocol := [], requestBuffer := [], requestBodyOffset := none
    requestHeaderOffset := none, headerFields := none }

-- ---------------------------------------------------------------------------
-- The first line
-- ---------------------------------------------------------------------------

/-- The parts of the first line, and where the second one begins. -/
structure RequestLine where
  headerOffset : Nat
  method : Bytes
  args : Bytes
  protocol : Bytes
  deriving DecidableEq, Repr

/-- The end of the line whose newline is at `nl`. -/
def lineEnd (buffer : Bytes) (nl : Nat) : Nat :=
  if 0 < nl ∧ buffer[nl - 1]? = some 13 then nl - 1 else nl

/-- A space in the first line, from position `start` on. -/
def findSpace (buffer : Bytes) (start eol : Nat) : Option Nat :=
  match find buffer space start with
  | none => none
  | some sp => if eol < sp then none else some sp

/-- The parts of the first line, whose newline is at `nl`. -/
def requestLineAt (buffer : Bytes) (nl : Nat) : RequestLine :=
  let eol := lineEnd buffer nl
  match findSpace buffer 0 eol with
  | none => ⟨nl + 1, substr buffer 0 eol, [], []⟩
  | some sp1 =>
    match findSpace buffer (sp1 + 1) eol with
    | none => ⟨nl + 1, substr buffer 0 sp1, substr buffer (sp1 + 1) (eol - (sp1 + 1)), []⟩
    | some sp2 =>
      ⟨nl + 1, substr buffer 0 sp1, substr buffer (sp1 + 1) (sp2 - (sp1 + 1)),
        substr buffer (sp2 + 1) (eol - (sp2 + 1))⟩

def parseRequestLine (buffer : Bytes) : Option RequestLine :=
  match find buffer lf 0 with
  | none => none
  | some nl => some (requestLineAt buffer nl)

-- ---------------------------------------------------------------------------
-- The header fields
-- ---------------------------------------------------------------------------

/-- `find("\r\n\r\n", request_header_offset-2)`, where `-1` is a position behind every string. -/
def findCrlf (buffer : Bytes) (headerOffset : Nat) : Option Nat :=
  if headerOffset < 2 then none else find buffer crlfCrlf (headerOffset - 2)

def findLf (buffer : Bytes) (headerOffset : Nat) : Option Nat := find buffer lfLf (headerOffset - 1)

def findBodyOffset (buffer : Bytes) (headerOffset : Nat) : Option Nat :=
  match findCrlf buffer headerOffset with
  | some bodyOffset => some (bodyOffset + 4)
  | none =>
    match findLf buffer headerOffset with
    | none => none
    | some bodyOffset => some (bodyOffset + 2)

/-- The variables of the loop over the header. -/
structure Fields where
  var : Bytes
  val : Bytes
  fields : HeaderFields

def Fields.new : Fields := ⟨[], [], fun _ => none⟩

/-- `if (!var.empty()) (*header_fields)[var] = val;` -/
def Fields.store (f : Fields) : HeaderFields :=
  if f.var = [] then f.fields else Function.update f.fields f.var (some f.val)

/-- The body of the loop for a line that is not empty. -/
def Fields.addLine (f : Fields) (field : Bytes) : Fields :=
  let i := (field.takeWhile fun c => c = 32 || c = 9).length
  if i = 0 then
    match find field colonSpace 0 with
    | none => ⟨[], [], f.store⟩
    | some col => ⟨substr field 0 col, field.drop (col + 2), f.store⟩
  else { f with val := f.val ++ field.drop (i - 1) }

/-- The loop over the header; `none` when a newline is missing, or `fuel` turns are not
enough. -/
def parseFields (buffer : Bytes) (bodyOffset : Nat) : Nat → Nat → Fields → Option Fields
  | 0, _, _ => none
  | fuel + 1, offset, f =>
    if offset < bodyOffset then
      match find buffer lf offset with
      | none => none
      | some nl =>
        let eol := lineEnd buffer nl
        if eol = offset then some f
        else parseFields buffer bodyOffset fuel (nl + 1)
          (f.addLine (substr buffer offset (eol - offset)))
    else some f

def digits : Nat → Bytes → Nat
  | n, [] => n
  | n, c :: cs => if 48 ≤ c ∧ c ≤ 57 then digits (10 * n + (c.toNat - 48)) cs else n

/-- `atol`, which stops at the ends of the range of a 64-bit `long`. -/
def atol (s : Bytes) : Int :=
  let value : Int :=
    match (cStr s).dropWhile isSpace with
    | 45 :: cs => -(digits 0 cs : Int)
    | 43 :: cs => digits 0 cs
    | cs => digits 0 cs
  max (-2 ^ 63) (min (2 ^ 63 - 1) value)

def toLower (c : UInt8) : UInt8 := if 65 ≤ c ∧ c ≤ 90 then c + 32 else c

/-- `!strcasecmp(s, "keep-alive")` -/
def isKeepAlive (s : Bytes) : Bool := (cStr s).map toLower = keepAliveValue

/-- `request_body_length`, which is `-1` without the header field. -/
def bodyLength (fields : HeaderFields) : Int :=
  match fields contentLength with
  | none => -1
  | some value => toInt32 (atol value)

/-- What is done with the header fields. -/
def Conn.setFields (conn : Conn) (fields : HeaderFields) : Conn :=
  let conn := { conn with requestBodyLength := bodyLength fields }
  let keep := match fields connection with
    | none => false
    | some value => isKeepAlive value
  if keep then
    if 0 ≤ bodyLength fields then { conn with headerFields := some fields, keepAlive := true }
    else { conn with headerFields := some (Function.update fields connection none) }
  else { conn with headerFields := some fields }

-- ---------------------------------------------------------------------------
-- The request
-- ---------------------------------------------------------------------------

/-- The first line is parsed once. -/
def Conn.readLine (conn : Conn) : Option (Conn × Nat) :=
  match conn.requestHeaderOffset with
  | some headerOffset => some (conn, headerOffset)
  | none =>
    match parseRequestLine conn.requestBuffer with
    | none => none
    | some line =>
      some ({ conn with
        requestMethod := line.method, requestArgs := line.args, requestProtocol := line.protocol
        requestHeaderOffset := some line.headerOffset }, line.headerOffset)

/-- Once the fields are there, the header is not parsed again. -/
def Conn.parseRequestHeader (conn : Conn) : RequestReady × Conn :=
  match conn.headerFields with
  | some _ => (.parsed, conn)
  | none =>
    if conn.requestBuffer.length = 0 then (.incomplete, conn)
    else
      match conn.readLine with
      | none => (.incomplete, conn)
      | some (conn, headerOffset) =>
        match findBodyOffset conn.requestBuffer headerOffset with
        | none => (.incomplete, conn)
        | some bodyOffset =>
          let conn := { conn with requestBodyOffset := some bodyOffset }
          match parseFields conn.requestBuffer bodyOffset (bodyOffset + 1) headerOffset
            Fields.new with
          | none => (.failed, conn)
          | some f => (.parsed, conn.setFields f.store)

/-- Whether the body is still incomplete. -/
def Conn.waitsForBody (conn : Conn) : Bool :=
  (conn.keepAlive || decide (0 ≤ conn.requestBodyLength)) &&
    decide ((conn.requestBuffer.length : Int) - conn.requestBodyOffset.getD 0 <
      conn.requestBodyLength)

/-- The header, and then the body. -/
def Conn.requestReady (conn : Conn) : RequestReady × Conn :=
  match conn.parseRequestHeader with
  | (.parsed, conn) => if conn.waitsForBody then (.incomplete, conn) else (.parsed, conn)
  | (status, conn) => (status, conn)

/-- `ReadRequest`: the connection when it returns true. -/
def Conn.readRequest : Conn → List Bytes → Option Conn
  | _, [] => none
  | conn, chunk :: chunks =>
    match { conn with requestBuffer := conn.requestBuffer ++ chunk }.requestReady with
    | (.parsed, conn) => some conn
    | (.failed, _) => none
    | (.incomplete, conn) => conn.readRequest chunks

/-- `GetRequestBody`, after the header has been read. -/
def Conn.getRequestBody (conn : Conn) : Bytes :=
  let bodyOffset := conn.requestBodyOffset.getD 0
  if 0 ≤ conn.requestBodyLength then
    substr conn.requestBuffer bodyOffset conn.requestBodyLength.toNat
  else conn.requestBuffer.drop bodyOffset

/-- The size of the buffer that `read` is called with. -/
def readSize : Nat := 65536

end HectorCore.Server
