import HectorCore.Stream.Input

/-!
# Load — the module that reads resources from a file

`lib/processing_engine/module/Load.cc`: `ReopenFile`, `SetFilename`, `ProcessInputSync`,
`SaveCheckpointSync` and `RestoreCheckpointSync`.

* `unsigned long long` wraps around.
* `ReopenFile` declares a local `fd`, so that the member `fd` keeps the value `-1` for ever.
* A call that would wait on `fileCond` ends in `waits`.
-/

namespace HectorCore.Load

open Lib (toInt32 isSpace isDigit digits decimal)
open HectorCore.Stream (IStream InputStream Protobuf Resource openStream)

variable {M : Type}

/-- The properties of the module, and its state. -/
structure State where
  filename : List UInt8
  text : Bool
  wait : Bool
  resourceType : UInt32
  mark : Int
  maxItems : Int
  skipItems : Int
  items : Int
  markEmmited : Bool
  byteCount : UInt64
  fd : Int
  stream : Option InputStream
  deriving DecidableEq, Repr

/-- What a call of `ProcessInputSync` ends in. -/
inductive Outcome (M : Type) where
  | resource (r : Resource M)
  | null
  | waits

/-- `sscanf(buffer, "%s\n%llu\n", fn, &offset)` -/
def scanCheckpoint (buffer : List UInt8) : Option (List UInt8 × UInt64) :=
  let s := buffer.dropWhile isSpace
  let fn := s.takeWhile fun c => !isSpace c
  let s := (s.dropWhile fun c => !isSpace c).dropWhile isSpace
  let minus := s.head? = some 45
  let number := (s.drop (if minus ∨ s.head? = some 43 then 1 else 0)).takeWhile isDigit
  if fn = [] ∨ number = [] then none
  else
    let n := min (decimal number) (2 ^ 64 - 1)
    some (fn, if minus then -UInt64.ofNat n else UInt64.ofNat n)

namespace State

/-- `ReopenFile`, when the file can be opened and locked: its contents, uncompressed. -/
def reopenFile (m : State) (contents : List UInt8) : State :=
  { m with
    markEmmited := false
    byteCount := 0
    stream := some
      (if m.text then .text (IStream.ofBytes contents)
       else .binary ⟨openStream contents, 0, 0⟩) }

/-- The constructor and `Init`. -/
def init (filename : List UInt8) (text wait : Bool) (resourceType : UInt32) (mark maxItems : Int)
    (contents : List UInt8) : State :=
  reopenFile
    { filename, text, wait, resourceType, mark, maxItems, skipItems := 0, items := 0
      markEmmited := false, byteCount := 0, fd := -1, stream := none } contents

/-- `SetFilename`; `contents` are those of the file of that name. -/
def setFilename (m : State) (value : List UInt8) (contents : List UInt8) : State :=
  let m := { m with filename := value }
  if m.fd ≥ 0 then m.reopenFile contents else m

-- ---------------------------------------------------------------------------
-- ProcessInputSync
-- ---------------------------------------------------------------------------

/-- The loop over `skipItems`; `some` when the call ends in it. -/
def skipLoop (pb : Protobuf M) (sleep : Bool) (nextResourceId : Int32) :
    Nat → State → Option (Outcome M) × State
  | 0, m => (none, m)
  | n + 1, m =>
    match m.stream.map (·.read pb m.resourceType nextResourceId) with
    | some (some _, stream) =>
      skipLoop pb sleep nextResourceId n
        { m with skipItems := m.skipItems - 1, stream := some stream.refresh }
    | some (none, stream) =>
      (some (if sleep && m.wait then .waits else .null), { m with stream := some stream })
    | none => (some (if sleep && m.wait then .waits else .null), m)

/-- The marker, once. -/
def emitMark (nextResourceId : Int32) (m : State) : Outcome M × State :=
  if m.mark ≥ 0 ∧ ¬ m.markEmmited then
    (.resource ⟨nextResourceId, 0, .markerResource (Int32.ofInt m.mark)⟩,
      { m with markEmmited := true })
  else (.null, m)

def processInputSync (pb : Protobuf M) (sleep : Bool) (nextResourceId : Int32) (m : State) :
    Outcome M × State :=
  if m.maxItems ≠ 0 ∧ m.items ≥ m.maxItems then emitMark nextResourceId m
  else
    match skipLoop pb sleep nextResourceId m.skipItems.toNat m with
    | (some outcome, m) => (outcome, m)
    | (none, m) =>
      match m.stream.map (·.deserializeResource pb m.resourceType nextResourceId) with
      | some (some (r, size), stream) =>
        (.resource r,
          { m with
            byteCount := m.byteCount + UInt64.ofInt size, items := m.items + 1
            stream := some stream })
      | some (none, stream) =>
        let m := { m with stream := some stream }
        if sleep && m.wait then (.waits, m) else emitMark nextResourceId m
      | none => if sleep && m.wait then (.waits, m) else emitMark nextResourceId m

-- ---------------------------------------------------------------------------
-- Checkpoints
-- ---------------------------------------------------------------------------

/-- `SaveCheckpointSync`: what is written, `"%s\n%llu\n"` in a buffer of 1024 bytes. -/
def saveCheckpointSync (m : State) : List UInt8 :=
  (m.filename ++ 10 :: (digits m.byteCount.toNat ++ [10])).take 1023

/-- `RestoreCheckpointSync`, from the text of the checkpoint; `contents` are those of the file
that it names. -/
def restoreCheckpointSync (m : State) (buffer : List UInt8) (contents : List UInt8) :
    Bool × State :=
  match scanCheckpoint buffer with
  | none => (false, m)
  | some (fn, offset) =>
    let m := m.setFilename fn contents
    match m.stream with
    | none => (false, m)
    | some stream =>
      let (ok, stream) := stream.skip (toInt32 offset.toNat)
      (ok, { m with stream := some stream })

end State

end HectorCore.Load
