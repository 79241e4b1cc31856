import HectorCore.Stream.Binary

/-!
# Process — PROCESS and PASS requests

The part of `BaseServer::HandleRequest` that reads resources from the body of a request, puts
them into a processing engine, waits for the results and writes them into the response, in the
order of the request.

* The engine is what it answers: which resources `ProcessResource` takes, and what
  `GetProcessedResources` returns for a set of ids.
* The body is an `ArrayInputStream` that gives all it has to the coded stream on top of it at
  once; a coded stream gives back what it has not read when it is destroyed.
* A resource that has gone to `ReleaseResource` has been cleared, or deleted if the registry's
  pool was full.
-/

namespace HectorCore.Server

open HectorCore.Stream
open Lib (Source)

variable {M : Type}

-- ---------------------------------------------------------------------------
-- The body of the request
-- ---------------------------------------------------------------------------

/-- `google::protobuf::io::ArrayInputStream` with one block. -/
structure ArrayInputStream where
  size : Nat
  position : Nat
  deriving DecidableEq, Repr

/-- `Next`: all that is left. -/
def ArrayInputStream.next (a : ArrayInputStream) : ArrayInputStream := { a with position := a.size }

def ArrayInputStream.backUp (a : ArrayInputStream) (count : Nat) : ArrayInputStream :=
  { a with position := a.position - count }

/-- `ResourceInputStreamBinary`: the array, and the coded stream that reads from it. -/
structure BodyStream where
  file : ArrayInputStream
  stream : Source
  deriving DecidableEq, Repr

/-- The constructor of the coded stream calls `Next`. The body has less than 2 GiB, so that the
array has its size; see `openString`. -/
def BodyStream.new (body : List UInt8) : BodyStream :=
  ⟨(⟨body.length, 0⟩ : ArrayInputStream).next, openStream body⟩

def BodyStream.byteCount (s : BodyStream) : Nat := s.file.position

/-- `DeserializeResource` with the call of `Refresh` at its end: the coded stream gives back
what it has not read, and the new one takes it again. -/
def BodyStream.deserializeResource (c : MessageCodec M) (s : BodyStream) (typeId : UInt32)
    (nextResourceId : Int32) : Option (Resource M × BodyStream) :=
  match Stream.deserializeResource c typeId nextResourceId s.stream with
  | none => none
  | some (r, stream) => some (r, ⟨(s.file.backUp stream.rest.length).next, stream⟩)

-- ---------------------------------------------------------------------------
-- The engine
-- ---------------------------------------------------------------------------

/-- What `GetProcessedResources` returns for a set of ids, also when it is cancelled: every
resource is found under its id, which is then taken out of the set (see
`Clients.output_ids_of_run`). -/
structure Processed (M : Type) (ids : List Int32) where
  result : List (Resource M)
  nodup : (result.map fun r => r.id).Nodup
  subset : ∀ r ∈ result, r.id ∈ ids

structure Engine (M : Type) where
  /-- `ProcessResource` for the resources of the request, one after the other. -/
  processResource : Nat → Bool
  /-- `GetProcessedResources`, if the engine has an output queue. -/
  outputQueue : Option ((ids : List Int32) → Processed M ids)

/-- What happens around the request: the ids that the registry gives out, and whether its pool
keeps the resources that are released. -/
structure Registry where
  nextResourceId : Nat → Int32
  keeps : Nat → Bool

-- ---------------------------------------------------------------------------
-- The answer
-- ---------------------------------------------------------------------------

inductive Answer where
  | response (code : Nat) (description : String) (body : List UInt8)
  /-- A NULL pointer, or a pointer to a deleted resource, is used. -/
  | undefined
  deriving DecidableEq, Repr

/-- How the loop over the body ends. -/
inductive Loop where
  | failed (typeId : UInt32)
  | left (resourceIdsOrdered : List Int32) (stream : BodyStream)

def Loop.push (id : Int32) : Loop → Loop
  | .failed typeId => .failed typeId
  | .left ids stream => .left (id :: ids) stream

/-- The loop over the body, at the `k`-th resource; `none` if `fuel` turns are not enough. -/
def readResources (c : MessageCodec M) (registry : Registry) (engine : Engine M) :
    Nat → Nat → BodyStream → Option Loop
  | 0, _, _ => none
  | fuel + 1, k, s =>
    match readVarint32 s.stream with
    | none => some (.left [] s)
    | some (typeId, stream) =>
      match BodyStream.deserializeResource c { s with stream } typeId
        (registry.nextResourceId k) with
      | none => some (.failed typeId)
      | some (r, s) =>
        if engine.processResource k then
          (readResources c registry engine fuel (k + 1) s).map (Loop.push r.id)
        else some (.left [] s)

/-- A pointer in `map`. -/
inductive Slot (M : Type) where
  | null
  | live (r : Resource M)
  | deleted

def resultMap (result : List (Resource M)) : Int32 → Slot M :=
  result.foldl (fun map r => Function.update map r.id (.live r)) fun _ => .null

/-- The loop that writes the response; `none` when it uses a pointer that is not good. -/
def writeResponse (c : MessageCodec M) (registry : Registry) :
    Nat → (Int32 → Slot M) → List Int32 → Option (List UInt8)
  | _, _, [] => some []
  | i, map, id :: ids =>
    match map id with
    | .null => none
    | .deleted => none
    | .live r =>
      let released := if registry.keeps i then .live (r.clear c) else .deleted
      (writeResponse c registry (i + 1) (Function.update map id released) ids).map
        (serializeResource c r true false ++ ·)

inductive Method where
  | process
  | pass
  deriving DecidableEq, Repr

/-- `HandleRequest` for PROCESS and PASS; `engine` is what the arguments name. -/
def handleRequest (c : MessageCodec M) (registry : Registry) (method : Method)
    (engine : Option (Engine M)) (body : List UInt8) : Answer :=
  match engine with
  | none => .response 500 "ProcessorEngine not found" []
  | some engine =>
    if (method = .process ∧ engine.outputQueue.isNone) ∨
      (method = .pass ∧ engine.outputQueue.isSome) then
      .response 500 "Invalid method for ProcessorEngine" []
    else
      match readResources c registry engine (body.length + 1) 0 (BodyStream.new body) with
      | none => .undefined
      | some (.failed typeId) =>
        .response 500 ("Cannot deserialize resource of type " ++ toString typeId.toInt32.toInt) []
      | some (.left ids stream) =>
        if stream.byteCount < body.length then
          .response 500 "Error passing data to ProcessingEngine" []
        else
          match engine.outputQueue with
          | none => .response 200 "OK" []
          | some getProcessedResources =>
            let result := (getProcessedResources ids).result
            match writeResponse c registry 0 (resultMap result) ids with
            | none => .undefined
            | some response =>
              if result.length = ids.length then .response 200 "OK" response
              else .response 500 "Error getting data from ProcessingEngine" response

end HectorCore.Server
