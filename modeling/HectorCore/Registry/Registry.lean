import Mathlib.Logic.Function.Basic

/-!
# Registry — the classes of resources, and the resources that wait for reuse

`lib/processing_engine/ResourceRegistry.cc` and `ResourceRegistry.h`: `LoadResourceLibrary`,
`GetInfo`, `NameToId`, `AcquireResource`, `ReleaseResource`, `GetAttrInfo` and `NextResourceId`;
the constructors and `Clear` of `Resource.h`; `Resource::DeserializeResource` (`Resource.cc`) as
far as the registry goes.

* A resource is a pointer into `heap`; memory is never handed out twice.
* Libraries and Perl are not in the repository. A candidate file is what it turns out to be when
  it is tried, and a `PerlAnswer` is what Perl does when a resource of a Perl class is created.
* `nextId` counts on; an id is its lowest 32 bits.
* A failed assertion ends in `none`.
-/

namespace HectorCore.Registry

variable {P A : Type}

/-- What the `ResourceInfo` of a class says, and its members beyond those of `Resource`: `P` are
their values, as `create` and `clear` leave them. `A` are the `ResourceAttrInfo`s. -/
structure Class (P A : Type) where
  typeId : Int32
  typeString : String
  attrInfoList : List (String × A)
  create : P
  clear : P → P

/-- `Resource` -/
structure Resource (P A : Type) where
  cls : Class P A
  id : Int32
  status : Int32
  flags : Int32
  attachedResource : Option Nat
  payload : P

/-- `ResourceRegistryInfo`; the back of `available` is the head of the list. -/
structure Info (P A : Type) where
  cls : Class P A
  perl : Bool
  available : List Nat

/-- A file of `LD_LIBRARY_PATH`. -/
inductive NativeFile (P A : Type) where
  /-- There is no `hector_resource_create`, or it returns `NULL`. -/
  | noResource
  /-- A resource without `ResourceInfo`. -/
  | noInfo
  | provides (c : Class P A)

/-- A file of `PERL5LIB`. -/
inductive PerlFile (P A : Type) where
  /-- `AcquirePerl` returns `NULL`. -/
  | noInterpreter
  /-- `Init` fails, or the resource has no `ResourceInfo`. -/
  | noInfo
  | provides (c : Class P A)

/-- What happens when a resource of a Perl class is created. -/
inductive PerlAnswer where
  | noInterpreter
  | initFails
  | created
  deriving DecidableEq, Repr

structure State (P A : Type) where
  nextId : Nat
  heap : Nat → Option (Resource P A)
  allocated : Nat
  name2id : String → Option Int32
  id2info : Int32 → Option (Info P A)
  nativeFilenames : List (NativeFile P A)
  perlFilenames : List (PerlFile P A)

/-- The reads of a stream that `DeserializeResource` makes, and what each returns. -/
structure Incoming (P : Type) where
  type : Option UInt32
  id : Option UInt32
  status : Option UInt32
  /-- `r->Deserialize(stream)`, and what it leaves in `r`. -/
  deserialize : Bool × P

def availableSizeMax : Nat := 10000

/-- `Clear`, of the class of the resource. -/
def Resource.clear (r : Resource P A) : Resource P A :=
  { r with flags := 0, status := 0, id := 0, attachedResource := none
           payload := r.cls.clear r.payload }

namespace State

/-- The constructor. -/
def init (nativeFilenames : List (NativeFile P A)) (perlFilenames : List (PerlFile P A)) :
    State P A :=
  { nextId := 1, heap := fun _ => none, allocated := 0, name2id := fun _ => none
    id2info := fun _ => none, nativeFilenames, perlFilenames }

/-- `NextResourceId` -/
def nextResourceId (s : State P A) : Int32 × State P A :=
  (Int32.ofNat s.nextId, { s with nextId := s.nextId + 1 })

/-- Assignment to the resource at `p`. -/
def set (s : State P A) (p : Nat) (r : Option (Resource P A)) : State P A :=
  { s with heap := Function.update s.heap p r }

/-- A resource that has just been constructed. -/
def alloc (s : State P A) (r : Resource P A) : Nat × State P A :=
  (s.allocated, { s.set s.allocated (some r) with allocated := s.allocated + 1 })

/-- `new`, of a class: `Resource::Resource()`. -/
def create (s : State P A) (c : Class P A) : Nat × State P A :=
  let (id, s) := s.nextResourceId
  s.alloc ⟨c, id, 0, 0, none, c.create⟩

/-- `Clone`: `Resource::Resource(const Resource &r)`, and a copy of the payload. -/
def clone (s : State P A) (r : Resource P A) : Nat × State P A :=
  let (id, s) := s.nextResourceId
  s.alloc { r with id }

def putInfo (s : State P A) (info : Info P A) : State P A :=
  { s with id2info := Function.update s.id2info info.cls.typeId (some info) }

-- ---------------------------------------------------------------------------
-- LoadResourceLibrary
-- ---------------------------------------------------------------------------

/-- "create mapping": the `info` of the class of a new resource, with the resource available. -/
def createMapping (s : State P A) (perl : Bool) (c : Class P A) : Info P A × State P A :=
  let (p, s) := s.create c
  match s.id2info c.typeId with
  | none =>
    let info : Info P A := ⟨c, perl, [p]⟩
    (info,
      { s with name2id := Function.update s.name2id c.typeString (some c.typeId) }.putInfo info)
  | some info =>
    let info := { info with available := p :: info.available }
    (info, s.putInfo info)

/-- The test at the end of both loops. -/
def wanted (typeString : Option String) (typeId : Int32) (info : Info P A) : Bool :=
  (typeId != 0 && info.cls.typeId == typeId) || typeString == some info.cls.typeString

/-- "try to find native library for given resource" -/
def loadNative (typeString : Option String) (typeId : Int32) :
    List (NativeFile P A) → State P A → Option (Info P A) × State P A
  | [], s => (none, { s with nativeFilenames := [] })
  | .noResource :: files, s => loadNative typeString typeId files s
  | .noInfo :: files, s => loadNative typeString typeId files s.nextResourceId.2
  | .provides c :: files, s =>
    let (info, s) := s.createMapping false c
    if wanted typeString typeId info then (some info, { s with nativeFilenames := files })
    else loadNative typeString typeId files s

/-- "try to find Perl resource using PERL5LIB" -/
def loadPerl (typeString : Option String) (typeId : Int32) :
    List (PerlFile P A) → State P A → Option (Info P A) × State P A
  | [], s => (none, { s with perlFilenames := [] })
  | .noInterpreter :: _, s => (none, { s with perlFilenames := [] })
  | .noInfo :: files, s => loadPerl typeString typeId files s.nextResourceId.2
  | .provides c :: files, s =>
    let (info, s) := s.createMapping true c
    if wanted typeString typeId info then (some info, { s with perlFilenames := files })
    else loadPerl typeString typeId files s

def loadResourceLibrary (s : State P A) (typeString : Option String) (typeId : Int32) :
    Option (Option (Info P A) × State P A) :=
  -- assert(typeString || typeId != 0)
  if typeString = none ∧ typeId = 0 then none
  else
    match loadNative typeString typeId s.nativeFilenames s with
    | (some info, s) => some (some info, s)
    | (none, s) => some (loadPerl typeString typeId s.perlFilenames s)

def getInfo (s : State P A) (typeId : Int32) : Option (Option (Info P A) × State P A) :=
  match s.id2info typeId with
  | some info => some (some info, s)
  | none => s.loadResourceLibrary none typeId

def nameToId (s : State P A) (name : String) : Option (Int32 × State P A) :=
  match s.name2id name with
  | some typeId => some (typeId, s)
  | none =>
    match s.loadResourceLibrary (some name) 0 with
    | none => none
    | some (some info, s) => some (info.cls.typeId, s)
    | some (none, s) => some (-1, s)

/-- `GetAttrInfo`; a later attribute of the same name takes the place of an earlier one. -/
def getAttrInfo (s : State P A) (typeId : Int32) (name : String) :
    Option (Option A × State P A) :=
  match s.getInfo typeId with
  | none => none
  | some (none, s) => some (none, s)
  | some (some info, s) =>
    some ((info.cls.attrInfoList.reverse.find? fun ai => ai.1 = name).map (·.2), s)

-- ---------------------------------------------------------------------------
-- AcquireResource, ReleaseResource
-- ---------------------------------------------------------------------------

/-- "previously created resource?" -/
def takeOrCreate (s : State P A) (perl : PerlAnswer) (info : Info P A) :
    Option Nat × State P A :=
  match info.available with
  | p :: available =>
    let s := s.putInfo { info with available }
    let (id, s) := s.nextResourceId
    (some p, s.set p ((s.heap p).map fun r => { r with id }))
  | [] =>
    if info.perl then
      match perl with
      | .noInterpreter => (none, s)
      | .initFails => (none, s.nextResourceId.2)
      | .created =>
        let (p, s) := s.create info.cls
        (some p, s)
    else
      let (p, s) := s.create info.cls
      (some p, s)

def acquireResource (s : State P A) (perl : PerlAnswer) (typeId : Int32) :
    Option (Option Nat × State P A) :=
  if typeId < 0 then some (none, s)
  else
    match s.getInfo typeId with
    | none => none
    | some (none, s) => some (none, s)
    | some (some info, s) => some (s.takeOrCreate perl info)

/-- `AcquireResource(const char *typeString)` -/
def acquireNamed (s : State P A) (perl : PerlAnswer) (typeString : String) :
    Option (Option Nat × State P A) :=
  match s.nameToId typeString with
  | none => none
  | some (typeId, s) => if typeId ≠ -1 then s.acquireResource perl typeId else some (none, s)

/-- `ReleaseResource`; where there is no resource, the pointer is `NULL`. -/
def releaseResource (s : State P A) (p : Nat) : Option (State P A) :=
  match s.heap p with
  | none => some s
  | some r =>
    match s.getInfo r.cls.typeId with
    | none => none
    -- "Unknown resource type"
    | some (none, s) => some s
    | some (some info, s) =>
      if info.available.length < availableSizeMax then
        some ((s.set p (some r.clear)).putInfo { info with available := p :: info.available })
      else some (s.set p none)

-- ---------------------------------------------------------------------------
-- DeserializeResource
-- ---------------------------------------------------------------------------

/-- `readIdStatus`, and the type of the resource; `none` when the type cannot be read. -/
def readType (resourceType : Int32) (stream : Incoming P) : Option (Bool × Int32) :=
  if resourceType = 0 then
    stream.type.map fun type => (type &&& 0x80 != 0, (type &&& 0x7f).toInt32)
  else some (false, resourceType)

/-- The reads of the id and of the status; `none` when one of them fails. -/
def readIdStatus (stream : Incoming P) : Option (Int32 × Int32) :=
  stream.id.bind fun id => stream.status.map fun status => (id.toInt32, status.toInt32)

/-- `if (!r->Deserialize(stream))` -/
def deserializePayload (s : State P A) (stream : Incoming P) (p : Nat) :
    Option (Option Nat × State P A) :=
  let s := s.set p ((s.heap p).map fun r => { r with payload := stream.deserialize.2 })
  if stream.deserialize.1 then some (some p, s)
  else (s.releaseResource p).map fun s => (none, s)

def deserializeResource (s : State P A) (perl : PerlAnswer) (resourceType : Int32)
    (stream : Incoming P) : Option (Option Nat × State P A) :=
  match readType resourceType stream with
  | none => some (none, s)
  | some (idStatus, typeId) =>
    match s.acquireResource perl typeId with
    | none => none
    | some (none, s) => some (none, s)
    | some (some p, s) =>
      if idStatus then
        match readIdStatus stream with
        -- "delete r"
        | none => some (none, s.set p none)
        | some (id, status) =>
          (s.set p ((s.heap p).map fun r => { r with id, status })).deserializePayload stream p
      else s.deserializePayload stream p

end State

end HectorCore.Registry
