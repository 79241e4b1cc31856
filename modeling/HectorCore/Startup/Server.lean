import HectorCore.Objects.ObjectRegistry
import HectorCore.Processing.Processor
import HectorCore.Queue.SyncQueue
import HectorCore.Startup.SubstituteArgs

/-!
# Server — from a config to connected processors

`Server::Init` and what it calls: `ProcessingEngine::Init`, `Processor::Init`, `Processor::Connect`,
`OutputFilter`, `CreateOutputQueue`. There are two stages: in the first one every object is
constructed and registered, in the second one every reference to another object is resolved.

* The config is what the XPath queries find in it, after `SubstituteArgs`; an attribute that is not
  there is `none`.
* An object is known by its address, the number of objects that are constructed before it. A queue,
  a processor or an engine is an index into the list of all of them.
* The libraries of the modules are a parameter. A module that they create answers by its address.
* A message of `LOG_ERROR` is an `InitError`. A failed assertion is one too: both end the process.
-/

namespace HectorCore.Startup

open Lib (toInt32 isDigit isSpace)
open Objects (ObjectRegistry indexed)
open Processing (ModuleType QueueRef)
open Queue (SyncQueue)

-- ---------------------------------------------------------------------------
-- The config
-- ---------------------------------------------------------------------------

/-- `queue` of an `input`, by its attributes. -/
structure QueueElem where
  priority : Option Str
  maxItems : Option Str
  maxSize : Option Str

/-- `nextProcessor` of an `output`, by its attributes. -/
structure NextProcessorElem where
  ref : Option Str
  priority : Option Str
  copy : Option Str
  filter : Option Str

/-- `param`: its name, and the attribute `value` or else its text. -/
structure ParamElem where
  name : Str
  value : Option Str

structure ModuleElem where
  id : Str
  lib : Option Str
  type : Option Str
  params : List ParamElem

structure ProcessorElem where
  id : Str
  threads : Option Str
  modules : List ModuleElem
  queues : List QueueElem
  nextProcessors : List NextProcessorElem

structure EngineElem where
  id : Str
  processors : List ProcessorElem
  inputProcessor : Option Str

structure ServerElem where
  id : Str
  engines : List EngineElem
  serverHost : Option Str
  serverPort : Option Str
  lib : Option Str

inductive InitError where
  | invalidThreads (s : Option Str)
  | moduleNotFound (name : Option Str)
  | unknownModuleType (name : Option Str) (type : Str)
  | noParamValue (module name : Str)
  | moduleInit (module : Nat)
  | invalidPriority (s : Str)
  | invalidMaxItems (s : Str)
  | invalidMaxSize (s : Str)
  /-- The assertion of `addQueue`. -/
  | duplicatePriority
  | missingReference
  | invalidFilter (s : Str)
  | modules
  | inputProcessorNotFound (ref : Str)
  | serverHostNotFound
  | serverPortNotFound
  | serverLibNotFound
  | invalidLibrary (lib : Str)
  | noProcessingEngine
  | referenceNotFound (ref : Str)
  | noQueueWithPriority (priority : Int) (ref : Str)
  deriving DecidableEq

/-- A string constant. -/
def ascii (s : String) : Str := s.toList.map fun c => UInt8.ofNat c.toNat

/-- `sscanf(s, "%d", &n)`, where it returns 1. The number is a `long` first. -/
def scanInt (s : Str) : Option Int :=
  let s := s.dropWhile isSpace
  let (negative, s) :=
    match s with
    | [] => (false, [])
    | c :: rest => if c = 45 then (true, rest) else if c = 43 then (false, rest) else (false, s)
  let digits := s.takeWhile isDigit
  let n : Nat := digits.foldl (fun n c => n * 10 + (c.toNat - 48)) 0
  let value : Int := if negative then -n else n
  if digits.isEmpty then none else some (toInt32 (max (-2 ^ 63) (min value (2 ^ 63 - 1))))

/-- The number in an attribute that may be left out. -/
def readInt (error : Str → InitError) : Option Str → Except InitError Int
  | none => .ok 0
  | some s =>
    match scanInt s with
    | none => .error (error s)
    | some n => .ok n

-- ---------------------------------------------------------------------------
-- The objects
-- ---------------------------------------------------------------------------

/-- `OutputFilter`; `queue` is set by `Connect`. -/
structure OutputFilter where
  filter : Int
  emptyFilter : Bool
  priority : Int
  processor : Str
  copy : Bool
  queue : Option QueueRef

/-- `engineOutputQueue` is set by `Connect`. There is a list of modules for each thread. -/
structure Processor where
  engine : Nat
  nThreads : Nat
  modules : List (List (Nat × ModuleType))
  inputQueue : QueueRef
  outputFilters : List OutputFilter
  engineOutputQueue : Option QueueRef

structure ProcessingEngine where
  processors : List Nat
  inputQueue : Option QueueRef
  outputQueue : Option QueueRef

/-- What is at an address, as `dynamic_cast` sees it. -/
inductive Kind where
  | server
  | engine (i : Nat)
  | processor (k : Nat)
  | module
  deriving DecidableEq

structure Server where
  registry : ObjectRegistry
  objects : List Kind
  engines : List ProcessingEngine
  processors : List Processor
  queues : List (SyncQueue Processing.Resource)

/-- The libraries of the modules and of the server, and what the modules answer. -/
structure Libraries where
  /-- `LoadLibrary(name, "hector_module_create")`; the name may be `NULL`. -/
  moduleCreate : Option Str → Bool
  /-- `Init` with its parameters. -/
  init : Nat → List (Str × Str) → Bool
  getType : Nat → ModuleType
  /-- `Init(NULL)` -/
  initSecond : Nat → Bool
  /-- `LoadLibrary(s, "hector_server_create")` -/
  serverCreate : Str → Bool

namespace Server

def new : Server := ⟨⟨fun _ => none⟩, [], [], [], []⟩

/-- The constructor of `Object`. -/
def construct (s : Server) (id : Str) (kind : Kind) : Server :=
  { s with
    registry := (s.registry.registerObject s.objects.length id).2
    objects := s.objects ++ [kind] }

/-- `objects->GetObject(ref)` -/
def getObject (s : Server) (ref : Str) : Option Kind :=
  (s.registry.getObject ref).bind fun address => s.objects[address]?

end Server

/-- A processor as its threads see it. -/
def Processor.view (s : Server) (p : Processor) (thread : Nat) (batch ndebug : Bool) :
    Processing.Processor where
  types := (p.modules.getD thread []).map Prod.snd
  outputFilters := p.outputFilters.map fun f =>
    ⟨f.filter, f.emptyFilter, f.priority, f.copy, f.queue.getD 0⟩
  queuesCount := (s.queues[p.inputQueue]?).elim 0 (·.queues.length)
  inputQueue := p.inputQueue
  engineInputQueue := (s.engines[p.engine]?).bind (·.inputQueue)
  engineOutputQueue := p.engineOutputQueue
  batch := batch
  ndebug := ndebug

-- ---------------------------------------------------------------------------
-- The first stage
-- ---------------------------------------------------------------------------

/-- The number of threads of a processor. -/
def readThreads (threads : Option Str) : Except InitError Nat :=
  match threads.bind scanInt with
  | none => .error (.invalidThreads threads)
  | some n => if n ≤ 0 ∨ 100 < n then .error (.invalidThreads threads) else .ok n.toNat

/-- The parameters of a module, without `logLevel`. -/
def readParams (module : Str) : List ParamElem → Except InitError (List (Str × Str))
  | [] => .ok []
  | e :: es =>
    match e.value with
    | none => .error (.noParamValue module e.name)
    | some value => do
      let params ← readParams module es
      return if e.name = ascii "logLevel" then params else (e.name, value) :: params

/-- Whether there is something that creates the module. -/
def findLibrary (libs : Libraries) (e : ModuleElem) : Except InitError Unit :=
  match e.type with
  | none => if libs.moduleCreate e.lib then .ok () else .error (.moduleNotFound e.lib)
  | some type =>
    if type = ascii "native" then
      if libs.moduleCreate e.lib then .ok () else .error (.moduleNotFound e.lib)
    else if type = ascii "perl" ∨ type = ascii "python" then .ok ()
    else .error (.unknownModuleType e.lib type)

namespace Server

/-- One module for each thread, from thread `i` on. -/
def constructModules (s : Server) (id : Str) : Nat → Nat → Server
  | _, 0 => s
  | i, n + 1 => (s.construct (indexed id (Int32.ofNat i)) .module).constructModules id (i + 1) n

/-- `Init` of the modules that have been created for the threads. -/
def initModules (libs : Libraries) (params : List (Str × Str)) : List Nat → Except InitError Unit
  | [] => .ok ()
  | a :: rest => if libs.init a params then initModules libs params rest else .error (.moduleInit a)

/-- One round of the loop over the modules. -/
def addModule (libs : Libraries) (nThreads : Nat) (e : ModuleElem)
    (s : Server) (modules : List (List (Nat × ModuleType))) :
    Except InitError (Server × List (List (Nat × ModuleType))) := do
  findLibrary libs e
  let created := List.range' s.objects.length nThreads
  let s := s.constructModules e.id 0 nThreads
  let params ← readParams e.id e.params
  initModules libs params created
  return (s, List.zipWith (fun mis a => mis ++ [(a, libs.getType a)]) modules created)

def addModules (libs : Libraries) (nThreads : Nat) : List ModuleElem → Server →
    List (List (Nat × ModuleType)) → Except InitError (Server × List (List (Nat × ModuleType)))
  | [], s, modules => .ok (s, modules)
  | e :: es, s, modules => do
    let (s, modules) ← addModule libs nThreads e s modules
    addModules libs nThreads es s modules

end Server

/-- The loop over the queues of `input`. -/
def addQueues : List QueueElem → SyncQueue Processing.Resource →
    Except InitError (SyncQueue Processing.Resource)
  | [], q => .ok q
  | e :: es, q => do
    let priority ← readInt .invalidPriority e.priority
    let maxItems ← readInt .invalidMaxItems e.maxItems
    let maxSize ← readInt .invalidMaxSize e.maxSize
    match q.addQueue priority maxItems maxSize with
    | none => .error .duplicatePriority
    | some q => addQueues es q

/-- `!strcmp(s, "1") || !strcasecmp(s, "true")` -/
def readCopy : Option Str → Bool
  | none => false
  | some s =>
    decide (s = ascii "1") ||
      decide ((s.map fun c => if 65 ≤ c ∧ c ≤ 90 then c + 32 else c) = ascii "true")

/-- One `nextProcessor`. -/
def readFilter (e : NextProcessorElem) : Except InitError OutputFilter :=
  match e.ref with
  | none => .error .missingReference
  | some ref => do
    let priority ← readInt .invalidPriority e.priority
    let filter ← readInt .invalidFilter e.filter
    return { filter, emptyFilter := e.filter.isNone, priority, processor := ref,
             copy := readCopy e.copy, queue := none }

def readFilters : List NextProcessorElem → Except InitError (List OutputFilter)
  | [] => .ok []
  | e :: es => do
    let f ← readFilter e
    let fs ← readFilters es
    return f :: fs

namespace Server

/-- The constructor of a `Processor`, and `Init` with the config. -/
def initProcessor (libs : Libraries) (engine : Nat) (e : ProcessorElem) (s : Server) :
    Except InitError Server := do
  let s := s.construct e.id (.processor s.processors.length)
  let nThreads ← readThreads e.threads
  let (s, modules) ← addModules libs nThreads e.modules s (List.replicate nThreads [])
  let q ← addQueues e.queues SyncQueue.new
  let outputFilters ← readFilters e.nextProcessors
  let p : Processor :=
    { engine, nThreads, modules, inputQueue := s.queues.length, outputFilters,
      engineOutputQueue := none }
  let s := { s with queues := s.queues ++ [q], processors := s.processors ++ [p] }
  if (p.view s 0 false false).checkModules then return s
  else throw .modules

def initProcessors (libs : Libraries) (engine : Nat) : List ProcessorElem → Server →
    Except InitError Server
  | [], s => .ok s
  | e :: es, s => do
    let s ← initProcessor libs engine e s
    initProcessors libs engine es s

/-- The input queue of an engine. -/
def findInput (s : Server) : Option Str → Except InitError (Option QueueRef)
  | none => .ok none
  | some ref =>
    match s.getObject ref with
    | some (.processor k) =>
      match s.processors[k]? with
      | some p => .ok (some p.inputQueue)
      | none => .error (.inputProcessorNotFound ref)
    | _ => .error (.inputProcessorNotFound ref)

/-- The constructor of a `ProcessingEngine`, and `Init` with the config. -/
def initEngine (libs : Libraries) (e : EngineElem) (s : Server) : Except InitError Server := do
  let first := s.processors.length
  let s := s.construct e.id (.engine s.engines.length)
  let s ← initProcessors libs s.engines.length e.processors s
  let inputQueue ← s.findInput e.inputProcessor
  let engine : ProcessingEngine :=
    { processors := List.range' first (s.processors.length - first), inputQueue,
      outputQueue := none }
  return { s with engines := s.engines ++ [engine] }

def initEngines (libs : Libraries) : List EngineElem → Server → Except InitError Server
  | [], s => .ok s
  | e :: es, s => do
    let s ← initEngine libs e s
    initEngines libs es s

/-- The part of `Server::Init` that is left out in batch mode, with `BaseServer::Init`. -/
def initHttp (libs : Libraries) (e : ServerElem) (s : Server) : Except InitError Unit := do
  if e.serverHost.isNone then throw .serverHostNotFound
  if (e.serverPort.bind scanInt).isNone then throw .serverPortNotFound
  match e.lib with
  | none => throw .serverLibNotFound
  | some lib => if libs.serverCreate lib then pure () else throw (.invalidLibrary lib)
  if s.engines.isEmpty then throw .noProcessingEngine

-- ---------------------------------------------------------------------------
-- The second stage
-- ---------------------------------------------------------------------------

/-- What `CreateOutputQueue` makes. -/
def outputQueue : SyncQueue Processing.Resource :=
  (SyncQueue.new.addQueue 0 0 0).getD SyncQueue.new

/-- The queue behind a reference. An engine that has no output queue gets one. -/
def resolve (s : Server) (ref : Str) : Except InitError (QueueRef × Server) :=
  match s.getObject ref with
  | some (.processor k) =>
    match s.processors[k]? with
    | some p => .ok (p.inputQueue, s)
    | none => .error (.referenceNotFound ref)
  | some (.engine i) =>
    match s.engines[i]? with
    | some e =>
      match e.outputQueue with
      | some q => .ok (q, s)
      | none =>
        .ok (s.queues.length,
          { s with
            queues := s.queues ++ [outputQueue]
            engines := s.engines.set i { e with outputQueue := some s.queues.length } })
    | none => .error (.referenceNotFound ref)
  | _ => .error (.referenceNotFound ref)

/-- `q->hasQueue(priority)` -/
def hasQueue (s : Server) (q : QueueRef) (priority : Int) : Bool :=
  (s.queues[q]?).elim false (·.hasQueue priority)

/-- The loop of `Connect` over the filters. -/
def connectFilters : List OutputFilter → Server → Except InitError (List OutputFilter × Server)
  | [], s => .ok ([], s)
  | f :: fs, s => do
    let (q, s) ← s.resolve f.processor
    if s.hasQueue q f.priority then
      let (fs, s) ← connectFilters fs s
      return ({ f with queue := some q } :: fs, s)
    else throw (.noQueueWithPriority f.priority f.processor)

/-- `Init(NULL)` of the modules of a processor. -/
def initModulesSecond (libs : Libraries) : List (Nat × ModuleType) → Except InitError Unit
  | [] => .ok ()
  | (a, _) :: rest =>
    if libs.initSecond a then initModulesSecond libs rest else .error (.moduleInit a)

def setProcessor (s : Server) (k : Nat) (p : Processor) : Server :=
  { s with processors := s.processors.set k p }

/-- `Processor::Init(NULL)` of processor `k`, which ends with `Connect`. -/
def connect (libs : Libraries) (k : Nat) (s : Server) : Except InitError Server :=
  match s.processors[k]? with
  | none => .ok s
  | some p => do
    initModulesSecond libs p.modules.flatten
    let (outputFilters, s) ← connectFilters p.outputFilters s
    let engineOutputQueue := (s.engines[p.engine]?).bind (·.outputQueue)
    return s.setProcessor k { p with outputFilters, engineOutputQueue }

def connectAll (libs : Libraries) : List Nat → Server → Except InitError Server
  | [], s => .ok s
  | k :: ks, s => do
    let s ← connect libs k s
    connectAll libs ks s

/-- The first stage. -/
def construction (libs : Libraries) (batch : Bool) (e : ServerElem) : Except InitError Server := do
  let s ← initEngines libs e.engines (new.construct e.id .server)
  if batch then return s
  else
    initHttp libs e s
    return s

/-- `Server::Init` -/
def init (libs : Libraries) (batch : Bool) (e : ServerElem) : Except InitError Server := do
  let s ← construction libs batch e
  connectAll libs (s.engines.flatMap (·.processors)) s

end Server

end HectorCore.Startup
