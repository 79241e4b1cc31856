import Mathlib.Data.List.Basic

/-!
# Processor — the worker thread

`lib/processing_engine/Processor.cc`: `QueueResource`, `ApplyModules`, the main loop of
`RunThread` and the module check of `Init`, for one worker thread.

Everything the thread calls but does not own is a `World`: the modules, the input queue,
the queues behind the output filters, `Clone`. A `World σ` answers from a state `σ` that
every answer may change, so that one value of it is one behaviour of the environment, and
quantifying over all of them is quantifying over all behaviours.

A thread carries a `log` of what it did: the events name every resource that came in, was
handed on or was given up, and every call of `UpdateResourceCount`.

* A `Resource` is identified by its address `ptr`; modules may change everything else.
* `deletedResources` is a member of the processor, which all of its threads push to and flush
  without a lock. Here the processor has one thread, and the queue is kept with that thread.
* A Boolean `wait` stands for the `timeout` argument: `true` for `&timeout` (which is zero
  here, so the call waits for ever), `false` for `NULL`.
* Assertions abort the process in a debug build and are compiled out with `NDEBUG`
  (`configure.ac`); `ndebug` selects the build.
* `ProcessInput` may deliver deleted resources for ever, so the loop over them runs on fuel.
-/

namespace HectorCore.Processing

/-- `Module::Type`. -/
inductive ModuleType where
  | invalid
  | input
  | output
  | simple
  | multi
  deriving DecidableEq, Repr

/-- The part of a `Resource` that the processor reads, and its address. -/
structure Resource where
  ptr : Nat
  id : Int
  status : Int
  deleted : Bool
  skip : Bool
  deriving DecidableEq, Repr

/-- A queue of some processor or engine, named by a number. -/
abbrev QueueRef := Nat

structure OutputFilter where
  filter : Int
  emptyFilter : Bool
  priority : Int
  copy : Bool
  queue : QueueRef
  deriving DecidableEq, Repr

/-- The module a thread runs, with the queues of a MULTI module. `inside` are the resources
the module holds itself; the code sees only their reported number `processingResources`. -/
structure ModuleInfo where
  type : ModuleType
  processingResources : Int
  inputResources : List Resource
  outputResources : List Resource
  inside : List Resource
  deriving DecidableEq, Repr

def ModuleInfo.new (type : ModuleType) : ModuleInfo :=
  { type, processingResources := 0, inputResources := [], outputResources := [], inside := [] }

/-- What does not change while the processor runs. -/
structure Processor where
  types : List ModuleType
  outputFilters : List OutputFilter
  /-- Number of sub-queues of the input queue. -/
  queuesCount : Nat
  inputQueue : QueueRef
  /-- `engine->GetInputQueue()`, `engine->GetOutputQueue()` -/
  engineInputQueue : Option QueueRef
  engineOutputQueue : Option QueueRef
  batch : Bool
  ndebug : Bool
  deriving Repr

-- ---------------------------------------------------------------------------
-- The module check of Init
-- ---------------------------------------------------------------------------

/-- One pass of the loop at the end of `Processor::Init`, for module `i` of `n`. -/
def Processor.checkModule (p : Processor) (n i : Nat) : ModuleType → Bool
  | .input => i == 0 && p.queuesCount == 0
  | .output => i == n - 1 && p.outputFilters.length == 0
  | .simple | .multi =>
    !(i == 0 && p.queuesCount == 0) && !(i == n - 1 && p.outputFilters.length == 0)
  | .invalid => true      -- only logged: "Should not happen"

def Processor.checkModules (p : Processor) : Bool :=
  p.types.zipIdx.all fun (type, i) => p.checkModule p.types.length i type

-- ---------------------------------------------------------------------------
-- The environment and the thread
-- ---------------------------------------------------------------------------

/-- What `ProcessMulti` leaves behind: the two queues, what is inside the module now and
which resources it made, the two counters it reports, and whether it is busy. -/
structure MultiAnswer where
  inputResources : List Resource
  outputResources : List Resource
  inside : List Resource
  created : List Resource
  expectingResources : Int
  processingResources : Int
  busy : Bool
  deriving DecidableEq

structure World (σ : Type) where
  isRunning : σ → Bool × σ
  getItem : Bool → σ → Option Resource × σ
  /-- `pauseInput`, read under its lock. -/
  pauseInput : σ → Bool × σ
  /-- The wait until the input is un-paused; `false` when cancelled. -/
  awaitInput : σ → Bool × σ
  processInput : Nat → Bool → σ → Option Resource × σ
  processOutput : Nat → Resource → σ → Option Resource × σ
  processSimple : Nat → Resource → σ → Option Resource × σ
  processMulti : Nat → ModuleInfo → σ → MultiAnswer × σ
  putItem : QueueRef → Int → Resource → Bool → σ → Bool × σ
  clone : Resource → σ → Resource × σ

inductive Event where
  | updateSleeping (count : Int)
  /-- `inputQueue->GetItem` returned a resource. -/
  | dequeued (queue : QueueRef) (r : Resource)
  /-- `ProcessInput` returned a resource. -/
  | fetched (r : Resource)
  | simple (module : Nat) (r : Resource)
  | consumed (r : Resource)
  | created (rs : List Resource)
  /-- A filter's queue accepted the resource itself, or a clone of it. -/
  | routed (pos : Nat) (queue : QueueRef) (r : Resource)
  | routedCopy (pos : Nat) (queue : QueueRef) (r copy : Resource)
  | refused (pos : Nat) (r : Resource)
  | refusedCopy (pos : Nat) (r copy : Resource)
  /-- Returned to the registry by `ReleaseResource`. -/
  | released (r : Resource)
  /-- A deleted resource went into the engine's output queue. -/
  | flushed (r : Resource)
  /-- The pending resource was refused again while `r` was in hand: the loop breaks, and the
  variable that holds `r` goes out of scope. -/
  | retryRefused (pending r : Resource)
  | updateResourceCount (n : Int)
  deriving DecidableEq

/-- The only thread of its processor: the variables of `RunThread`, the modules, and the
processor's `deletedResources`. -/
structure Thread (σ : Type) where
  mis : List ModuleInfo
  deletedResources : List Resource
  outputFilterIndex : Nat
  outputFilterResource : Option Resource
  block : Bool
  readMax : Int
  world : σ
  log : List Event

namespace Thread

variable {σ : Type}

def emit (t : Thread σ) (e : Event) : Thread σ := { t with log := t.log ++ [e] }

/-- Ask the environment. -/
def call {α : Type} (t : Thread σ) (f : σ → α × σ) : α × Thread σ :=
  ((f t.world).1, { t with world := (f t.world).2 })

def pushDeleted (t : Thread σ) (r : Resource) : Thread σ :=
  { t with deletedResources := t.deletedResources ++ [r] }

def setModule (t : Thread σ) (k : Nat) (mi : ModuleInfo) : Thread σ :=
  { t with mis := t.mis.set k mi }

/-- `(*mis)[k]->inputResources->push(resource)` -/
def pushInput (t : Thread σ) (k : Nat) (r : Resource) : Thread σ :=
  { t with mis := t.mis.modify k fun mi => { mi with inputResources := mi.inputResources ++ [r] } }

/-- `(*mis)[k]->outputResources->push(resource)` -/
def pushOutput (t : Thread σ) (k : Nat) (r : Resource) : Thread σ :=
  { t with
    mis := t.mis.modify k fun mi => { mi with outputResources := mi.outputResources ++ [r] } }

end Thread

-- ---------------------------------------------------------------------------
-- QueueResource
-- ---------------------------------------------------------------------------

def OutputFilter.accepts (f : OutputFilter) (status : Int) : Bool :=
  f.emptyFilter || f.filter == status

/-- How the loop over the filters ended: with a refusal, with the resource itself accepted,
or past the last filter. -/
inductive FilterEnd where
  | refused
  | appended
  | unmatched
  deriving DecidableEq, Repr

variable {σ : Type}

/-- The loop of `QueueResource`, over the filters and their positions. -/
def queueFilters (w : World σ) (p : Processor) (r : Resource) (wait : Bool) :
    List (OutputFilter × Nat) → Thread σ → FilterEnd × Thread σ
  | [], t => (.unmatched, t)
  | (f, pos) :: fs, t =>
    if f.accepts r.status then
      if f.copy then
        let (copy, t) := t.call (w.clone r)
        let (accepted, t) := t.call (w.putItem f.queue f.priority copy wait)
        if accepted then
          queueFilters w p r wait fs
            ((t.emit (.routedCopy pos f.queue r copy)).emit (.updateResourceCount 1))
        else (.refused, t.emit (.refusedCopy pos r copy))
      else
        let (accepted, t) := t.call (w.putItem f.queue f.priority r wait)
        if accepted then
          let t := t.emit (.routed pos f.queue r)
          (.appended,
            if p.engineOutputQueue = some f.queue then t.emit (.updateResourceCount (-1)) else t)
        else (.refused, t.emit (.refused pos r))
    else queueFilters w p r wait fs t

/-- `QueueResource`: the result, the value of `*filterIndex` afterwards, the thread.

`*filterIndex++` parses as `*(filterIndex++)`: the loop advances its copy of the pointer,
and the variable it pointed to keeps its value. -/
def queueResource (w : World σ) (p : Processor) (r : Resource) (wait : Bool)
    (filterIndex : Option Nat) (t : Thread σ) : Bool × Option Nat × Thread σ :=
  match queueFilters w p r wait (p.outputFilters.zipIdx.drop (filterIndex.getD 0)) t with
  | (.refused, t) => (false, filterIndex, t)
  | (.appended, t) => (true, filterIndex, t)
  | (.unmatched, t) =>
    (true, filterIndex, (t.emit (.released r)).emit (.updateResourceCount (-1)))

-- ---------------------------------------------------------------------------
-- ApplyModules
-- ---------------------------------------------------------------------------

/-- Why a piece of the thread's code did not run to its end. -/
inductive Failure where
  /-- An assertion failed. -/
  | aborted
  /-- A null pointer or an element of an empty vector was used. -/
  | crashed
  /-- The fuel of the loop over deleted inputs ran out. -/
  | diverged
  deriving DecidableEq, Repr

/-- The `while (1)` of an INPUT module: skip deleted resources. -/
def fetchInput (w : World σ) (module : Nat) (sleep : Bool) :
    Nat → Thread σ → Except Failure (Option Resource × Thread σ)
  | 0, _ => .error .diverged
  | fuel + 1, t =>
    match t.call (w.processInput module sleep) with
    | (none, t) => .ok (none, t)
    | (some r, t) =>
      let t := t.emit (.fetched r)
      if r.deleted then fetchInput w module sleep fuel (t.pushDeleted r)
      else .ok (some r, t)

/-- The loop of `ApplyModules`, over the modules from `index` on: the resource returned and
the value of `*stop`. -/
def applyModules (w : World σ) (p : Processor) (fuel : Nat) (sleep : Bool) :
    List (ModuleType × Nat) → Option Resource → Thread σ →
      Except Failure (Option Resource × Bool × Thread σ)
  | [], resource, t => .ok (resource, false, t)
  | (.multi, _) :: _, resource, t => .ok (resource, false, t)
  | (.input, i) :: rest, resource, t =>
    -- assert(resource == NULL)
    if resource.isSome && !p.ndebug then .error .aborted
    else
      match fetchInput w i sleep fuel t with
      | .error e => .error e
      | .ok (none, t) => .ok (none, true, t)
      | .ok (some r, t) =>
        applyModules w p fuel sleep rest (some r) (t.emit (.updateResourceCount 1))
  | (.output, i) :: rest, resource, t =>
    match resource with
    | none => .error .crashed
    | some r =>
      let (_, t) := t.call (w.processOutput i r)
      applyModules w p fuel sleep rest none
        ((t.emit (.consumed r)).emit (.updateResourceCount (-1)))
  | (.simple, i) :: rest, resource, t =>
    match resource with
    | none => .error .crashed
    | some r =>
      let (resource, t) :=
        if r.skip then (some r, t)
        else (t.emit (.simple i r)).call (w.processSimple i r)
      match resource with
      | none => .ok (none, false, t)      -- "Resource lost"
      | some r =>
        if r.deleted then .ok (none, false, t.pushDeleted r)
        else applyModules w p fuel sleep rest (some r) t
  | (.invalid, _) :: rest, resource, t =>
    applyModules w p fuel sleep rest resource t      -- "Should not happen"

/-- The modules of the thread from `index` on, with their positions. -/
def Processor.modulesFrom (p : Processor) (index : Nat) : List (ModuleType × Nat) :=
  p.types.zipIdx.drop index

/-- `NextMultiModuleIndex`; `none` stands for `-1`. -/
def Processor.nextMultiModuleIndex (p : Processor) (index : Nat) : Option Nat :=
  ((p.types.drop index).findIdx? (· = .multi)).map (index + ·)

-- ---------------------------------------------------------------------------
-- The main loop of RunThread
-- ---------------------------------------------------------------------------

/-- How a piece of the main loop ended: it ran through, or the thread returned. -/
inductive Flow where
  | next
  | returned
  deriving DecidableEq, Repr

/-- What the thread holds before `ApplyModules`: `none` when the loop ends here. -/
structure Read where
  resource : Option Resource
  resourcesRead : Int

/-- The input part of one pass of the reading loop: the resource taken from the input queue,
or nothing yet for an INPUT module. -/
def readResource (w : World σ) (p : Processor) (first : ModuleType) (read : Int)
    (t : Thread σ) : (Flow × Option Read) × Thread σ :=
  let wait := t.block && read == 0
  if first ≠ .input then
    let t := if p.batch && wait then t.emit (.updateSleeping 1) else t
    let (resource, t) := t.call (w.getItem wait)
    let t := if p.batch && wait then t.emit (.updateSleeping (-1)) else t
    match resource with
    | none => ((if wait then .returned else .next, none), t)
    | some r =>
      let t := t.emit (.dequeued p.inputQueue r)
      let t := if p.engineInputQueue = some p.inputQueue then t.emit (.updateResourceCount 1) else t
      ((.next, some { resource := some r, resourcesRead := read + 1 }), t)
  else
    let (paused, t) := t.call w.pauseInput
    if paused then
      if t.block then
        let (goOn, t) := t.call w.awaitInput
        if goOn then ((.next, some { resource := none, resourcesRead := read }), t)
        else ((.returned, none), t)
      else ((.next, none), t)
    else ((.next, some { resource := none, resourcesRead := read }), t)

/-- `while (resourcesRead < readMax)`. Each pass but the last reads one resource, so that
`readMax` passes suffice. -/
def readLoop (w : World σ) (p : Processor) (fuel : Nat) (multiIndex : Option Nat) :
    Nat → Int → Thread σ → Except Failure (Flow × Thread σ)
  | 0, _, t => .ok (.next, t)
  | passes + 1, read, t =>
    if t.readMax ≤ read then .ok (.next, t)
    else
      match p.types.head? with
      | none => .error .crashed      -- (*mis)[0] of an empty vector
      | some first =>
        match readResource w p first read t with
        | ((flow, none), t) => .ok (flow, t)
        | ((_, some got), t) =>
          match applyModules w p fuel (t.block && got.resourcesRead == 0) (p.modulesFrom 0)
              got.resource t with
          | .error e => .error e
          | .ok (none, stop, t) =>
            .ok (if t.block && got.resourcesRead == 0 && stop then .returned else .next, t)
          | .ok (some r, _, t) =>
            match multiIndex with
            | some k => readLoop w p fuel multiIndex passes (got.resourcesRead + 1)
              (t.pushInput k r)
            | none =>
              match queueResource w p r true none t with
              | (false, _, t) => .ok (.returned, t)
              | (true, _, t) =>
                readLoop w p fuel multiIndex passes (got.resourcesRead + 1)
                  { t with outputFilterIndex := 0 }

/-- The last part of the loop over the outputs of a MULTI module: queue the pending resource
if there is one, then this one. Returns whether the loop goes on. -/
def queueOutput (w : World σ) (p : Processor) (r : Resource) (resourcesQueued : Nat)
    (t : Thread σ) : Bool × Nat × Thread σ :=
  -- resource, not yet queued from the previous rounds
  let (retried, resourcesQueued, t) :=
    match t.outputFilterResource with
    | none => (true, resourcesQueued, t)
    | some pending =>
      match queueResource w p pending (t.block && resourcesQueued == 0)
          (some t.outputFilterIndex) t with
      | (false, index, t) =>
        (false, resourcesQueued,
          { t.emit (.retryRefused pending r) with
            outputFilterIndex := index.getD t.outputFilterIndex })
      | (true, _, t) =>
        (true, resourcesQueued + 1, { t with outputFilterIndex := 0, outputFilterResource := none })
  if retried then
    match queueResource w p r (t.block && resourcesQueued == 0) (some t.outputFilterIndex) t with
    | (false, index, t) =>
      (false, resourcesQueued, { t with
        outputFilterIndex := index.getD t.outputFilterIndex, outputFilterResource := some r })
    | (true, index, t) =>
      (true, resourcesQueued + 1, { t with outputFilterIndex := index.getD t.outputFilterIndex })
  else (false, resourcesQueued, t)      -- break

/-- `while (minfo->outputResources->size() > 0)` of MULTI module `k`: the outputs that
remain, the number queued. -/
def outputLoop (w : World σ) (p : Processor) (fuel k : Nat) (next : Option Nat) :
    List Resource → Nat → Thread σ → Except Failure (List Resource × Nat × Thread σ)
  | [], queued, t => .ok ([], queued, t)
  | r :: rest, queued, t =>
    if r.deleted then outputLoop w p fuel k next rest queued (t.pushDeleted r)
    else
      match applyModules w p fuel false (p.modulesFrom (k + 1)) (some r) t with
      | .error e => .error e
      | .ok (none, _, t) => outputLoop w p fuel k next rest queued t
      | .ok (some r, _, t) =>
        match next with
        | some k' =>
          outputLoop w p fuel k next rest queued
            (if r.skip then t.pushOutput k' r else t.pushInput k' r)
        | none =>
          match queueOutput w p r queued t with
          | (true, queued, t) => outputLoop w p fuel k next rest queued t
          | (false, queued, t) => .ok (rest, queued, t)

/-- What the loop over the MULTI modules accumulates. -/
structure Round where
  minN : Int
  queueFull : Bool
  resourcesQueued : Nat

/-- The call of `ProcessMulti` and the bookkeeping around it. -/
def callMulti (w : World σ) (p : Processor) (k : Nat) (mi : ModuleInfo) (t : Thread σ) :
    Except Failure (MultiAnswer × Thread σ) :=
  let (a, t) := t.call (w.processMulti k mi)
  let t := t.emit (.created a.created)
  let delta := (mi.inputResources.length + mi.outputResources.length +
    mi.processingResources : Int) -
    (a.inputResources.length + a.outputResources.length + a.processingResources)
  -- resources must not be deleted in ProcessMulti(): assert(delta < 0)
  if 0 < delta ∧ p.ndebug = false then .error .aborted
  else
    let t := { t with block := t.block && !a.busy }
    let t := t.setModule k { mi with
      inputResources := a.inputResources, outputResources := []
      inside := a.inside, processingResources := a.processingResources }
    .ok (a, if delta = 0 then t else t.emit (.updateResourceCount (-delta)))

/-- `while (multiIndex >= 0)`. The index grows with every pass. -/
def multiLoop (w : World σ) (p : Processor) (fuel : Nat) :
    Nat → Option Nat → Round → Thread σ → Except Failure (Flow × Round × Thread σ)
  | 0, _, round, t => .ok (.next, round, t)
  | _ + 1, none, round, t => .ok (.next, round, t)
  | passes + 1, some k, round, t =>
    match t.mis[k]? with
    | none => .error .crashed
    | some mi =>
      match callMulti w p k mi t with
      | .error e => .error e
      | .ok (a, t) =>
        let next := p.nextMultiModuleIndex (k + 1)
        match outputLoop w p fuel k next a.outputResources 0 t with
        | .error e => .error e
        | .ok (rest, queued, t) =>
          let t := { t with mis := t.mis.modify k fun mi => { mi with outputResources := rest } }
          let round := { round with
            minN := min round.minN (a.expectingResources - a.inputResources.length)
            resourcesQueued := queued }
          if rest = [] then multiLoop w p fuel passes next round t
          else if t.block && queued == 0 then .ok (.returned, round, t)
          -- assert(multiIndex == -1), inside the loop that runs while multiIndex >= 0
          else if p.ndebug = false then .error .aborted
          else multiLoop w p fuel passes next { round with queueFull := true } t

/-- The loop that passes the deleted resources on at the end of an iteration. -/
def flushDeleted (w : World σ) (p : Processor) : List Resource → Thread σ → Thread σ
  | [], t => { t with deletedResources := [] }
  | r :: rest, t =>
    match p.engineOutputQueue with
    | some queue =>
      let (accepted, t) := t.call (w.putItem queue 0 r false)
      if accepted then
        flushDeleted w p rest ((t.emit (.flushed r)).emit (.updateResourceCount (-1)))
      else { t with deletedResources := r :: rest, readMax := 0 }
    | none => flushDeleted w p rest ((t.emit (.released r)).emit (.updateResourceCount (-1)))

/-- One iteration of `while (IsRunning())`. -/
def iteration (w : World σ) (p : Processor) (fuel : Nat) (t : Thread σ) :
    Except Failure (Flow × Thread σ) :=
  let multiIndex := p.nextMultiModuleIndex 0
  match readLoop w p fuel multiIndex t.readMax.toNat 0 t with
  | .error e => .error e
  | .ok (.returned, t) => .ok (.returned, t)
  | .ok (.next, t) =>
    let round := { minN := if multiIndex.isSome then 1000000 else 1, queueFull := false,
                   resourcesQueued := 0 : Round }
    match multiLoop w p fuel (p.types.length + 1) multiIndex round { t with block := true } with
    | .error e => .error e
    | .ok (.returned, _, t) => .ok (.returned, t)
    | .ok (.next, round, t) =>
      -- in next round read resources so that no multi-module is over-loaded
      let readMax := if round.queueFull ∧ (round.resourcesQueued : Int) < round.minN
        then (round.resourcesQueued : Int) else round.minN
      .ok (.next, flushDeleted w p t.deletedResources { t with readMax })

/-- At the beginning of `RunThread`: the local variables, and nothing deleted yet. -/
def Thread.start (p : Processor) (world : σ) : Thread σ :=
  { mis := p.types.map .new, deletedResources := [], outputFilterIndex := 0
    outputFilterResource := none, block := true, readMax := 1, world, log := [] }

/-- The thread at the end of its `n`-th iteration, `none` if it does not get there. -/
def runThread (w : World σ) (p : Processor) (fuel : Nat) : Nat → Thread σ → Option (Thread σ)
  | 0, t => some t
  | n + 1, t =>
    match t.call w.isRunning with
    | (false, _) => none
    | (true, t) =>
      match iteration w p fuel t with
      | .ok (.next, t) => runThread w p fuel n t
      | _ => none

end HectorCore.Processing
