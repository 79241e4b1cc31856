import HectorCore.Lib.Run
import HectorCore.Lib.Tally

/-!
# Sleeping — how a batch server notices that it is done

The three levels of counters behind batch mode: `Processor::UpdateSleeping` and
`ThreadFinished`, `ProcessingEngine::UpdateResourceCount`, `ProcessorSleeping`,
`ProcessorWakeup` and `CheckSleeping`, `Server::ProcessingEngineSleeping` and
`ProcessingEngineWakeup`, driven by the worker threads of any number of processors and
engines.

Every critical section is one step; the reports are sent after the lock is released, so a
thread that has one to send is in a program counter of its own, and any other thread may run
in between.

* Of the resources only their numbers are kept: in the input queue and in `deletedResources`
  of a processor, and in the hands of a thread (in its modules and its variables).
* A module may have an engine work for it (`CallProcessingEngine`, the only way into an engine
  from outside, since a batch server has no HTTP server). `call` puts a request into the engine's
  input queue; the resource that it is made for stays in the module and in the count of the
  module's own engine, until `answer` finds the request in the other engine's output queue. A
  request is counted in the engine that works for it like any resource of its input queue, after
  it has been taken out; so it cannot come back earlier.
* A thread of an INPUT processor ends when its module has no more resources. A thread of
  another processor ends only when the server is stopped, which is left out.
* A MULTI module may tell of more or fewer resources than it makes (`create`); one that tells of
  fewer than before fails an assertion, which is left out.
* `fetchDeleted` is an INPUT module that returns a deleted resource, which the code does not
  count. `discardTwice` is a thread that hands on the last deleted resource once more, because
  another thread of its processor, which has just done so, has yet to `pop` it: they share
  `deletedResources` without a lock.
-/

namespace HectorCore.Batch

/-- Where a thread goes on after a report: into `GetItem`, to `UpdateResourceCount(1)` for a
resource from the engine's input queue, to the rest of the main loop, or to its end. A resource
that is a request is told apart. -/
inductive After where
  | block
  | enter
  | work
  | enterCall
  | workCall
  | done
  deriving DecidableEq, Repr

inductive Pc where
  /-- Created, `runningThreads` not yet incremented. -/
  | created
  /-- In the main loop, awake. -/
  | working
  /-- In `inputQueue->GetItem(&timeout)`. -/
  | blocked
  /-- `GetItem` has returned a resource; before `UpdateSleeping(-1)`. -/
  | waking
  | wakingCall
  /-- `RunThread` has returned; before `ThreadFinished`. -/
  | finishing
  | finished
  /-- In front of the counter of `ProcessorSleeping`, `ProcessorWakeup`, `UpdateResourceCount`. -/
  | psleep (a : After)
  | pwake (a : After)
  | count (n : Int) (a : After)
  /-- In front of the critical section of `CheckSleeping`. -/
  | check (a : After)
  /-- In front of `Server::ProcessingEngineSleeping`, waiting for `usingWokenUp` with the
  server's lock, in the loop over `pthread_yield`, in front of `ProcessingEngineWakeup`. -/
  | srvSleep (a : After)
  | srvStuck (a : After)
  | srvYield (a : After)
  | srvWake (a : After)
  deriving DecidableEq, Repr

/-- Where a report returns to. -/
def After.pc : After → Pc
  | .block => .blocked
  | .enter => .count 1 .work
  | .work => .working
  | .enterCall => .count 1 .workCall
  | .workCall => .working
  | .done => .finished

namespace Pc

/-- The continuation of a report. -/
def after : Pc → Option After
  | psleep a | pwake a | count _ a | check a | srvSleep a | srvStuck a | srvYield a | srvWake a =>
    some a
  | _ => none

/-- From the input queue into the engine with a request, up to the end of the report that
counts it. -/
def isTaking (pc : Pc) : Bool :=
  pc = wakingCall || pc.after = some .enterCall || pc.after = some .workCall

/-- A request counts once. -/
def taking (pc : Pc) : Int := if pc.isTaking then 1 else 0

end Pc

/-- The threads of the processors of the engines. `engineInput` marks the processor whose
queue is the engine's input queue. -/
structure Server (E P T : Type) where
  engine : P → E
  processor : T → P
  isInput : P → Bool
  engineInput : P → Bool

structure State (E P T : Type) where
  pc : T → Pc
  hand : T → Nat
  /-- The input queue, without the requests in it; and the requests. -/
  queue : P → Nat
  calls : P → Nat
  /-- The requests of thread `t` in the engine behind `p`. -/
  asked : T → P → Nat
  deletedResources : P → Nat
  runningThreads : P → Int
  sleepingThreads : P → Int
  sleeping : P → Bool
  /-- History: `ThreadFinished` has found no running thread. -/
  ended : P → Bool
  resourceCount : E → Int
  processorsSleeping : E → Int
  engineSleeping : E → Bool
  sleepingProcessingEngines : Int
  wokenUp : Bool
  serverLock : Option T
  usingWokenUp : Option T
  /-- `ProcessingEngineSleeping` has decided that the server is finished. -/
  finished : Bool

inductive Label (P T : Type) where
  | start (t : T)
  /-- `ProcessResource` and `GetProcessedResources` of another engine. -/
  | call (t : T) (p : P)
  | answer (t : T) (p : P)
  /-- Non-blocking `GetItem`, of a resource or of a request. -/
  | get (t : T)
  | getCall (t : T)
  | fetch (t : T)
  | fetchDeleted (t : T)
  /-- A MULTI module makes `n` resources, and tells of `k`. -/
  | create (t : T) (n k : Nat)
  /-- A resource is dropped without being counted out. -/
  | drop (t : T)
  | put (t : T) (p : P)
  | copy (t : T) (p : P)
  /-- A copy into the engine's output queue. -/
  | copyOut (t : T)
  /-- Consumed, released or put into the engine's output queue. -/
  | leave (t : T)
  /-- Into `deletedResources`, and from there out of the engine. -/
  | delete (t : T)
  | discard (t : T)
  | discardTwice (t : T)
  /-- `UpdateSleeping(1)` -/
  | sleep (t : T)
  /-- The blocking `GetItem` returns a resource or a request. -/
  | take (t : T)
  | takeCall (t : T)
  /-- `UpdateSleeping(-1)` -/
  | wake (t : T)
  /-- `RunThread` returns. -/
  | exit (t : T)
  /-- `ThreadFinished` -/
  | finish (t : T)
  /-- The next step of a report. -/
  | report (t : T)

variable {E P T : Type} [Fintype E] [Fintype P] [Fintype T]
  [DecidableEq E] [DecidableEq P] [DecidableEq T]

namespace State

def setPc (s : State E P T) (t : T) (pc : Pc) : State E P T :=
  { s with pc := Function.update s.pc t pc }

def setHand (s : State E P T) (t : T) (n : Nat) : State E P T :=
  { s with hand := Function.update s.hand t n }

def setQueue (s : State E P T) (p : P) (n : Nat) : State E P T :=
  { s with queue := Function.update s.queue p n }

def setCalls (s : State E P T) (p : P) (n : Nat) : State E P T :=
  { s with calls := Function.update s.calls p n }

def setAsked (s : State E P T) (t : T) (p : P) (n : Nat) : State E P T :=
  { s with asked := Function.update s.asked t (Function.update (s.asked t) p n) }

def setDeleted (s : State E P T) (p : P) (n : Nat) : State E P T :=
  { s with deletedResources := Function.update s.deletedResources p n }

end State

namespace Server

variable (v : Server E P T)

def engineOf (t : T) : E := v.engine (v.processor t)

/-- The requests in the engine behind `p`, and those of them that its threads are taking in. -/
def requests (s : State E P T) (p : P) : Int := Lib.total fun t => (s.asked t p : Int)
def taken (s : State E P T) (p : P) : Int := Lib.tally v.processor (fun t => (s.pc t).taking) p

/-- The critical section of `UpdateSleeping(count)`, with the continuation `a`. -/
def updateSleeping (s : State E P T) (t : T) (n : Int) (a : After) : State E P T :=
  let p := v.processor t
  let sleepingThreads := s.sleepingThreads p + n
  let s := { s with sleepingThreads := Function.update s.sleepingThreads p sleepingThreads }
  if s.sleeping p then
    if sleepingThreads < s.runningThreads p then
      { s.setPc t (.pwake a) with sleeping := Function.update s.sleeping p false }
    else s.setPc t a.pc
  else
    if sleepingThreads = s.runningThreads p then
      { s.setPc t (.psleep a) with sleeping := Function.update s.sleeping p true }
    else s.setPc t a.pc

/-- The critical section of `ThreadFinished`. -/
def threadFinished (s : State E P T) (t : T) : State E P T :=
  let p := v.processor t
  let runningThreads := s.runningThreads p - 1
  let s := { s with runningThreads := Function.update s.runningThreads p runningThreads }
  if runningThreads = 0 then
    { s.setPc t (.psleep .done) with ended := Function.update s.ended p true }
  else s.setPc t .finished

/-- The critical section of `CheckSleeping`. -/
def checkSleeping (s : State E P T) (t : T) (a : After) : State E P T :=
  let e := v.engineOf t
  let processors := Lib.size v.engine e
  if s.engineSleeping e then
    if s.processorsSleeping e ≠ processors ∨ 0 < s.resourceCount e then
      { s.setPc t (.srvWake a) with engineSleeping := Function.update s.engineSleeping e false }
    else s.setPc t a.pc
  else
    if s.processorsSleeping e = processors ∧ s.resourceCount e = 0 then
      { s.setPc t (.srvSleep a) with engineSleeping := Function.update s.engineSleeping e true }
    else s.setPc t a.pc

/-- The first critical section of `ProcessingEngineSleeping`. -/
def engineSleepingReport (s : State E P T) (t : T) (a : After) : State E P T :=
  let s := { s with sleepingProcessingEngines := s.sleepingProcessingEngines + 1 }
  if s.sleepingProcessingEngines = (Fintype.card E : Int) then
    if s.usingWokenUp.isSome then { s.setPc t (.srvStuck a) with serverLock := some t }
    else { s.setPc t (.srvYield a) with usingWokenUp := some t, wokenUp := false }
  else s.setPc t a.pc

/-- One step of a report. -/
def report (s : State E P T) (t : T) : Option (State E P T) :=
  let e := v.engineOf t
  match s.pc t with
  | .psleep a => some { s.setPc t (.check a) with
      processorsSleeping := Function.update s.processorsSleeping e (s.processorsSleeping e + 1) }
  | .pwake a => some { s.setPc t (.check a) with
      processorsSleeping := Function.update s.processorsSleeping e (s.processorsSleeping e - 1) }
  | .count n a => some { s.setPc t (.check a) with
      resourceCount := Function.update s.resourceCount e (s.resourceCount e + n) }
  | .check a => some (v.checkSleeping s t a)
  | .srvSleep a => if s.serverLock.isSome then none else some (engineSleepingReport s t a)
  | .srvStuck a =>
    if s.usingWokenUp.isSome then none
    else some { s.setPc t (.srvYield a) with
      serverLock := none, usingWokenUp := some t, wokenUp := false }
  | .srvYield a =>
    if s.serverLock.isSome then none
    else some { s.setPc t a.pc with
      usingWokenUp := none, finished := s.finished || !s.wokenUp }
  | .srvWake a =>
    if s.serverLock.isSome then none
    else some { s.setPc t a.pc with
      sleepingProcessingEngines := s.sleepingProcessingEngines - 1, wokenUp := true }
  | _ => none

/-- A step of a thread that is awake in its main loop. -/
def working (s : State E P T) (t : T) (next : State E P T) : Option (State E P T) :=
  if s.pc t = .working then some next else none

/-- One step; `none` when it is not enabled. -/
def step (s : State E P T) : Label P T → Option (State E P T)
  | .start t =>
    if s.pc t = .created then
      some { s.setPc t .working with
        runningThreads := Function.update s.runningThreads (v.processor t)
          (s.runningThreads (v.processor t) + 1) }
    else none
  | .call t p =>
    if s.hand t = 0 ∨ v.engineInput p = false then none
    else working s t (((s.setHand t (s.hand t - 1)).setAsked t p (s.asked t p + 1)).setCalls p
      (s.calls p + 1))
  | .answer t p =>
    if s.asked t p = 0 ∨ requests s p ≤ s.calls p + v.taken s p then none
    else working s t ((s.setHand t (s.hand t + 1)).setAsked t p (s.asked t p - 1))
  | .get t =>
    let p := v.processor t
    if v.isInput p ∨ s.queue p = 0 then none
    else working s t (((s.setQueue p (s.queue p - 1)).setHand t (s.hand t + 1)).setPc t
      (if v.engineInput p then .count 1 .work else .working))
  | .getCall t =>
    let p := v.processor t
    if v.isInput p ∨ s.calls p = 0 then none
    else working s t (((s.setCalls p (s.calls p - 1)).setHand t (s.hand t + 1)).setPc t
      (.count 1 .workCall))
  | .fetch t =>
    if v.isInput (v.processor t) then
      working s t ((s.setHand t (s.hand t + 1)).setPc t (.count 1 .work))
    else none
  | .fetchDeleted t =>
    let p := v.processor t
    if v.isInput p then working s t (s.setDeleted p (s.deletedResources p + 1)) else none
  | .create t n k =>
    working s t ((s.setHand t (s.hand t + n)).setPc t (if k = 0 then .working else .count k .work))
  | .drop t => if s.hand t = 0 then none else working s t (s.setHand t (s.hand t - 1))
  | .put t p =>
    if s.hand t = 0 ∨ v.engine p ≠ v.engineOf t then none
    else working s t ((s.setHand t (s.hand t - 1)).setQueue p (s.queue p + 1))
  | .copy t p =>
    if s.hand t = 0 ∨ v.engine p ≠ v.engineOf t then none
    else working s t ((s.setQueue p (s.queue p + 1)).setPc t (.count 1 .work))
  | .copyOut t => if s.hand t = 0 then none else working s t (s.setPc t (.count 1 .work))
  | .leave t =>
    if s.hand t = 0 then none
    else working s t ((s.setHand t (s.hand t - 1)).setPc t (.count (-1) .work))
  | .delete t =>
    let p := v.processor t
    if s.hand t = 0 then none
    else working s t ((s.setHand t (s.hand t - 1)).setDeleted p (s.deletedResources p + 1))
  | .discard t =>
    let p := v.processor t
    if s.deletedResources p = 0 then none
    else working s t ((s.setDeleted p (s.deletedResources p - 1)).setPc t (.count (-1) .work))
  | .discardTwice t =>
    if ∃ t', t' ≠ t ∧ v.processor t' = v.processor t then
      working s t (s.setPc t (.count (-1) .work))
    else none
  | .sleep t =>
    if v.isInput (v.processor t) then none
    else working s t (v.updateSleeping s t 1 .block)
  | .take t =>
    let p := v.processor t
    if s.pc t = .blocked ∧ s.queue p ≠ 0 then
      some (((s.setQueue p (s.queue p - 1)).setHand t (s.hand t + 1)).setPc t .waking)
    else none
  | .takeCall t =>
    let p := v.processor t
    if s.pc t = .blocked ∧ s.calls p ≠ 0 then
      some (((s.setCalls p (s.calls p - 1)).setHand t (s.hand t + 1)).setPc t .wakingCall)
    else none
  | .wake t =>
    match s.pc t with
    | .waking =>
      some (v.updateSleeping s t (-1) (if v.engineInput (v.processor t) then .enter else .work))
    | .wakingCall => some (v.updateSleeping s t (-1) .enterCall)
    | _ => none
  | .exit t => if v.isInput (v.processor t) then working s t (s.setPc t .finishing) else none
  | .finish t => if s.pc t = .finishing then some (v.threadFinished s t) else none
  | .report t => v.report s t

/-- Before the threads are started. -/
def initial : State E P T :=
  { pc := fun _ => .created, hand := fun _ => 0, queue := fun _ => 0, calls := fun _ => 0
    asked := fun _ _ => 0, deletedResources := fun _ => 0, runningThreads := fun _ => 0
    sleepingThreads := fun _ => 0, sleeping := fun _ => false, ended := fun _ => false
    resourceCount := fun _ => 0, processorsSleeping := fun _ => 0
    engineSleeping := fun _ => false, sleepingProcessingEngines := 0, wokenUp := false
    serverLock := none, usingWokenUp := none, finished := false }

end Server

end HectorCore.Batch
