import HectorCore.Lib.Run

/-!
# GetProcessed — clients that collect results from one engine

`ProcessingEngine::GetProcessedResources` and `GetProcessedResourcesOrdered`
(`lib/processing_engine/ProcessingEngine.cc`), called by any number of clients at once. One
of them at a time, the reader, drains the output queue on behalf of all; the others wait on
the condition of `finishedLock`.

A `step` is what one client does between two points where another thread can interfere:
taking `finishedLock`, one pass of the `while` loop, one round of the inner loop, the return
from `GetItem` or from `WaitSend`. The steps of the environment are the arrival of a
resource in the output queue and the two effects of `StopSync`.

* `WaitSend` may return because of a signal, a time-out or for no reason at all; a client is
  `blocked true` once a signal for it is pending. `SignalSend` is a broadcast.
* `GetItem(timeout)` may return `NULL` at any time (time-out or cancellation).
* A `std::vector` is read past its end by `GetProcessedResourcesOrdered`; what is found there
  is chosen by the label.
* `arrived` and `taken` are histories: what came into the output queue, and what was taken
  out of it. Nothing depends on them.
-/

namespace HectorCore.Clients

structure Resource where
  id : Int
  ptr : Nat
  deriving DecidableEq, Repr

/-- Where a call stands. -/
inductive Pc where
  | idle
  /-- In front of the first `finishedLock.Lock()`. -/
  | entering
  /-- At the head of the `while` loop, with the lock. -/
  | scanning
  /-- In `finishedLock.WaitSend(timeout)`. -/
  | blocked (signalled : Bool)
  /-- In `outputQueue->GetItem(timeout)`. -/
  | inQueue
  /-- `GetItem` has returned, the lock is not yet taken again. -/
  | gotItem (r : Option Resource)
  /-- In the inner loop with a resource in hand, with the lock. -/
  | storing (r : Resource) (foundMy foundForeign : Bool)
  /-- In the inner loop, in front of `GetItem(NULL)`, with the lock. -/
  | polling (foundMy foundForeign : Bool)
  /-- In `sched_yield()` between `Unlock` and `Lock`. -/
  | yielding
  | returned (result : Bool)
  deriving DecidableEq, Repr

/-- One call: `ordered` says which function. `ids` is the set or the vector of ids, `iter`
the part of the set that the iterator has still to visit, `index` the position in the
vector; `timeout` says whether the pointer is not `NULL`. -/
structure Client where
  ordered : Bool
  ids : List Int
  iter : List Int
  index : Nat
  timeout : Bool
  result : Bool
  output : List Resource
  pc : Pc
  deriving Repr

def Client.new (ordered : Bool) (ids : List Int) (timeout : Bool) : Client :=
  { ordered, ids, iter := ids, index := 0, timeout, result := true, output := [], pc := .idle }

structure State (κ : Type) where
  client : κ → Client
  queue : List Resource
  queueCancel : Bool
  finishedResources : Int → Option Resource
  waitingInQueue : Bool
  waiting : Nat
  cancel : Bool
  lock : Option κ
  arrived : List Resource
  taken : List Resource

/-- A step: who moves, and what the environment answers. -/
inductive Label (κ : Type) where
  | arrive (r : Resource)
  | setCancel
  | stopQueue
  | call (c : κ)
  | acquire (c : κ)
  | wake (c : κ) (timedOut : Bool)
  | getItem (c : κ) (got : Bool)
  | scan (c : κ)
  | store (c : κ) (past : Int)
  | poll (c : κ)

variable {κ : Type} [DecidableEq κ]

namespace State

def set (s : State κ) (c : κ) (client : Client) : State κ :=
  { s with client := Function.update s.client c client }

/-- `finishedLock.SignalSend()` -/
def signalSend (s : State κ) : State κ :=
  { s with client := fun c =>
      match (s.client c).pc with
      | .blocked _ => { s.client c with pc := .blocked true }
      | _ => s.client c }

/-- The front of the output queue, unless the queue is cancelled. -/
def front (s : State κ) : Option (Resource × List Resource) :=
  if s.queueCancel then none
  else
    match s.queue with
    | [] => none
    | r :: rest => some (r, rest)

/-- Timed out or cancelled, with the lock: the unordered call looks through all remaining
ids once more without waiting, the ordered one returns. -/
def giveUp (s : State κ) (c : κ) : State κ :=
  let me := s.client c
  if me.ordered then { s.set c { me with pc := .returned false } with lock := none }
  else s.set c { me with timeout := false, iter := me.ids, result := false, pc := .scanning }

/-- The id is not finished and the call may wait: as the reader, or behind the reader. -/
def await (s : State κ) (c : κ) : State κ :=
  let me := s.client c
  if s.waitingInQueue then
    { s.set c { me with pc := .blocked false } with waiting := s.waiting + 1, lock := none }
  else { s.set c { me with pc := .inQueue } with waitingInQueue := true, lock := none }

/-- One pass of the `while` loop of `GetProcessedResources`. -/
def scanUnordered (s : State κ) (c : κ) : State κ :=
  let me := s.client c
  match me.iter with
  | [] => { s.set c { me with pc := .returned me.result } with lock := none }
  | id :: rest =>
    match s.finishedResources id with
    | some r =>
      { s.set c { me with
          output := me.output ++ [r], iter := rest, ids := me.ids.erase id } with
        finishedResources := Function.update s.finishedResources id none }
    | none => if me.timeout then s.await c else s.set c { me with iter := rest }

/-- One pass of the `while` loop of `GetProcessedResourcesOrdered`. -/
def scanOrdered (s : State κ) (c : κ) : State κ :=
  let me := s.client c
  match me.ids[me.index]? with
  | none => { s.set c { me with pc := .returned true } with lock := none }
  | some id =>
    match s.finishedResources id with
    | some r =>
      { s.set c { me with output := me.output ++ [r], index := me.index + 1 } with
        finishedResources := Function.update s.finishedResources id none }
    | none =>
      if me.timeout then s.await c
      else { s.set c { me with pc := .returned true } with lock := none }

/-- `finishedResources[id] = r` -/
def storeForeign (s : State κ) (c : κ) (r : Resource) (foundMy : Bool) : State κ :=
  { s.set c { s.client c with pc := .polling foundMy true } with
    finishedResources := Function.update s.finishedResources r.id (some r) }

/-- One round of the inner loop: `past` is what a read past the end of the vector finds. -/
def store (s : State κ) (c : κ) (r : Resource) (foundMy foundForeign : Bool) (past : Int) :
    State κ :=
  let me := s.client c
  if me.ordered then
    if me.ids[me.index]?.getD past = r.id then
      s.set c { me with
        output := me.output ++ [r], index := me.index + 1, pc := .polling foundMy foundForeign }
    else s.storeForeign c r foundMy
  else
    if r.id ∈ me.ids then
      s.set c { me with
        output := me.output ++ [r], ids := me.ids.erase r.id, pc := .polling true foundForeign }
    else s.storeForeign c r foundMy

/-- After the inner loop. -/
def finishDrain (s : State κ) (c : κ) (foundMy foundForeign : Bool) : State κ :=
  let me := s.client c
  if me.ordered then
    if foundForeign then { (s.set c { me with pc := .yielding }).signalSend with lock := none }
    else s.set c { me with pc := .scanning }
  else
    let s := s.set c { me with iter := if foundMy then me.ids else me.iter, pc := .scanning }
    if foundForeign then s.signalSend else s

end State

@[simp] theorem client_set_self (s : State κ) (c : κ) (me : Client) :
    (s.set c me).client c = me := by
  simp [State.set]

theorem client_set_of_ne (s : State κ) {c c' : κ} (me : Client) (hNe : c' ≠ c) :
    (s.set c me).client c' = s.client c' := by
  simp [State.set, Function.update_of_ne hNe]

/-- One step; `none` when it is not enabled. -/
def step (s : State κ) : Label κ → Option (State κ)
  | .arrive r => some { s with queue := s.queue ++ [r], arrived := s.arrived ++ [r] }
  | .setCancel => some { s with cancel := true }
  | .stopQueue => some { s with queue := [], queueCancel := true }
  | .call c =>
    match (s.client c).pc with
    | .idle => some (s.set c { s.client c with pc := .entering })
    | _ => none
  | .acquire c =>
    if s.lock.isSome then none
    else
      let s := { s with lock := some c }
      let me := s.client c
      match me.pc with
      | .entering => some (s.set c { me with iter := me.ids, index := 0, pc := .scanning })
      | .yielding => some (s.set c { me with pc := .scanning })
      | .gotItem none => some (({ s with waitingInQueue := false }).signalSend.giveUp c)
      | .gotItem (some r) =>
        some ({ s with waitingInQueue := false }.set c { me with pc := .storing r false false })
      | _ => none
  | .wake c timedOut =>
    if s.lock.isSome then none
    else
      match (s.client c).pc with
      | .blocked _ =>
        let s := { s with lock := some c, waiting := s.waiting - 1 }
        if s.cancel || timedOut then some (s.giveUp c)
        else some (s.set c { s.client c with pc := .scanning })
      | _ => none
  | .getItem c got =>
    match (s.client c).pc with
    | .inQueue =>
      if got then
        s.front.map fun (r, rest) =>
          { s.set c { s.client c with pc := .gotItem (some r) } with
            queue := rest, taken := s.taken ++ [r] }
      else some (s.set c { s.client c with pc := .gotItem none })
    | _ => none
  | .scan c =>
    match (s.client c).pc with
    | .scanning => some (if (s.client c).ordered then s.scanOrdered c else s.scanUnordered c)
    | _ => none
  | .store c past =>
    match (s.client c).pc with
    | .storing r foundMy foundForeign => some (s.store c r foundMy foundForeign past)
    | _ => none
  | .poll c =>
    match (s.client c).pc with
    | .polling foundMy foundForeign =>
      match s.front with
      | some (r, rest) =>
        some { s.set c { s.client c with pc := .storing r foundMy foundForeign } with
          queue := rest, taken := s.taken ++ [r] }
      | none => some (s.finishDrain c foundMy foundForeign)
    | _ => none

/-- What a step can be: who is where, and what it leads to. -/
inductive Moves (s : State κ) : Label κ → State κ → Prop where
  | arrive (r : Resource) :
    Moves s (.arrive r) { s with queue := s.queue ++ [r], arrived := s.arrived ++ [r] }
  | setCancel : Moves s .setCancel { s with cancel := true }
  | stopQueue : Moves s .stopQueue { s with queue := [], queueCancel := true }
  | call {c : κ} (hPc : (s.client c).pc = .idle) :
    Moves s (.call c) (s.set c { s.client c with pc := .entering })
  | enter {c : κ} (hLock : s.lock = none) (hPc : (s.client c).pc = .entering) :
    Moves s (.acquire c) ({ s with lock := some c }.set c
      { s.client c with iter := (s.client c).ids, index := 0, pc := .scanning })
  | yielded {c : κ} (hLock : s.lock = none) (hPc : (s.client c).pc = .yielding) :
    Moves s (.acquire c) ({ s with lock := some c }.set c { s.client c with pc := .scanning })
  | gotNothing {c : κ} (hLock : s.lock = none) (hPc : (s.client c).pc = .gotItem none) :
    Moves s (.acquire c) ({ s with lock := some c, waitingInQueue := false }.signalSend.giveUp c)
  | gotItem {c : κ} {r : Resource} (hLock : s.lock = none)
    (hPc : (s.client c).pc = .gotItem (some r)) :
    Moves s (.acquire c) ({ s with lock := some c, waitingInQueue := false }.set c
      { s.client c with pc := .storing r false false })
  | giveUp {c : κ} {timedOut signalled : Bool} (hLock : s.lock = none)
    (hPc : (s.client c).pc = .blocked signalled) :
    Moves s (.wake c timedOut) ({ s with lock := some c, waiting := s.waiting - 1 }.giveUp c)
  | wake {c : κ} {timedOut signalled : Bool} (hLock : s.lock = none)
    (hPc : (s.client c).pc = .blocked signalled) :
    Moves s (.wake c timedOut) ({ s with lock := some c, waiting := s.waiting - 1 }.set c
      { s.client c with pc := .scanning })
  | take {c : κ} {r : Resource} {rest : List Resource} (hPc : (s.client c).pc = .inQueue)
    (hFront : s.front = some (r, rest)) :
    Moves s (.getItem c true) { s.set c { s.client c with pc := .gotItem (some r) } with
      queue := rest, taken := s.taken ++ [r] }
  | takeNothing {c : κ} (hPc : (s.client c).pc = .inQueue) :
    Moves s (.getItem c false) (s.set c { s.client c with pc := .gotItem none })
  | scanOrdered {c : κ} (hPc : (s.client c).pc = .scanning)
    (hOrdered : (s.client c).ordered = true) :
    Moves s (.scan c) (s.scanOrdered c)
  | scanUnordered {c : κ} (hPc : (s.client c).pc = .scanning)
    (hOrdered : (s.client c).ordered = false) : Moves s (.scan c) (s.scanUnordered c)
  | store {c : κ} {past : Int} {r : Resource} {foundMy foundForeign : Bool}
    (hPc : (s.client c).pc = .storing r foundMy foundForeign) :
    Moves s (.store c past) (s.store c r foundMy foundForeign past)
  | pollTake {c : κ} {r : Resource} {rest : List Resource} {foundMy foundForeign : Bool}
    (hPc : (s.client c).pc = .polling foundMy foundForeign) (hFront : s.front = some (r, rest)) :
    Moves s (.poll c) { s.set c { s.client c with pc := .storing r foundMy foundForeign } with
      queue := rest, taken := s.taken ++ [r] }
  | pollEmpty {c : κ} {foundMy foundForeign : Bool}
    (hPc : (s.client c).pc = .polling foundMy foundForeign) (hFront : s.front = none) :
    Moves s (.poll c) (s.finishDrain c foundMy foundForeign)

/-- **Every step is one of these.** -/
theorem moves_of_step {s s' : State κ} {l : Label κ} (h : step s l = some s') : Moves s l s' := by
  cases l with
  | arrive r => obtain rfl := Option.some.inj h; exact .arrive r
  | setCancel => obtain rfl := Option.some.inj h; exact .setCancel
  | stopQueue => obtain rfl := Option.some.inj h; exact .stopQueue
  | call c =>
    simp only [step] at h
    split at h
    · obtain rfl := Option.some.inj h
      exact .call ‹_›
    · exact absurd h (by simp)
  | acquire c =>
    simp only [step] at h
    split at h
    · exact absurd h (by simp)
    rename_i hFree
    have hLock : s.lock = none := by simpa using hFree
    split at h
    · obtain rfl := Option.some.inj h
      exact .enter hLock ‹_›
    · obtain rfl := Option.some.inj h
      exact .yielded hLock ‹_›
    · obtain rfl := Option.some.inj h
      exact .gotNothing hLock ‹_›
    · obtain rfl := Option.some.inj h
      exact .gotItem hLock ‹_›
    · exact absurd h (by simp)
  | wake c timedOut =>
    simp only [step] at h
    split at h
    · exact absurd h (by simp)
    rename_i hFree
    have hLock : s.lock = none := by simpa using hFree
    split at h
    · split at h
      · obtain rfl := Option.some.inj h
        exact .giveUp hLock ‹_›
      · obtain rfl := Option.some.inj h
        exact .wake hLock ‹_›
    · exact absurd h (by simp)
  | getItem c got =>
    simp only [step] at h
    split at h
    · cases got with
      | true =>
        obtain ⟨⟨r, rest⟩, hFront, rfl⟩ := Option.map_eq_some_iff.mp h
        exact .take ‹_› hFront
      | false =>
        obtain rfl := Option.some.inj h
        exact .takeNothing ‹_›
    · exact absurd h (by simp)
  | scan c =>
    simp only [step] at h
    split at h
    · obtain rfl := Option.some.inj h
      split
      · exact .scanOrdered ‹_› ‹_›
      · exact .scanUnordered ‹_› (eq_false_of_ne_true ‹_›)
    · exact absurd h (by simp)
  | store c past =>
    simp only [step] at h
    split at h
    · obtain rfl := Option.some.inj h
      exact .store ‹_›
    · exact absurd h (by simp)
  | poll c =>
    simp only [step] at h
    split at h
    · split at h
      · obtain rfl := Option.some.inj h
        exact .pollTake ‹_› ‹_›
      · obtain rfl := Option.some.inj h
        exact .pollEmpty ‹_› ‹_›
    · exact absurd h (by simp)

/-- Before the first call: each client knows what it will ask for. -/
def initial (clients : κ → Client) : State κ :=
  { client := clients, queue := [], queueCancel := false, finishedResources := fun _ => none
    waitingInQueue := false, waiting := 0, cancel := false, lock := none
    arrived := [], taken := [] }

end HectorCore.Clients
