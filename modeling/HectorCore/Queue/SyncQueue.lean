import HectorCore.Lib.CText
import HectorCore.Lib.Run
import Mathlib.Data.List.Sort
import Mathlib.Data.Int.Order.Basic

/-!
# SyncQueue — the synchronized queue with priorities

`lib/SyncQueue.h`. A `SimpleQueue` is one sub-queue (a deque with two limits and a running
size), a `SyncQueue` the vector of its sub-queues, sorted by descending priority, with the
counters of waiting threads and the `cancel` flag.

The second half is the concurrent component. Every critical section under `queueLock` is
one step: it starts when a thread enters `PutItem`, `GetItem`, `GetItems`, `Stop` or
`Start`, or when it wakes up inside `WaitSend` or `WaitRecv`, and ends at the next unlock
or wait. `pauseLock` is held for no step, it only delays a caller before its first one.

* A wait ends by a broadcast, by a spurious wake-up (POSIX allows both at any time) or,
  with a deadline, by a time-out; the `wake` labels carry the last as a Boolean.
* The out-of-order effects that matter (which thread gets the lock next) are the schedule.
* `hist` records what each call returned and which items left which sub-queue.

The map `priority2queue` holds the same objects as the vector `queues`, under their own
priorities; `findQueue` looks them up there.
-/

namespace HectorCore.Queue

open HectorCore.Lib

/-- What the template parameter of the queue offers, `T::GetSize()`, and what the type of the
counter `queueSize` makes of a sum and of a difference. -/
class Measured (T : Type) where
  getSize : T → Int
  toCounter : Int → Int

export Measured (getSize toCounter)

/-- The counter is an `int`, as the source has it. -/
class IntSized (T : Type) where
  getSize : T → Int

instance [IntSized T] : Measured T := ⟨IntSized.getSize, toInt32⟩

/-- A counter that cannot overflow, for what is claimed of exact integers. -/
class Sized (T : Type) where
  getSize : T → Int

instance [Sized T] : Measured T := ⟨Sized.getSize, id⟩

@[simp]
theorem toCounter_intSized {T : Type} [IntSized T] (n : Int) : toCounter T n = toInt32 n := rfl

@[simp]
theorem toCounter_sized {T : Type} [Sized T] (n : Int) : toCounter T n = n := rfl

/-- Numbers as items, each of its own size. -/
instance : Sized Nat := ⟨fun n => n⟩

-- ---------------------------------------------------------------------------
-- Sub-queues
-- ---------------------------------------------------------------------------

/-- One priority of the queue, with its limits and its counter. -/
structure SimpleQueue (T : Type) where
  priority : Int
  maxItems : Int
  maxSize : Int
  queueSize : Int
  queue : List T
  deriving DecidableEq, Repr

namespace SimpleQueue

variable {T : Type}

def new (priority maxItems maxSize : Int) : SimpleQueue T :=
  { priority, maxItems, maxSize, queueSize := 0, queue := [] }

/-- `queueSize` is left as it is: only the deque is cleared. -/
def deleteAllItems (q : SimpleQueue T) : SimpleQueue T := { q with queue := [] }

/-- Reversed, so that higher priorities come first. -/
def comp (a b : SimpleQueue T) : Bool := decide (a.priority > b.priority)

variable [Measured T]

/-- A limit of zero is none. -/
def isSpaceFor (q : SimpleQueue T) (itemSize : Int) : Bool :=
  (q.maxItems == 0 || decide ((q.queue.length : Int) < q.maxItems)) &&
    (q.maxSize == 0 || decide (toCounter T (q.queueSize + itemSize) ≤ q.maxSize))

def putItem (q : SimpleQueue T) (r : T) : SimpleQueue T :=
  { q with queue := q.queue ++ [r], queueSize := toCounter T (q.queueSize + getSize r) }

def getItem (q : SimpleQueue T) : Option (T × SimpleQueue T) :=
  match q.queue with
  | [] => none
  | r :: rest =>
    some (r, { q with queue := rest, queueSize := toCounter T (q.queueSize - getSize r) })

/-- The inner loop of `GetItems`: take from one sub-queue while it has items and fewer
than `size` have been taken. -/
def getUpTo : Nat → SimpleQueue T → List T × SimpleQueue T
  | 0, q => ([], q)
  | size + 1, q =>
    match q.getItem with
    | none => ([], q)
    | some (r, q') => (r :: (getUpTo size q').1, (getUpTo size q').2)

end SimpleQueue

-- ---------------------------------------------------------------------------
-- The queue
-- ---------------------------------------------------------------------------

/-- The sub-queues, highest priority first, and what the waiting threads have left behind. -/
structure SyncQueue (T : Type) where
  queues : List (SimpleQueue T)
  waitingReaders : Int
  waitingWriters : Int
  cancel : Bool

namespace SyncQueue

variable {T : Type}

def new : SyncQueue T :=
  { queues := [], waitingReaders := 0, waitingWriters := 0, cancel := false }

/-- The entry of `priority2queue`. -/
def findQueue (s : SyncQueue T) (priority : Int) : Option (SimpleQueue T) :=
  s.queues.find? (fun q => q.priority == priority)

def hasQueue (s : SyncQueue T) (priority : Int) : Bool :=
  (s.findQueue priority).isSome

/-- `std::sort` by `SimpleQueue::comp`: no element has a `comp`-smaller one after it. -/
def sortQueues (qs : List (SimpleQueue T)) : List (SimpleQueue T) :=
  qs.insertionSort fun a b => SimpleQueue.comp b a = false

/-- `none` is the failed assertion that the priority is new. -/
def addQueue (s : SyncQueue T) (priority maxItems maxSize : Int) : Option (SyncQueue T) :=
  if s.hasQueue priority then none
  else some { s with queues := sortQueues (s.queues ++ [.new priority maxItems maxSize]) }

/-- The queue that a sequence of `addQueue` calls builds. -/
def build : List (Int × Int × Int) → Option (SyncQueue T)
  | [] => some new
  | (priority, maxItems, maxSize) :: rest =>
    (build rest).bind fun s => s.addQueue priority maxItems maxSize

theorem build_cons_eq_some {e : Int × Int × Int} {rest : List (Int × Int × Int)} {q : SyncQueue T}
    (h : build (e :: rest) = some q) :
    ∃ q₀, build rest = some q₀ ∧
      q = { q₀ with queues := sortQueues (q₀.queues ++ [.new e.1 e.2.1 e.2.2]) } := by
  rw [build, Option.bind_eq_some_iff] at h
  obtain ⟨q₀, hRest, hAdd⟩ := h
  rw [addQueue] at hAdd
  split_ifs at hAdd
  exact ⟨q₀, hRest, (Option.some.inj hAdd).symm⟩

/-- Nobody waits in a queue that has just been built. -/
theorem build_idle {subqueues : List (Int × Int × Int)} {q : SyncQueue T}
    (h : build subqueues = some q) : q.waitingReaders = 0 ∧ q.waitingWriters = 0 := by
  induction subqueues generalizing q with
  | nil =>
    obtain rfl := Option.some.inj h
    exact ⟨rfl, rfl⟩
  | cons e rest ih =>
    obtain ⟨q₀, hRest, rfl⟩ := build_cons_eq_some h
    have hIdle := ih hRest
    exact hIdle

/-- `none` stands for the result `-1`. -/
def firstNonEmptyQueueIndex (s : SyncQueue T) : Option Nat :=
  s.queues.findIdx? fun q => decide (0 < q.queue.length)

/-- Update the sub-queue that `priority2queue` holds for a priority. -/
def modifyQueue (s : SyncQueue T) (priority : Int) (f : SimpleQueue T → SimpleQueue T) :
    SyncQueue T :=
  { s with queues := s.queues.map fun q => if q.priority = priority then f q else q }

variable [Measured T]

/-- The sub-queue of a priority after a put into any of them. -/
theorem findQueue_putItem {s : SyncQueue T} {p p' : Int} (r : T) :
    (s.modifyQueue p' (·.putItem r)).findQueue p =
      (s.findQueue p).map fun x => if x.priority = p' then x.putItem r else x := by
  rw [modifyQueue, findQueue, findQueue, List.find?_map]
  congr 2
  funext x
  show ((if x.priority = p' then x.putItem r else x).priority == p) = (x.priority == p)
  split
  · rfl
  · rfl

/-- `queues[firstNonEmptyQueueIndex()]->GetItem()`, with the priority it came from. -/
def popFirst (s : SyncQueue T) : Option (Int × T × SyncQueue T) := do
  let i ← s.firstNonEmptyQueueIndex
  let q ← s.queues[i]?
  let (r, q') ← q.getItem
  return (q.priority, r, { s with queues := s.queues.set i q' })

/-- The outer loop of `GetItems` over the sub-queues, taking at most `size` items. -/
def popUpTo : Nat → List (SimpleQueue T) → List (Int × T) × List (SimpleQueue T)
  | _, [] => ([], [])
  | size, q :: qs =>
    let (items, q') := q.getUpTo size
    let (rest, qs') := popUpTo (size - items.length) qs
    (items.map (fun r => (q.priority, r)) ++ rest, q' :: qs')

end SyncQueue

-- ---------------------------------------------------------------------------
-- The concurrent component
-- ---------------------------------------------------------------------------

/-- The `timeout` argument: `NULL`, a zero `tv_sec` (wait for ever), or a point in time. -/
inductive Timeout where
  | null
  | forever
  | deadline
  deriving DecidableEq, Repr

/-- Where a thread is: outside, or waiting inside one of the calls. `signalled` says that a
broadcast reached it since it began to wait. -/
inductive Pc (T : Type) where
  | idle
  | waitSend (r : T) (timeout : Timeout) (priority : Int) (signalled : Bool)
  /-- `size = none` in `GetItem`, `some n` in `GetItems`. -/
  | waitRecv (size : Option Nat) (timeout : Timeout) (signalled : Bool)
  /-- Between two passes of the first or the second loop of `Stop`. -/
  | stopReaders
  | stopWriters

/-- What the calls returned, and which items left which sub-queue. -/
inductive Event (Tid T : Type) where
  | put (t : Tid) (r : T) (priority : Int) (result : Bool)
  | removed (t : Tid) (r : T) (priority : Int)
  | nothing (t : Tid)
  | discarded (r : T) (priority : Int)
  | started
  deriving DecidableEq

/-- The queue, where each thread is, and what has happened so far. -/
structure State (Tid T : Type) where
  q : SyncQueue T
  pc : Tid → Pc T
  hist : List (Event Tid T)

/-- A call, or a thread that goes on with the one it is in. -/
inductive Label (Tid T : Type) where
  | putItem (t : Tid) (r : T) (timeout : Timeout) (priority : Int)
  | getItem (t : Tid) (timeout : Timeout)
  | getItems (t : Tid) (size : Nat) (timeout : Timeout)
  | wakeSend (t : Tid) (timedOut : Bool)
  | wakeRecv (t : Tid) (timedOut : Bool)
  | stop (t : Tid)
  | stopResume (t : Tid)
  | start (t : Tid)

section Steps

variable {Tid T : Type} [DecidableEq Tid] [Measured T]

/-- A writer that waits is woken; it stays there until it takes its step. -/
def Pc.signalSend : Pc T → Pc T
  | .waitSend r timeout priority _ => .waitSend r timeout priority true
  | pc => pc

/-- The same for a reader. -/
def Pc.signalRecv : Pc T → Pc T
  | .waitRecv size timeout _ => .waitRecv size timeout true
  | pc => pc

namespace State

/-- `pthread_cond_broadcast` on the condition of the writers. -/
def signalSend (s : State Tid T) : State Tid T :=
  { s with pc := fun t => (s.pc t).signalSend }

/-- `pthread_cond_broadcast` on the condition of the readers. -/
def signalRecv (s : State Tid T) : State Tid T :=
  { s with pc := fun t => (s.pc t).signalRecv }

def setQ (s : State Tid T) (q : SyncQueue T) : State Tid T := { s with q := q }

def setPc (s : State Tid T) (t : Tid) (pc : Pc T) : State Tid T :=
  { s with pc := Function.update s.pc t pc }

def record (s : State Tid T) (es : List (Event Tid T)) : State Tid T :=
  { s with hist := s.hist ++ es }

/-- The loop of `PutItem` from its test on: put, give up, or wait. -/
def putLoop (s : State Tid T) (t : Tid) (r : T) (timeout : Timeout) (priority : Int) :
    Option (State Tid T) :=
  match s.q.findQueue priority with
  | none => none      -- assert(iter != priority2queue.end())
  | some q =>
    if q.isSpaceFor (getSize r) then
      some ((((s.setQ (s.q.modifyQueue priority (·.putItem r))).signalRecv).setPc t .idle).record
        [.put t r priority true])
    else if timeout = .null then
      some ((s.setPc t .idle).record [.put t r priority false])
    else
      some ((s.setQ { s.q with waitingWriters := s.q.waitingWriters + 1 }).setPc t
        (.waitSend r timeout priority false))

/-- The loop of `GetItem` (`size = none`) and `GetItems` from its test on. -/
def getLoop (s : State Tid T) (t : Tid) (size : Option Nat) (timeout : Timeout) :
    Option (State Tid T) :=
  if s.q.firstNonEmptyQueueIndex.isNone then
    if timeout = .null then
      some ((s.setPc t .idle).record [.nothing t])
    else
      some ((s.setQ { s.q with waitingReaders := s.q.waitingReaders + 1 }).setPc t
        (.waitRecv size timeout false))
  else
    match size with
    | none =>
      s.q.popFirst.map fun (priority, r, q') =>
        (((s.setQ q').signalSend).setPc t .idle).record [.removed t r priority]
    | some n =>
      let (items, queues) := SyncQueue.popUpTo n s.q.queues
      some ((((s.setQ { s.q with queues }).signalSend).setPc t .idle).record
        (items.map fun (priority, r) => .removed t r priority))

/-- The second loop of `Stop`, and the deletion of all items after it. -/
def stopWritersLoop (s : State Tid T) (t : Tid) : State Tid T :=
  if 0 < s.q.waitingWriters then s.signalSend.setPc t .stopWriters
  else
    ((s.setQ { s.q with queues := s.q.queues.map (·.deleteAllItems) }).setPc t .idle).record
      (s.q.queues.flatMap fun q => q.queue.map fun r => .discarded r q.priority)

/-- The first loop of `Stop`. -/
def stopReadersLoop (s : State Tid T) (t : Tid) : State Tid T :=
  if 0 < s.q.waitingReaders then s.signalRecv.setPc t .stopReaders
  else s.stopWritersLoop t

end State

/-- One critical section under `queueLock`. -/
def step (s : State Tid T) : Label Tid T → Option (State Tid T)
  | .putItem t r timeout priority =>
    match s.pc t with
    | .idle =>
      if s.q.cancel then some (s.record [.put t r priority false])
      else s.putLoop t r timeout priority
    | _ => none
  | .getItem t timeout =>
    match s.pc t with
    | .idle =>
      if s.q.cancel then some (s.record [.nothing t])
      else s.getLoop t none timeout
    | _ => none
  | .getItems t size timeout =>
    match s.pc t with
    | .idle =>
      if s.q.cancel then some (s.record [.nothing t])
      else s.getLoop t (some size) timeout
    | _ => none
  | .wakeSend t timedOut =>
    match s.pc t with
    | .waitSend r timeout priority _ =>
      if timedOut && timeout != .deadline then none
      else
        let s' := s.setQ { s.q with waitingWriters := s.q.waitingWriters - 1 }
        if s.q.cancel || timedOut then
          some ((s'.setPc t .idle).record [.put t r priority false])
        else s'.putLoop t r timeout priority
    | _ => none
  | .wakeRecv t timedOut =>
    match s.pc t with
    | .waitRecv size timeout _ =>
      if timedOut && timeout != .deadline then none
      else
        let s' := s.setQ { s.q with waitingReaders := s.q.waitingReaders - 1 }
        if s.q.cancel || timedOut then some ((s'.setPc t .idle).record [.nothing t])
        else s'.getLoop t size timeout
    | _ => none
  | .stop t =>
    match s.pc t with
    | .idle => some ((s.setQ { s.q with cancel := true }).stopReadersLoop t)
    | _ => none
  | .stopResume t =>
    match s.pc t with
    | .stopReaders => some (s.stopReadersLoop t)
    | .stopWriters => some (s.stopWritersLoop t)
    | _ => none
  | .start t =>
    match s.pc t with
    | .idle => some ((s.setQ { s.q with cancel := false }).record [.started])
    | _ => none

/-- No thread is in the queue yet. -/
def initial (q : SyncQueue T) : State Tid T := { q, pc := fun _ => .idle, hist := [] }

-- ---------------------------------------------------------------------------
-- What a critical section can do
-- ---------------------------------------------------------------------------

/-- How a thread comes to the loop of `PutItem`, `GetItem` or `GetItems`: from outside, or
out of a wait, which it leaves by the decrement of its counter. -/
inductive Arrives (s : State Tid T) (t : Tid) : State Tid T → Prop
  | enters (h : s.pc t = .idle) : Arrives s t s
  | fromSend {r : T} {timeout : Timeout} {p : Int} {sig : Bool}
      (h : s.pc t = .waitSend r timeout p sig) :
      Arrives s t (s.setQ { s.q with waitingWriters := s.q.waitingWriters - 1 })
  | fromRecv {size : Option Nat} {timeout : Timeout} {sig : Bool}
      (h : s.pc t = .waitRecv size timeout sig) :
      Arrives s t (s.setQ { s.q with waitingReaders := s.q.waitingReaders - 1 })

omit [DecidableEq Tid] [Measured T] in
theorem Arrives.pc_eq {s s₀ : State Tid T} {t : Tid} (h : Arrives s t s₀) : s₀.pc = s.pc := by
  cases h <;> rfl

omit [DecidableEq Tid] [Measured T] in
theorem Arrives.cancel_eq {s s₀ : State Tid T} {t : Tid} (h : Arrives s t s₀) :
    s₀.q.cancel = s.q.cancel := by
  cases h <;> rfl

/-- What a call returns when nothing moved. -/
def Event.Fails (t : Tid) (e : Event Tid T) : Prop :=
  e = .nothing t ∨ ∃ r p, e = .put t r p false

/-- The ways a critical section can go. -/
inductive Moves (s : State Tid T) : State Tid T → Prop
  | gaveUp {t : Tid} {s₀ : State Tid T} {e : Event Tid T} (hAt : Arrives s t s₀)
      (hFail : e.Fails t) : Moves s ((s₀.setPc t .idle).record [e])
  | put {t : Tid} {r : T} {timeout : Timeout} {p : Int} {s₀ s' : State Tid T}
      (hAt : Arrives s t s₀) (hOpen : s.q.cancel = false)
      (hLoop : s₀.putLoop t r timeout p = some s') : Moves s s'
  | get {t : Tid} {size : Option Nat} {timeout : Timeout} {s₀ s' : State Tid T}
      (hAt : Arrives s t s₀) (hOpen : s.q.cancel = false)
      (hLoop : s₀.getLoop t size timeout = some s') : Moves s s'
  | stop {t : Tid} (h : s.pc t = .idle) :
      Moves s ((s.setQ { s.q with cancel := true }).stopReadersLoop t)
  | stopReaders {t : Tid} (h : s.pc t = .stopReaders) : Moves s (s.stopReadersLoop t)
  | stopWriters {t : Tid} (h : s.pc t = .stopWriters) : Moves s (s.stopWritersLoop t)
  | restart : Moves s ((s.setQ { s.q with cancel := false }).record [.started])

omit [Measured T] in
/-- A call on a cancelled queue gives up at once. -/
theorem record_eq_of_idle {s : State Tid T} {t : Tid} (e : Event Tid T) (h : s.pc t = .idle) :
    s.record [e] = (s.setPc t .idle).record [e] := by
  have hSame : s.setPc t .idle = s := by
    rw [State.setPc, ← h, Function.update_eq_self]
  rw [hSame]

theorem moves_of_step {s s' : State Tid T} {l : Label Tid T} (hStep : step s l = some s') :
    Moves s s' := by
  cases l with
  | putItem t r timeout p =>
    simp only [step] at hStep
    split at hStep
    · rename_i hPc
      have hFail : (Event.put t r p false).Fails t := Or.inr ⟨r, p, rfl⟩
      split_ifs at hStep with hCancel
      · obtain rfl := Option.some.inj hStep
        rw [record_eq_of_idle _ hPc]
        exact .gaveUp (.enters hPc) hFail
      · exact .put (.enters hPc) (eq_false_of_ne_true hCancel) hStep
    · cases hStep
  | getItem t timeout =>
    simp only [step] at hStep
    split at hStep
    · rename_i hPc
      split_ifs at hStep with hCancel
      · obtain rfl := Option.some.inj hStep
        rw [record_eq_of_idle _ hPc]
        exact .gaveUp (.enters hPc) (Or.inl rfl)
      · exact .get (.enters hPc) (eq_false_of_ne_true hCancel) hStep
    · cases hStep
  | getItems t size timeout =>
    simp only [step] at hStep
    split at hStep
    · rename_i hPc
      split_ifs at hStep with hCancel
      · obtain rfl := Option.some.inj hStep
        rw [record_eq_of_idle _ hPc]
        exact .gaveUp (.enters hPc) (Or.inl rfl)
      · exact .get (.enters hPc) (eq_false_of_ne_true hCancel) hStep
    · cases hStep
  | wakeSend t timedOut =>
    simp only [step] at hStep
    split at hStep
    · rename_i r timeout p sig hPc
      split_ifs at hStep with hTime hGone
      · obtain rfl := Option.some.inj hStep
        exact .gaveUp (.fromSend hPc) (Or.inr ⟨r, p, rfl⟩)
      · rw [Bool.or_eq_true, not_or] at hGone
        exact .put (.fromSend hPc) (eq_false_of_ne_true hGone.1) hStep
    · cases hStep
  | wakeRecv t timedOut =>
    simp only [step] at hStep
    split at hStep
    · rename_i size timeout sig hPc
      split_ifs at hStep with hTime hGone
      · obtain rfl := Option.some.inj hStep
        exact .gaveUp (.fromRecv hPc) (Or.inl rfl)
      · rw [Bool.or_eq_true, not_or] at hGone
        exact .get (.fromRecv hPc) (eq_false_of_ne_true hGone.1) hStep
    · cases hStep
  | stop t =>
    simp only [step] at hStep
    split at hStep
    · rename_i hPc
      obtain rfl := Option.some.inj hStep
      exact .stop hPc
    · cases hStep
  | stopResume t =>
    simp only [step] at hStep
    split at hStep
    · rename_i hPc
      obtain rfl := Option.some.inj hStep
      exact .stopReaders hPc
    · rename_i hPc
      obtain rfl := Option.some.inj hStep
      exact .stopWriters hPc
    · cases hStep
  | start t =>
    simp only [step] at hStep
    split at hStep
    · obtain rfl := Option.some.inj hStep
      exact .restart
    · cases hStep

end Steps

end HectorCore.Queue
