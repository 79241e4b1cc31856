import HectorCore.Queue.Delivery

/-!
# Batches — GetItems and PutItems against repeated GetItem and PutItem

`lib/SyncQueue.h`. `GetItems` walks once over the sub-queues, `GetItem` looks for the first one
that is not empty each time. `PutItems` does not call `IsSpaceFor`: it has conditions of its own,
for which a limit of size of zero is a limit.

* `popFirst_cons`, `popUpTo_succ`   — the walk over the sub-queues, one item at a time;
* `getItems_eq_single_reads`        — a batch is read like single items;
* `accepted_eq_putUpTo`             — with a limit of size both kinds of writing agree;
* `putItems_eq_single_writes_iff`   — when a batch is written like single items.
-/

namespace HectorCore.Queue

open HectorCore.Lib

variable {Tid T : Type}

-- ---------------------------------------------------------------------------
-- Reading
-- ---------------------------------------------------------------------------

/-- The item that an event hands to the caller. -/
def Event.item? : Event Tid T → Option T
  | .removed _ r _ => some r
  | _ => none

/-- The items that have been handed out between two states. -/
def State.itemsSince (s' s : State Tid T) : List T :=
  (s'.hist.drop s.hist.length).filterMap Event.item?

/-- The last call returned an item. -/
def State.obtained (s : State Tid T) : Bool :=
  (s.hist.getLast?.bind Event.item?).isSome

section Reading

variable [Sized T]

/-- Calls `GetItem(NULL)` until it returns `NULL` or `size` items have been obtained. -/
def getItemLoop [DecidableEq Tid] (t : Tid) : Nat → State Tid T → Option (State Tid T)
  | 0, s => some s
  | size + 1, s =>
    (step s (.getItem t .null)).bind fun s' =>
      if s'.obtained then getItemLoop t size s' else some s'

/-- What is left in the queue, and what has been taken, after `n` times `popFirst`. -/
def SyncQueue.popTimes : Nat → SyncQueue T → List (Int × T) × SyncQueue T
  | 0, s => ([], s)
  | n + 1, s =>
    match s.popFirst with
    | none => ([], s)
    | some (p, r, s') => ((p, r) :: (popTimes n s').1, (popTimes n s').2)

namespace SyncQueue

/-- The first sub-queue is not empty. -/
theorem popFirst_of_getItem {s : SyncQueue T} {q q' : SimpleQueue T} {qs : List (SimpleQueue T)}
    {r : T} (hQueues : s.queues = q :: qs) (hGet : q.getItem = some (r, q')) :
    s.popFirst = some (q.priority, r, { s with queues := q' :: qs }) := by
  have hIndex : s.firstNonEmptyQueueIndex = some 0 := by
    have hQueue : q.queue ≠ [] := by
      intro hNil
      rw [SimpleQueue.getItem, hNil] at hGet
      cases hGet
    rw [firstNonEmptyQueueIndex, hQueues, List.findIdx?_cons]
    simp [List.length_pos_iff, hQueue]
  simp [popFirst, hIndex, hQueues, hGet]

/-- The first sub-queue is empty: the index is found behind it. -/
theorem popFirst_of_empty {s : SyncQueue T} {q : SimpleQueue T} {qs : List (SimpleQueue T)}
    (hQueues : s.queues = q :: qs) (hEmpty : q.queue = []) :
    s.popFirst = ({ s with queues := qs } : SyncQueue T).popFirst.map fun found =>
      (found.1, found.2.1, { found.2.2 with queues := q :: found.2.2.queues }) := by
  have hIndex : s.firstNonEmptyQueueIndex =
      (firstNonEmptyQueueIndex { s with queues := qs }).map (· + 1) := by
    rw [firstNonEmptyQueueIndex, hQueues, List.findIdx?_cons]
    simp [hEmpty, firstNonEmptyQueueIndex]
  cases hFound : firstNonEmptyQueueIndex { s with queues := qs } with
  | none => simp [popFirst, hIndex, hFound]
  | some i =>
    cases hAt : qs[i]? with
    | none => simp [popFirst, hIndex, hFound, hQueues, hAt]
    | some q₁ => cases hGet : q₁.getItem <;> simp [popFirst, hIndex, hFound, hQueues, hAt, hGet]

theorem getUpTo_of_empty {q : SimpleQueue T} (n : Nat) (hEmpty : q.queue = []) :
    q.getUpTo n = ([], q) := by
  have hGet : q.getItem = none := by rw [SimpleQueue.getItem, hEmpty]
  cases n with
  | zero => rfl
  | succ n => rw [SimpleQueue.getUpTo, hGet]

theorem popUpTo_of_empty {q : SimpleQueue T} (n : Nat) (qs : List (SimpleQueue T))
    (hEmpty : q.queue = []) :
    popUpTo n (q :: qs) = ((popUpTo n qs).1, q :: (popUpTo n qs).2) := by
  rw [popUpTo, getUpTo_of_empty n hEmpty]
  rfl

theorem popUpTo_of_getItem {q q' : SimpleQueue T} {r : T} (n : Nat) (qs : List (SimpleQueue T))
    (hGet : q.getItem = some (r, q')) :
    popUpTo (n + 1) (q :: qs) =
      ((q.priority, r) :: (popUpTo n (q' :: qs)).1, (popUpTo n (q' :: qs)).2) := by
  rw [popUpTo, SimpleQueue.getUpTo, hGet]
  simp only [List.length_cons, Nat.add_sub_add_right, List.map_cons, List.cons_append]
  rw [popUpTo, getItem_priority hGet]

theorem popUpTo_of_none {s : SyncQueue T} (n : Nat) (hNone : s.popFirst = none) :
    popUpTo n s.queues = ([], s.queues) := by
  induction hQueues : s.queues generalizing s with
  | nil => rfl
  | cons q qs ih =>
    cases hGet : q.getItem with
    | some found =>
      rw [popFirst_of_getItem hQueues hGet] at hNone
      cases hNone
    | none =>
      have hEmpty := getItem_eq_none hGet
      rw [popFirst_of_empty hQueues hEmpty, Option.map_eq_none_iff] at hNone
      rw [popUpTo_of_empty n qs hEmpty, ih hNone rfl]

/-- One item more in a walk is the first one of `GetItem`, and the walk after it. -/
theorem popUpTo_of_some {s s' : SyncQueue T} {p : Int} {r : T} (n : Nat)
    (hSome : s.popFirst = some (p, r, s')) :
    popUpTo (n + 1) s.queues =
      ((p, r) :: (popUpTo n s'.queues).1, (popUpTo n s'.queues).2) := by
  induction hQueues : s.queues generalizing s s' with
  | nil => simp [popFirst, firstNonEmptyQueueIndex, hQueues] at hSome
  | cons q qs ih =>
    cases hGet : q.getItem with
    | some found =>
      rw [popFirst_of_getItem hQueues hGet] at hSome
      cases hSome
      exact popUpTo_of_getItem n qs hGet
    | none =>
      have hEmpty := getItem_eq_none hGet
      rw [popFirst_of_empty hQueues hEmpty] at hSome
      obtain ⟨⟨p₁, r₁, s₁⟩, hFound, hSame⟩ := Option.map_eq_some_iff.mp hSome
      cases hSame
      rw [popUpTo_of_empty (n + 1) qs hEmpty, ih hFound rfl]
      exact (popUpTo_of_empty n s₁.queues hEmpty).symm ▸ rfl

theorem popFirst_frame {s s' : SyncQueue T} {p : Int} {r : T}
    (hSome : s.popFirst = some (p, r, s')) : s' = { s with queues := s'.queues } := by
  simp only [popFirst, Option.bind_eq_bind, Option.bind_eq_some_iff, Option.pure_def,
    Option.some.injEq, Prod.exists, Prod.mk.injEq] at hSome
  obtain ⟨i, -, q, -, r', q', -, -, -, rfl⟩ := hSome
  rfl

/-- **The walk takes what repeated searches take**, and leaves what they leave. -/
theorem popTimes_eq_popUpTo (n : Nat) (s : SyncQueue T) :
    s.popTimes n = ((popUpTo n s.queues).1, { s with queues := (popUpTo n s.queues).2 }) := by
  induction n generalizing s with
  | zero => rw [popTimes, popUpTo_zero]
  | succ n ih =>
    cases hPop : s.popFirst with
    | none => rw [popTimes, hPop, popUpTo_of_none (n + 1) hPop]
    | some found =>
      obtain ⟨p, r, s'⟩ := found
      rw [popTimes, hPop, popUpTo_of_some n hPop]
      simp only
      rw [ih s', popFirst_frame hPop]

end SyncQueue

-- ---------------------------------------------------------------------------
-- Calls of GetItem and GetItems
-- ---------------------------------------------------------------------------

/-- What calls of one thread did: the state of the queue after them, the items that they returned,
and the signals that they sent. -/
structure Read (s s' : State Tid T) (items : List T) (q : SyncQueue T) : Prop where
  q : s'.q = q
  pc : s'.pc = if items = [] then s.pc else s.signalSend.pc
  hist : ∃ events, s'.hist = s.hist ++ events ∧ events.filterMap Event.item? = items

omit [Sized T] in
theorem Read.itemsSince {s s' : State Tid T} {items : List T} {q : SyncQueue T}
    (h : Read s s' items q) : s'.itemsSince s = items := by
  obtain ⟨events, hHist, hItems⟩ := h.hist
  rw [State.itemsSince, hHist, List.drop_left, hItems]

omit [Sized T] in
theorem Pc.signalSend_signalSend (pc : Pc T) : pc.signalSend.signalSend = pc.signalSend := by
  cases pc <;> rfl

variable [DecidableEq Tid]

omit [Sized T] in
theorem setPc_idle {s : State Tid T} {t : Tid} (hIdle : s.pc t = .idle) :
    (s.setPc t .idle).pc = s.pc := by
  show Function.update s.pc t .idle = s.pc
  rw [← hIdle, Function.update_eq_self]

omit [Sized T] in
/-- The broadcast does not move a thread that is outside. -/
theorem setPc_signalSend_idle {s : State Tid T} {t : Tid} (q : SyncQueue T)
    (hIdle : s.pc t = .idle) : ((s.setQ q).signalSend.setPc t .idle).pc = s.signalSend.pc := by
  refine setPc_idle (s := (s.setQ q).signalSend) ?_
  show (s.pc t).signalSend = .idle
  rw [hIdle]
  rfl

theorem firstNonEmptyQueueIndex_eq_none {s : SyncQueue T} (hNone : s.popFirst = none) :
    s.firstNonEmptyQueueIndex.isNone := by
  by_contra hSome
  have hPop := popFirst_isSome (eq_false_of_ne_true hSome)
  rw [hNone] at hPop
  cases hPop

theorem firstNonEmptyQueueIndex_of_some {s s' : SyncQueue T} {p : Int} {r : T}
    (hSome : s.popFirst = some (p, r, s')) : s.firstNonEmptyQueueIndex.isNone = false := by
  rw [SyncQueue.popFirst, Option.bind_eq_bind, Option.bind_eq_some_iff] at hSome
  obtain ⟨i, hIndex, -⟩ := hSome
  rw [hIndex]
  rfl

variable {s : State Tid T} {t : Tid}

/-- A call that finds nothing returns `NULL`. -/
theorem getLoop_of_none (size : Option Nat) (hIdle : s.pc t = .idle) (hNone : s.q.popFirst = none) :
    ∃ s', s.getLoop t size .null = some s' ∧ Read s s' [] s.q ∧ s'.obtained = false := by
  refine ⟨(s.setPc t .idle).record [.nothing t], ?_, ⟨rfl, ?_, [.nothing t], rfl, rfl⟩, ?_⟩
  · unfold State.getLoop
    rw [if_pos (firstNonEmptyQueueIndex_eq_none hNone), if_pos rfl]
  · exact setPc_idle hIdle
  · show ((s.hist ++ [Event.nothing t]).getLast?.bind Event.item?).isSome = false
    rw [List.getLast?_concat]
    rfl

/-- `GetItem` takes one item. -/
theorem getItem_of_some {q' : SyncQueue T} {p : Int} {r : T} (hIdle : s.pc t = .idle)
    (hOpen : s.q.cancel = false) (hSome : s.q.popFirst = some (p, r, q')) :
    ∃ s', step s (.getItem t .null) = some s' ∧ Read s s' [r] q' ∧ s'.obtained = true := by
  have hLoop : step s (.getItem t .null) = s.getLoop t none .null := by
    simp only [step, hIdle, hOpen]
    rfl
  have hIndex := firstNonEmptyQueueIndex_of_some hSome
  refine ⟨((s.setQ q').signalSend.setPc t .idle).record [.removed t r p], ?_,
    ⟨rfl, ?_, [.removed t r p], rfl, rfl⟩, ?_⟩
  · rw [hLoop, State.getLoop, if_neg (by simp [hIndex]), hSome]
    rfl
  · exact setPc_signalSend_idle q' hIdle
  · show ((s.hist ++ [Event.removed t r p]).getLast?.bind Event.item?).isSome = true
    rw [List.getLast?_concat]
    rfl

theorem getItemLoop_spec (size : Nat) (hIdle : s.pc t = .idle) (hOpen : s.q.cancel = false) :
    ∃ s', getItemLoop t size s = some s' ∧
      Read s s' ((s.q.popTimes size).1.map Prod.snd) (s.q.popTimes size).2 := by
  induction size generalizing s with
  | zero => exact ⟨s, rfl, rfl, rfl, [], (List.append_nil _).symm, rfl⟩
  | succ size ih =>
    cases hPop : s.q.popFirst with
    | none =>
      obtain ⟨s', hCall, hRead, hStop⟩ := getLoop_of_none none hIdle hPop
      refine ⟨s', ?_, ?_⟩
      · have hStep : step s (.getItem t .null) = some s' := by
          simp only [step, hIdle, hOpen]
          exact hCall
        rw [getItemLoop, hStep, Option.bind_some, hStop]
        rfl
      · rw [SyncQueue.popTimes, hPop]
        exact hRead
    | some found =>
      obtain ⟨p, r, q'⟩ := found
      obtain ⟨s₁, hStep, hFirst, hGo⟩ := getItem_of_some hIdle hOpen hPop
      have hPc : s₁.pc = s.signalSend.pc := hFirst.pc
      have hIdle₁ : s₁.pc t = .idle := by
        rw [hPc]
        show (s.pc t).signalSend = .idle
        rw [hIdle]
        rfl
      have hOpen₁ : s₁.q.cancel = false := by
        rw [hFirst.q, SyncQueue.popFirst_frame hPop]
        exact hOpen
      obtain ⟨s', hLoop, hRest⟩ := ih hIdle₁ hOpen₁
      rw [hFirst.q] at hRest
      refine ⟨s', ?_, ?_⟩
      · rw [getItemLoop, hStep, Option.bind_some, hGo, if_pos rfl, hLoop]
      · rw [SyncQueue.popTimes, hPop]
        obtain ⟨first, hHist₁, hItem⟩ := hFirst.hist
        obtain ⟨rest, hHist, hItems⟩ := hRest.hist
        -- one broadcast or several
        have hPc' : s'.pc = s.signalSend.pc := by
          rw [hRest.pc]
          split
          · exact hPc
          · funext u
            show (s₁.pc u).signalSend = (s.pc u).signalSend
            rw [hPc]
            exact Pc.signalSend_signalSend _
        refine ⟨hRest.q, ?_, first ++ rest, ?_, ?_⟩
        · rw [hPc', if_neg (by simp)]
        · rw [hHist, hHist₁, List.append_assoc]
        · rw [List.filterMap_append, hItem, hItems]
          rfl

omit [Sized T] [DecidableEq Tid] in
theorem filterMap_removed (t : Tid) (items : List (Int × T)) :
    (items.map fun (p, r) => Event.removed t r p).filterMap Event.item? = items.map Prod.snd := by
  induction items with
  | nil => rfl
  | cons item items ih => rw [List.map_cons, List.filterMap_cons, ih]; rfl

theorem getItems_spec {size : Nat} (hIdle : s.pc t = .idle) (hOpen : s.q.cancel = false)
    (hSize : 0 < size) :
    ∃ s', step s (.getItems t size .null) = some s' ∧
      Read s s' ((SyncQueue.popUpTo size s.q.queues).1.map Prod.snd)
        { s.q with queues := (SyncQueue.popUpTo size s.q.queues).2 } := by
  have hLoop : step s (.getItems t size .null) = s.getLoop t (some size) .null := by
    simp only [step, hIdle, hOpen]
    rfl
  rw [hLoop]
  cases hPop : s.q.popFirst with
  | none =>
    obtain ⟨s', hCall, hRead, -⟩ := getLoop_of_none (some size) hIdle hPop
    rw [SyncQueue.popUpTo_of_none size hPop]
    exact ⟨s', hCall, hRead⟩
  | some found =>
    obtain ⟨p, r, q'⟩ := found
    have hIndex := firstNonEmptyQueueIndex_of_some hPop
    obtain ⟨n, rfl⟩ := Nat.exists_eq_succ_of_ne_zero hSize.ne'
    have hSome : ((SyncQueue.popUpTo (n + 1) s.q.queues).1.map Prod.snd) ≠ [] := by
      rw [SyncQueue.popUpTo_of_some n hPop]
      simp
    refine ⟨_, by rw [State.getLoop, if_neg (by simp [hIndex])], rfl, ?_, _, rfl,
      filterMap_removed t _⟩
    rw [if_neg hSome]
    exact setPc_signalSend_idle _ hIdle

/--
**Batch reads equal repeated single reads.** In every state of the queue that is not cancelled,
whatever the other threads wait for, `GetItems(r, size, NULL)` and calls of `GetItem(NULL)` until
one returns `NULL` or `size` items have been obtained return the same items in the same order, and
leave the same queue and the same threads signalled.
-/
theorem getItems_eq_single_reads (s : State Tid T) (t : Tid) (size : Nat) (hIdle : s.pc t = .idle)
    (hOpen : s.q.cancel = false) (hSize : 0 < size) :
    ∃ s₁ s₂, step s (.getItems t size .null) = some s₁ ∧ getItemLoop t size s = some s₂ ∧
      s₁.itemsSince s = s₂.itemsSince s ∧ s₁.q = s₂.q ∧ s₁.pc = s₂.pc := by
  obtain ⟨s₁, hBatch, hRead₁⟩ := getItems_spec hIdle hOpen hSize
  obtain ⟨s₂, hSingle, hRead₂⟩ := getItemLoop_spec size hIdle hOpen
  rw [SyncQueue.popTimes_eq_popUpTo] at hRead₂
  refine ⟨s₁, s₂, hBatch, hSingle, ?_, ?_, ?_⟩
  · rw [hRead₁.itemsSince, hRead₂.itemsSince]
  · rw [hRead₁.q, hRead₂.q]
  · rw [hRead₁.pc, hRead₂.pc]

/-- Three items in two sub-queues, two of them asked for. -/
theorem getItems_eq_single_reads_two :
    ∃ s : State Bool Nat, s.q.queues.map (·.queue) = [[4], [5, 6]] ∧
      ∃ s₁ s₂, step s (.getItems true 2 .null) = some s₁ ∧ getItemLoop true 2 s = some s₂ ∧
        s₁.itemsSince s = s₂.itemsSince s ∧ s₁.q = s₂.q ∧ s₁.pc = s₂.pc := by
  refine ⟨initial ⟨[⟨1, 0, 0, 4, [4]⟩, ⟨0, 0, 0, 11, [5, 6]⟩], 0, 0, false⟩, rfl, ?_⟩
  exact getItems_eq_single_reads _ true 2 rfl rfl (by decide)

end Reading

-- ---------------------------------------------------------------------------
-- Writing
-- ---------------------------------------------------------------------------

section Writing

variable [Sized T]

namespace SimpleQueue

/-- The test of the wait loop of `PutItems`, for the first item. -/
def mustWait (q : SimpleQueue T) (itemSize : Int) : Bool :=
  (decide (q.maxItems > 0) && (q.queue.length : Int) == q.maxItems) ||
    (decide (q.maxSize > 0) && decide (toCounter T (q.queueSize + itemSize) > q.maxSize))

/-- `max`, for an array of `size` items. -/
def maxToPut (q : SimpleQueue T) (size : Nat) : Int :=
  let max := if q.maxItems > 0 then q.maxItems - q.queue.length else 0
  if max = 0 ∨ max > size then size else max

/-- The loop of `PutItems` that puts: how many of the items it puts. -/
def putUpTo : Nat → SimpleQueue T → List T → Nat
  | max + 1, q, r :: rs =>
    if toCounter T (q.queueSize + getSize r) ≤ q.maxSize then putUpTo max (q.putItem r)
      rs + 1 else 0
  | _, _, _ => 0

def putAll (q : SimpleQueue T) (rs : List T) : SimpleQueue T := rs.foldl putItem q

end SimpleQueue

/-- `PutItems`, for the array `r :: rs`: how many items it accepts, or `none` where it waits. It
fails where the priority does not exist. The iterator is dereferenced as in `PutItem`. -/
def SyncQueue.putItems (s : SyncQueue T) (r : T) (rs : List T) (timeout : Timeout)
    (priority : Int) :
    Option (Option Nat × SyncQueue T) :=
  if s.cancel then some (some 0, s)
  else
    match s.findQueue priority with
    | none => none      -- assert(iter != priority2queue.end())
    | some q =>
      if q.mustWait (getSize r) then
        if timeout = .null then some (some 0, s)
        else some (none, { s with waitingWriters := s.waitingWriters + 1 })
      else
        let i := q.putUpTo (q.maxToPut (r :: rs).length).toNat (r :: rs)
        some (some i, s.modifyQueue priority (·.putAll ((r :: rs).take i)))

/-- The last call put its item. -/
def State.accepted (s : State Tid T) : Bool :=
  match s.hist.getLast? with
  | some (.put _ _ _ result) => result
  | _ => false

/-- Calls `PutItem(r[i], NULL, priority)` one after the other until the first refusal, and how many
items were accepted. -/
def putItemLoop [DecidableEq Tid] (t : Tid) (priority : Int) :
    List T → State Tid T → Option (Nat × State Tid T)
  | [], s => some (0, s)
  | r :: rs, s =>
    (step s (.putItem t r .null priority)).bind fun s' =>
      if s'.accepted then (putItemLoop t priority rs s').map fun done => (done.1 + 1, done.2)
      else some (0, s')

/-- The batch and the single calls accept as many items, and leave the same queue. -/
def WrittenAlike [DecidableEq Tid] (s : State Tid T) (t : Tid) (priority : Int) (r : T)
    (rs : List T) :
    Prop :=
  ∃ n q' s', s.q.putItems r rs .null priority = some (some n, q') ∧
    putItemLoop t priority (r :: rs) s = some (n, s') ∧ q' = s'.q

namespace SimpleQueue

/-- How many of `size` items the limit of items lets in. -/
def room (q : SimpleQueue T) (size : Nat) : Nat :=
  if q.maxItems = 0 then size else min size (q.maxItems - q.queue.length).toNat

/-- The limits are read alike by `PutItem` and `PutItems`, for these items: there is a limit of
size, or the items that there is room for have no size, and nothing is counted. A negative limit
of items is none for `PutItems`; then the first item must be too large. -/
def LimitsAlike (q : SimpleQueue T) (r : T) (rs : List T) : Prop :=
  if q.maxItems < 0 then q.maxSize < q.queueSize + getSize r
  else
    q.maxSize = 0 → 0 < q.room (r :: rs).length →
      q.queueSize + (((r :: rs).take (q.room (r :: rs).length)).map getSize).sum ≤ 0

/-- How many of the items single calls put. -/
def accepted : SimpleQueue T → List T → Nat
  | _, [] => 0
  | q, r :: rs => if q.isSpaceFor (getSize r) then accepted (q.putItem r) rs + 1 else 0

/-- How many of the items a batch puts. -/
def batched (q : SimpleQueue T) (r : T) (rs : List T) : Nat :=
  if q.mustWait (getSize r) then 0
  else q.putUpTo (q.maxToPut (r :: rs).length).toNat (r :: rs)

theorem putUpTo_succ (max : Nat) (q : SimpleQueue T) (r : T) (rs : List T) :
    q.putUpTo (max + 1) (r :: rs) =
      if q.queueSize + getSize r ≤ q.maxSize then (q.putItem r).putUpTo max rs + 1 else 0 := rfl

/-- With a limit of size, `PutItems` goes as far as `PutItem` would. -/
theorem accepted_eq_putUpTo {q : SimpleQueue T} {rs : List T} (hItems : 0 ≤ q.maxItems)
    (hSize : q.maxSize ≠ 0) : q.accepted rs = q.putUpTo (q.room rs.length) rs := by
  induction rs generalizing q with
  | nil => cases q.room 0 <;> rfl
  | cons r rs ih =>
    have hNext : (q.putItem r).accepted rs =
      (q.putItem r).putUpTo ((q.putItem r).room rs.length) rs :=
      ih hItems hSize
    rw [accepted]
    by_cases hFull : q.maxItems ≠ 0 ∧ q.maxItems ≤ q.queue.length
    · -- no room for another item
      have hRoom : q.room (r :: rs).length = 0 := by
        rw [room, if_neg hFull.1]
        omega
      rw [hRoom, if_neg]
      · rfl
      · simp only [isSpaceFor, toCounter_sized, Bool.and_eq_true, Bool.or_eq_true, beq_iff_eq,
        decide_eq_true_eq]
        omega
    · have hRoom : q.room (r :: rs).length = (q.putItem r).room rs.length + 1 := by
        simp only [room, putItem, List.length_cons, List.length_append, List.length_nil]
        split_ifs <;> omega
      have hSpace : q.isSpaceFor (getSize r) = true ↔ q.queueSize + getSize r ≤ q.maxSize := by
        simp only [isSpaceFor, toCounter_sized, Bool.and_eq_true, Bool.or_eq_true, beq_iff_eq,
        decide_eq_true_eq]
        omega
      rw [hRoom, putUpTo_succ, hNext]
      simp only [hSpace]

/-- Without a limit of size, `PutItem` goes as far as there is room. -/
theorem accepted_eq_room {q : SimpleQueue T} {rs : List T} (hItems : 0 ≤ q.maxItems)
    (hSize : q.maxSize = 0) : q.accepted rs = q.room rs.length := by
  induction rs generalizing q with
  | nil => simp [accepted, room]
  | cons r rs ih =>
    have hNext : (q.putItem r).accepted rs = (q.putItem r).room rs.length := ih hItems hSize
    have hSpace : q.isSpaceFor (getSize r) = true ↔ q.maxItems = 0 ∨ q.queue.length <
      q.maxItems := by
      simp only [isSpaceFor, toCounter_sized, Bool.and_eq_true, Bool.or_eq_true, beq_iff_eq,
        decide_eq_true_eq]
      omega
    rw [accepted, hNext]
    simp only [hSpace, room, putItem, List.length_cons, List.length_append, List.length_nil]
    split_ifs <;> omega

/-- `PutItems` goes to the end of what there is room for only if all of it fits into a limit of
size of zero. -/
theorem putUpTo_eq_iff {q : SimpleQueue T} {rs : List T} {max : Nat} (hMax : max ≤ rs.length)
    (hPos : 0 < max) (hNonneg : ∀ r ∈ rs, 0 ≤ getSize r) :
    q.putUpTo max rs = max ↔ q.queueSize + ((rs.take max).map getSize).sum ≤ q.maxSize := by
  induction rs generalizing q max with
  | nil => exact absurd hMax (by simp; omega)
  | cons r rs ih =>
    obtain ⟨max, rfl⟩ := Nat.exists_eq_succ_of_ne_zero hPos.ne'
    have hTail : ∀ x ∈ rs, 0 ≤ getSize x := fun x hx => hNonneg x (List.mem_cons_of_mem _ hx)
    have hSum : 0 ≤ ((rs.take max).map getSize).sum := by
      refine List.sum_nonneg fun x hx => ?_
      obtain ⟨y, hy, rfl⟩ := List.mem_map.mp hx
      exact hTail y (List.mem_of_mem_take hy)
    rw [putUpTo_succ, List.take_succ_cons, List.map_cons, List.sum_cons]
    split_ifs with hFits
    · rw [Nat.succ_eq_add_one, Nat.add_right_cancel_iff]
      obtain rfl | hMore := Nat.eq_zero_or_pos max
      · refine iff_of_true ?_ (by simpa using hFits)
        cases rs <;> rfl
      · have hRest := ih (q := q.putItem r) (Nat.le_of_succ_le_succ hMax) hMore hTail
        rw [hRest, ← add_assoc]
        rfl
    · refine iff_of_false not_false ?_
      omega

theorem mustWait_iff {q : SimpleQueue T} {itemSize : Int} :
    q.mustWait itemSize = true ↔ (0 < q.maxItems ∧ (q.queue.length : Int) = q.maxItems) ∨
      (0 < q.maxSize ∧ q.maxSize < q.queueSize + itemSize) := by
  simp [mustWait]

/-- With a limit of items or none, the conditions of `PutItems` come to what its loop alone does
within the room that there is. -/
theorem batched_eq_putUpTo {q : SimpleQueue T} (r : T) (rs : List T) (hItems : 0 ≤ q.maxItems) :
    q.batched r rs = q.putUpTo (q.room (r :: rs).length) (r :: rs) := by
  rw [batched]
  split_ifs with hWait
  · rw [mustWait_iff] at hWait
    obtain ⟨hLimit, hFull⟩ | ⟨hLimit, hLarge⟩ := hWait
    · have hRoom : q.room (r :: rs).length = 0 := by
        rw [room, if_neg (by omega)]
        omega
      rw [hRoom]
      rfl
    · cases q.room (r :: rs).length with
      | zero => rfl
      | succ n => rw [putUpTo_succ, if_neg (by omega)]
  · rw [mustWait_iff, not_or] at hWait
    have hMax : (q.maxToPut (r :: rs).length).toNat = q.room (r :: rs).length := by
      simp only [maxToPut, room]
      split_ifs <;> omega
    rw [hMax]

/-- A negative limit of items is a limit for `PutItem` and none for `PutItems`. -/
theorem accepted_eq_batched_negative {q : SimpleQueue T} (r : T) (rs : List T)
    (hItems : q.maxItems < 0) :
    q.accepted (r :: rs) = q.batched r rs ↔ q.maxSize < q.queueSize + getSize r := by
  have hSpace : ¬ q.isSpaceFor (getSize r) = true := by
    simp only [isSpaceFor, toCounter_sized, Bool.and_eq_true, Bool.or_eq_true, beq_iff_eq,
        decide_eq_true_eq]
    omega
  have hMax : (q.maxToPut (r :: rs).length).toNat = rs.length + 1 := by
    have hNone : ¬ q.maxItems > 0 := by omega
    simp only [maxToPut, if_neg hNone, true_or, if_true, List.length_cons, Int.toNat_natCast]
  rw [accepted, if_neg hSpace, batched, hMax, putUpTo_succ]
  by_cases hLarge : q.maxSize < q.queueSize + getSize r
  · have hStop : ¬ q.queueSize + getSize r ≤ q.maxSize := by omega
    rw [if_neg hStop, ite_self]
    exact iff_of_true rfl hLarge
  · have hWait : ¬ q.mustWait (getSize r) = true := by
      rw [mustWait_iff]
      omega
    rw [if_neg hWait, if_pos (by omega)]
    exact iff_of_false (Nat.succ_ne_zero _).symm hLarge

theorem accepted_eq_batched_iff {q : SimpleQueue T} (r : T) (rs : List T)
    (hNonneg : ∀ x ∈ r :: rs, 0 ≤ getSize x) :
    q.accepted (r :: rs) = q.batched r rs ↔ q.LimitsAlike r rs := by
  rw [LimitsAlike]
  split_ifs with hNegative
  · exact accepted_eq_batched_negative r rs hNegative
  · have hItems : 0 ≤ q.maxItems := not_lt.mp hNegative
    rw [batched_eq_putUpTo r rs hItems]
    by_cases hSize : q.maxSize = 0
    · rw [accepted_eq_room hItems hSize]
      have hRoom : q.room (r :: rs).length ≤ (r :: rs).length := by
        rw [room]
        split_ifs <;> omega
      constructor
      · intro hAll _ hPos
        have hFits := (putUpTo_eq_iff hRoom hPos hNonneg).mp hAll.symm
        rwa [hSize] at hFits
      · intro hFits
        obtain hNone | hPos := Nat.eq_zero_or_pos (q.room (r :: rs).length)
        · rw [hNone]
          rfl
        · refine ((putUpTo_eq_iff hRoom hPos hNonneg).mpr ?_).symm
          rw [hSize]
          exact hFits hSize hPos
    · exact iff_of_true (accepted_eq_putUpTo hItems hSize) fun hZero => absurd hZero hSize

end SimpleQueue

-- ---------------------------------------------------------------------------
-- Calls of PutItem and PutItems
-- ---------------------------------------------------------------------------

/-- Nothing is put. -/
theorem modifyQueue_putAll_nil (s : SyncQueue T) (p : Int) : s.modifyQueue p (·.putAll []) = s := by
  simp [SyncQueue.modifyQueue, SimpleQueue.putAll]

/-- One item is put, and then others. -/
theorem modifyQueue_putAll_cons (s : SyncQueue T) (p : Int) (r : T) (rs : List T) :
    (s.modifyQueue p (·.putItem r)).modifyQueue p (·.putAll rs) =
      s.modifyQueue p (·.putAll (r :: rs)) := by
  simp only [SyncQueue.modifyQueue, List.map_map]
  congr 1
  refine List.map_congr_left fun q _ => ?_
  simp only [Function.comp_apply]
  split_ifs with hPrio hNext
  · rfl
  · exact absurd hPrio hNext
  · rfl

variable [DecidableEq Tid] {s : State Tid T} {t : Tid} {p : Int} {q : SimpleQueue T}

theorem step_putItem (r : T) (hIdle : s.pc t = .idle) (hOpen : s.q.cancel = false)
    (hFind : s.q.findQueue p = some q) :
    ∃ s', step s (.putItem t r .null p) = some s' ∧ s'.pc t = .idle ∧
      s'.accepted = q.isSpaceFor (getSize r) ∧
      s'.q = if q.isSpaceFor (getSize r) then s.q.modifyQueue p (·.putItem r) else s.q := by
  have hLoop : step s (.putItem t r .null p) = s.putLoop t r .null p := by
    simp only [step, hIdle, hOpen]
    rfl
  rw [hLoop, State.putLoop, hFind]
  dsimp only
  split_ifs with hSpace hWaits
  · refine ⟨_, rfl, Function.update_self .., ?_, rfl⟩
    simp [State.accepted, State.record, hSpace]
  · refine ⟨_, rfl, Function.update_self .., ?_, rfl⟩
    simp [State.accepted, State.record, hSpace]
  · exact absurd rfl hWaits

theorem putItemLoop_spec (rs : List T) (hIdle : s.pc t = .idle) (hOpen : s.q.cancel = false)
    (hFind : s.q.findQueue p = some q) :
    ∃ s', putItemLoop t p rs s = some (q.accepted rs, s') ∧
      s'.q = s.q.modifyQueue p (·.putAll (rs.take (q.accepted rs))) := by
  induction rs generalizing s q with
  | nil => exact ⟨s, rfl, (modifyQueue_putAll_nil s.q p).symm⟩
  | cons r rs ih =>
    obtain ⟨s₁, hStep, hIdle₁, hAccepted, hQ⟩ := step_putItem r hIdle hOpen hFind
    rw [putItemLoop, hStep, Option.bind_some, hAccepted, SimpleQueue.accepted]
    cases hSpace : q.isSpaceFor (getSize r) with
    | true =>
      rw [hSpace, if_pos rfl] at hQ
      have hOpen₁ : s₁.q.cancel = false := by
        rw [hQ]
        exact hOpen
      have hFind₁ : s₁.q.findQueue p = some (q.putItem r) := by
        have hPrio : q.priority = p := by simpa using List.find?_some hFind
        rw [hQ, SyncQueue.findQueue_putItem, hFind, Option.map_some, if_pos hPrio]
      obtain ⟨s', hLoop, hQ'⟩ := ih hIdle₁ hOpen₁ hFind₁
      refine ⟨s', by rw [if_pos rfl, if_pos rfl, hLoop]; rfl, ?_⟩
      rw [hQ', hQ, if_pos rfl, List.take_succ_cons]
      exact modifyQueue_putAll_cons ..
    | false =>
      rw [hSpace] at hQ
      refine ⟨s₁, rfl, ?_⟩
      rw [hQ]
      exact (modifyQueue_putAll_nil s.q p).symm

omit [DecidableEq Tid] in
theorem putItems_spec (r : T) (rs : List T) (hOpen : s.q.cancel = false)
    (hFind : s.q.findQueue p = some q) :
    s.q.putItems r rs .null p =
      some (some (q.batched r rs),
        s.q.modifyQueue p (·.putAll ((r :: rs).take (q.batched r rs)))) := by
  rw [SyncQueue.putItems, hOpen, hFind, SimpleQueue.batched]
  simp only [Bool.false_eq_true, if_false]
  split_ifs
  · rw [List.take_zero, modifyQueue_putAll_nil]
  · rfl

/--
**When batch writes equal repeated single writes.** In every state of the queue that is not
cancelled, for every existing priority, all limits and every array of items that have no negative
size, `PutItems(r, size, NULL, priority)` accepts as many items as calls of
`PutItem(r[i], NULL, priority)` until the first refusal, and leaves the same queue, if and only if
the limits are read alike for these items: there is a limit of size, or no size is counted and the
items that there is room for have no size. (A negative limit of items counts as none in
`PutItems`.)
-/
theorem putItems_eq_single_writes_iff (s : State Tid T) (t : Tid) (p : Int) (r : T) (rs : List T)
    (hIdle : s.pc t = .idle) (hOpen : s.q.cancel = false) (hFind : s.q.findQueue p = some q)
    (hNonneg : ∀ x ∈ r :: rs, 0 ≤ getSize x) :
    WrittenAlike s t p r rs ↔ q.LimitsAlike r rs := by
  obtain ⟨s', hSingle, hQ⟩ := putItemLoop_spec (r :: rs) hIdle hOpen hFind
  rw [← SimpleQueue.accepted_eq_batched_iff r rs hNonneg, WrittenAlike, hSingle,
    putItems_spec r rs hOpen hFind]
  constructor
  · rintro ⟨n, q', s'', hBatch, hLoop, -⟩
    have hBatched : q.batched r rs = n := Option.some.inj (Prod.mk.inj (Option.some.inj hBatch)).1
    have hAccepted : q.accepted (r :: rs) = n := (Prod.mk.inj (Option.some.inj hLoop)).1
    rw [hAccepted, hBatched]
  · intro hSame
    refine ⟨_, _, s', rfl, by rw [hSame], ?_⟩
    rw [hQ, hSame]

/-- Three items under a limit of size of ten, of which two fit. -/
theorem putItems_eq_single_writes_two :
    ∃ q : SyncQueue Nat, SyncQueue.build [(0, 0, 10)] = some q ∧
      WrittenAlike (initial q : State Bool Nat) true 0 4 [5, 3] := by
  refine ⟨⟨[.new 0 0 10], 0, 0, false⟩, rfl, ?_⟩
  refine (putItems_eq_single_writes_iff (q := .new 0 0 10) _ true 0 4 [5, 3] rfl rfl rfl ?_).mpr ?_
  · exact fun x _ => Int.natCast_nonneg x
  · exact fun hZero => absurd hZero (by decide)

/-- Without a limit of size, `PutItems` refuses an item of size 1, and `PutItem` takes it. -/
theorem putItems_refuses_unlimited :
    ∃ q : SyncQueue Nat, SyncQueue.build [(0, 0, 0)] = some q ∧
      (q.putItems 1 [] .null 0).map Prod.fst = some (some 0) ∧
      (putItemLoop true 0 [1] (initial q : State Bool Nat)).map Prod.fst = some 1 ∧
      ¬ WrittenAlike (initial q : State Bool Nat) true 0 1 [] := by
  refine ⟨⟨[.new 0 0 0], 0, 0, false⟩, rfl, rfl, rfl, ?_⟩
  rintro ⟨n, q', s', hBatch, hSingle, -⟩
  have hNone : some (some 0) = some (some n) := congrArg (Option.map Prod.fst) hBatch
  have hOne : some 1 = some n := congrArg (Option.map Prod.fst) hSingle
  cases hNone
  cases hOne

end Writing

end HectorCore.Queue
