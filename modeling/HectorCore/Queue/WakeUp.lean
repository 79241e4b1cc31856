import HectorCore.Queue.SyncQueue
import HectorCore.Lib.Run
import Mathlib.Data.Finset.Card

/-!
# SyncQueue — no lost wake-ups

A thread that sleeps in `WaitRecv` or `WaitSend` without a signal sleeps for a reason that
still holds. `Waits` is the invariant that says it:

* a reader without a signal sees only empty sub-queues: whatever puts an item broadcasts on
  the condition of the readers;
* a writer without a signal sees no room in its own sub-queue: whatever takes an item
  broadcasts on the condition of the writers, and a put only takes room away;
* `waitingWriters` counts the writers that wait. `Stop` makes room without a signal, but
  only after that counter has reached zero.

What a put takes away is never negative as long as no item has a negative size; every
`GetSize` of the repository is a `sizeof`, a length or 1.

Main result: `syncQueue_no_lost_wakeup`.
-/

namespace HectorCore.Queue

open HectorCore.Lib

variable {Tid T : Type}

-- ---------------------------------------------------------------------------
-- Room in a sub-queue
-- ---------------------------------------------------------------------------

section Room

variable [Sized T]

/-- Another item takes room away. -/
theorem isSpaceFor_putItem {q : SimpleQueue T} {r : T} {size : Int} (hSize : 0 ≤ getSize r)
    (hFull : q.isSpaceFor size = false) : (q.putItem r).isSpaceFor size = false := by
  simp only [SimpleQueue.isSpaceFor, SimpleQueue.putItem, toCounter_sized, Bool.and_eq_false_iff,
    Bool.or_eq_false_iff, beq_eq_false_iff_ne, decide_eq_false_iff_not, List.length_append,
    List.length_singleton] at hFull ⊢
  rcases hFull with ⟨hMax, hItems⟩ | ⟨hMax, hBytes⟩
  · left
    refine ⟨hMax, ?_⟩
    push_cast
    omega
  · right
    refine ⟨hMax, decide_eq_false fun hLe => hBytes ?_⟩
    omega

end Room

-- ---------------------------------------------------------------------------
-- The invariant
-- ---------------------------------------------------------------------------

/-- The sub-queue of the priority has no room for an item of this size. -/
def NoRoom [Sized T] (q : SyncQueue T) (p size : Int) : Prop :=
  ∃ x, q.findQueue p = some x ∧ x.isSpaceFor size = false

/-- The thread is inside `WaitSend`. -/
def Pc.Sending (pc : Pc T) : Prop := ∃ r timeout p sig, pc = .waitSend r timeout p sig

structure Waits [Sized T] (s : State Tid T) : Prop where
  readers : ∀ t size timeout, s.pc t = .waitRecv size timeout false →
    ∀ q ∈ s.q.queues, q.queue = []
  writers : ∀ t r timeout p, s.pc t = .waitSend r timeout p false → NoRoom s.q p (getSize r)
  counted : ∃ W : Finset Tid, (∀ t, t ∈ W ↔ (s.pc t).Sending) ∧
    s.q.waitingWriters = W.card

-- ---------------------------------------------------------------------------
-- Signals
-- ---------------------------------------------------------------------------

/-- Behind the signal nobody waits for one. -/
theorem signalSend_ne_unsignalled (pc : Pc T) (r : T) (timeout : Timeout) (p : Int) :
    pc.signalSend ≠ .waitSend r timeout p false := by
  cases pc <;> simp [Pc.signalSend]

theorem signalRecv_ne_unsignalled (pc : Pc T) (size : Option Nat) (timeout : Timeout) :
    pc.signalRecv ≠ .waitRecv size timeout false := by
  cases pc <;> simp [Pc.signalRecv]

/-- A broadcast to the writers is no news for a reader. -/
theorem signalSend_eq_waitRecv {pc : Pc T} {size : Option Nat} {timeout : Timeout} {sig : Bool} :
    pc.signalSend = .waitRecv size timeout sig ↔ pc = .waitRecv size timeout sig := by
  cases pc <;> simp [Pc.signalSend]

/-- A broadcast to the readers is no news for a writer. -/
theorem signalRecv_eq_waitSend {pc : Pc T} {r : T} {timeout : Timeout} {p : Int} {sig : Bool} :
    pc.signalRecv = .waitSend r timeout p sig ↔ pc = .waitSend r timeout p sig := by
  cases pc <;> simp [Pc.signalRecv]

theorem sending_signalSend {pc : Pc T} : pc.signalSend.Sending ↔ pc.Sending := by
  cases pc <;> simp [Pc.signalSend, Pc.Sending]

theorem sending_signalRecv {pc : Pc T} : pc.signalRecv.Sending ↔ pc.Sending := by
  cases pc <;> simp [Pc.signalRecv, Pc.Sending]

section Steps

variable [DecidableEq Tid] [Sized T]

omit [DecidableEq Tid] in
/-- Whoever takes items wakes all writers, and leaves no more than there was. -/
theorem waits_taken {s : State Tid T} (qs : List (SimpleQueue T)) (h : Waits s)
    (hLess : (∀ q ∈ s.q.queues, q.queue = []) → ∀ q ∈ qs, q.queue = []) :
    Waits (s.setQ { s.q with queues := qs }).signalSend := by
  obtain ⟨W, hW, hCard⟩ := h.counted
  refine ⟨?_, ?_, W, ?_, hCard⟩
  · intro t size timeout hPc
    exact hLess (h.readers t size timeout (signalSend_eq_waitRecv.mp hPc))
  · intro t r timeout p hPc
    exact absurd hPc (signalSend_ne_unsignalled _ _ _ _)
  · intro t
    rw [hW t]
    exact sending_signalSend.symm

omit [DecidableEq Tid] in
theorem waits_signalSend {s : State Tid T} (h : Waits s) : Waits s.signalSend :=
  waits_taken s.q.queues h id

omit [DecidableEq Tid] in
theorem waits_signalRecv {s : State Tid T} (h : Waits s) : Waits s.signalRecv := by
  obtain ⟨W, hW, hCard⟩ := h.counted
  refine ⟨?_, ?_, W, ?_, hCard⟩
  · intro t size timeout hPc
    exact absurd hPc (signalRecv_ne_unsignalled _ _ _)
  · intro t r timeout p hPc
    exact h.writers t r timeout p (signalRecv_eq_waitSend.mp hPc)
  · intro t
    rw [hW t]
    exact sending_signalRecv.symm

-- ---------------------------------------------------------------------------
-- A thread that moves
-- ---------------------------------------------------------------------------

/-- What the thread counts for in `waitingWriters`. -/
def Pc.sending : Pc T → Int
  | .waitSend .. => 1
  | _ => 0

omit [DecidableEq Tid] [Sized T] in
theorem Pc.Sending.sending_eq {pc : Pc T} (h : pc.Sending) : pc.sending = 1 := by
  obtain ⟨r, timeout, p, sig, rfl⟩ := h
  rfl

omit [DecidableEq Tid] [Sized T] in
theorem sending_eq_zero {pc : Pc T} (h : ¬ pc.Sending) : pc.sending = 0 := by
  cases pc with
  | waitSend r timeout p sig => exact absurd ⟨r, timeout, p, sig, rfl⟩ h
  | _ => rfl

/-- It depends on the sub-queues only. -/
theorem NoRoom.of_queues {q q' : SyncQueue T} {p size : Int} (h : NoRoom q p size)
    (hQueues : q'.queues = q.queues) : NoRoom q' p size := by
  obtain ⟨x, hFind, hFull⟩ := h
  refine ⟨x, ?_, hFull⟩
  rw [SyncQueue.findQueue, hQueues]
  exact hFind

/-- One thread moves: it may go to sleep for a good reason, and the counter counts it in or out. -/
theorem Waits.turn {s s' : State Tid T} {t : Tid} (h : Waits s)
    (hOthers : ∀ u, u ≠ t → s'.pc u = s.pc u) (hQueues : s'.q.queues = s.q.queues)
    (hReader : ∀ size timeout, s'.pc t = .waitRecv size timeout false →
      ∀ q ∈ s.q.queues, q.queue = [])
    (hWriter : ∀ r timeout p, s'.pc t = .waitSend r timeout p false → NoRoom s.q p (getSize r))
    (hCount : s'.q.waitingWriters = s.q.waitingWriters - (s.pc t).sending + (s'.pc t).sending) :
    Waits s' := by
  obtain ⟨W, hW, hCard⟩ := h.counted
  have hErase : ((W.erase t).card : Int) = W.card - (s.pc t).sending := by
    by_cases hSend : (s.pc t).Sending
    · have hMem : t ∈ W := (hW t).mpr hSend
      have hPos : 0 < W.card := Finset.card_pos.mpr ⟨t, hMem⟩
      rw [Finset.card_erase_of_mem hMem, hSend.sending_eq]
      omega
    · rw [Finset.erase_eq_of_notMem fun hMem => hSend ((hW t).mp hMem), sending_eq_zero hSend,
        Int.sub_zero]
  refine ⟨?_, ?_, ?_⟩
  · intro u size timeout hPc
    rw [hQueues]
    by_cases hu : u = t
    · exact hReader size timeout (hu ▸ hPc)
    · exact h.readers u size timeout (hOthers u hu ▸ hPc)
  · intro u r timeout p hPc
    refine NoRoom.of_queues ?_ hQueues
    by_cases hu : u = t
    · exact hWriter r timeout p (hu ▸ hPc)
    · exact h.writers u r timeout p (hOthers u hu ▸ hPc)
  · by_cases hSend : (s'.pc t).Sending
    · refine ⟨insert t (W.erase t), ?_, ?_⟩
      · intro u
        rw [Finset.mem_insert, Finset.mem_erase]
        by_cases hu : u = t
        · subst hu
          simp [hSend]
        · rw [hOthers u hu, ← hW u]
          simp [hu]
      · rw [Finset.card_insert_of_notMem (Finset.notMem_erase t W), hCount, hCard,
          hSend.sending_eq]
        push_cast
        rw [hErase]
    · refine ⟨W.erase t, ?_, ?_⟩
      · intro u
        rw [Finset.mem_erase]
        by_cases hu : u = t
        · subst hu
          simp [hSend]
        · rw [hOthers u hu, ← hW u]
          simp [hu]
      · rw [hCount, hCard, sending_eq_zero hSend, hErase, Int.add_zero]

omit [Sized T] in
/-- A step moves one thread. -/
theorem setPc_others (s : State Tid T) (t : Tid) (pc : Pc T) :
    ∀ u, u ≠ t → (s.setPc t pc).pc u = s.pc u :=
  fun _ hu => Function.update_of_ne hu _ _

omit [Sized T] in
theorem setPc_self (s : State Tid T) (t : Tid) (pc : Pc T) : (s.setPc t pc).pc t = pc :=
  Function.update_self ..

/-- A thread that is no waiting writer may go anywhere but to sleep. -/
theorem waits_setPc {s : State Tid T} {t : Tid} {pc : Pc T} (h : Waits s)
    (hOut : ¬ (s.pc t).Sending) (hRecv : ∀ size timeout, pc ≠ .waitRecv size timeout false)
    (hSend : ¬ pc.Sending) :
    Waits (s.setPc t pc) := by
  refine h.turn (setPc_others s t pc) rfl ?_ ?_ ?_
  · intro size timeout hPc
    rw [setPc_self] at hPc
    exact absurd hPc (hRecv size timeout)
  · intro r timeout p hPc
    rw [setPc_self] at hPc
    exact absurd ⟨r, timeout, p, false, hPc⟩ hSend
  · rw [setPc_self, sending_eq_zero hOut, sending_eq_zero hSend]
    show s.q.waitingWriters = s.q.waitingWriters - 0 + 0
    omega

omit [DecidableEq Tid] in
theorem waits_record {s : State Tid T} (es : List (Event Tid T)) (h : Waits s) :
    Waits (s.record es) := ⟨h.readers, h.writers, h.counted⟩

/-- A thread that leaves its wait takes itself out of the count. -/
theorem waits_arrives {s s₀ : State Tid T} {t : Tid} (h : Waits s) (hAt : Arrives s t s₀) :
    Waits (s₀.setPc t .idle) := by
  have hQueues : s₀.q.queues = s.q.queues := by cases hAt <;> rfl
  refine h.turn (t := t) ?_ hQueues ?_ ?_ ?_
  · intro u hu
    rw [setPc_others s₀ t .idle u hu, hAt.pc_eq]
  · intro size timeout hPc
    rw [setPc_self] at hPc
    cases hPc
  · intro r timeout p hPc
    rw [setPc_self] at hPc
    cases hPc
  · rw [setPc_self]
    cases hAt with
    | enters hPc =>
      rw [hPc]
      show s.q.waitingWriters = s.q.waitingWriters - 0 + 0
      omega
    | fromSend hPc =>
      rw [hPc]
      show s.q.waitingWriters - 1 = s.q.waitingWriters - 1 + 0
      omega
    | fromRecv hPc =>
      rw [hPc]
      show s.q.waitingWriters = s.q.waitingWriters - 0 + 0
      omega

omit [Sized T] in
theorem setPc_setPc (s : State Tid T) (t : Tid) (pc pc' : Pc T) :
    (s.setPc t pc).setPc t pc' = s.setPc t pc' := by
  simp [State.setPc]

-- ---------------------------------------------------------------------------
-- The loops
-- ---------------------------------------------------------------------------

omit [DecidableEq Tid] in
/-- A put keeps every sleeping writer without room, and wakes all readers. -/
theorem waits_put {s : State Tid T} {r : T} {p : Int} (hSize : ∀ r : T, 0 ≤ getSize r)
    (h : Waits s) : Waits (s.setQ (s.q.modifyQueue p (·.putItem r))).signalRecv := by
  obtain ⟨W, hW, hCard⟩ := h.counted
  refine ⟨?_, ?_, W, ?_, hCard⟩
  · intro t size timeout hPc
    exact absurd hPc (signalRecv_ne_unsignalled _ _ _)
  · intro t r' timeout p' hPc
    obtain ⟨x, hFind, hFull⟩ := h.writers t r' timeout p' (signalRecv_eq_waitSend.mp hPc)
    refine ⟨if x.priority = p then x.putItem r else x, ?_, ?_⟩
    · show (s.q.modifyQueue p (·.putItem r)).findQueue p' = _
      rw [SyncQueue.findQueue_putItem, hFind, Option.map_some]
    · split
      · exact isSpaceFor_putItem (hSize r) hFull
      · exact hFull
  · intro t
    rw [hW t]
    exact sending_signalRecv.symm

/-- A writer that finds no room goes to sleep and is counted. -/
theorem waits_sleepSend {s : State Tid T} {t : Tid} {r : T} {p : Int} (timeout : Timeout)
    (h : Waits s) (hIdle : s.pc t = .idle) (hFull : NoRoom s.q p (getSize r)) :
    Waits ((s.setQ { s.q with waitingWriters := s.q.waitingWriters + 1 }).setPc t
      (.waitSend r timeout p false)) := by
  refine h.turn (t := t) (setPc_others _ t _) rfl ?_ ?_ ?_
  · intro size timeout' hPc
    rw [setPc_self] at hPc
    cases hPc
  · intro r' timeout' p' hPc
    rw [setPc_self] at hPc
    cases hPc
    exact hFull
  · rw [setPc_self, hIdle]
    show s.q.waitingWriters + 1 = s.q.waitingWriters - 0 + 1
    omega

/-- A reader that finds nothing goes to sleep. -/
theorem waits_sleepRecv {s : State Tid T} {t : Tid} (size : Option Nat) (timeout : Timeout)
    (h : Waits s) (hIdle : s.pc t = .idle) (hNone : ∀ q ∈ s.q.queues, q.queue = []) :
    Waits ((s.setQ { s.q with waitingReaders := s.q.waitingReaders + 1 }).setPc t
      (.waitRecv size timeout false)) := by
  refine h.turn (t := t) (setPc_others _ t _) rfl ?_ ?_ ?_
  · intro size' timeout' hPc
    exact hNone
  · intro r timeout' p hPc
    rw [setPc_self] at hPc
    cases hPc
  · rw [setPc_self, hIdle]
    show s.q.waitingWriters = s.q.waitingWriters - 0 + 0
    omega

omit [Sized T] in
/-- A broadcast does not reach a thread that is outside. -/
theorem signalRecv_setPc_idle (s : State Tid T) (t : Tid) :
    s.signalRecv.setPc t .idle = (s.setPc t .idle).signalRecv := by
  simp only [State.signalRecv, State.setPc, State.mk.injEq, true_and, and_true]
  funext u
  by_cases hu : u = t
  · subst hu
    simp only [Function.update_self]
    rfl
  · simp only [Function.update_of_ne hu]

omit [Sized T] in
theorem signalSend_setPc_idle (s : State Tid T) (t : Tid) :
    s.signalSend.setPc t .idle = (s.setPc t .idle).signalSend := by
  simp only [State.signalSend, State.setPc, State.mk.injEq, true_and, and_true]
  funext u
  by_cases hu : u = t
  · subst hu
    simp only [Function.update_self]
    rfl
  · simp only [Function.update_of_ne hu]

/-- The loop of `PutItem`: whoever comes to wait finds no room. -/
theorem waits_putLoop {s s' : State Tid T} {t : Tid} {r : T} {timeout : Timeout} {p : Int}
    (hSize : ∀ r : T, 0 ≤ getSize r) (h : Waits (s.setPc t .idle))
    (hLoop : s.putLoop t r timeout p = some s') : Waits s' := by
  unfold State.putLoop at hLoop
  split at hLoop
  · cases hLoop
  · rename_i q hFind
    split_ifs at hLoop with hSpace hNull
    · obtain rfl := Option.some.inj hLoop
      apply waits_record
      rw [signalRecv_setPc_idle]
      exact waits_put hSize h
    · obtain rfl := Option.some.inj hLoop
      exact waits_record _ h
    · obtain rfl := Option.some.inj hLoop
      have hSleep := waits_sleepSend (r := r) (p := p) timeout h (Function.update_self ..)
        ⟨q, hFind, eq_false_of_ne_true hSpace⟩
      rwa [← setPc_setPc _ t .idle]

omit [Sized T] in
/-- The test of `GetItem` and `GetItems` fails exactly when every sub-queue is empty. -/
theorem firstNonEmptyQueueIndex_isNone {q : SyncQueue T} :
    q.firstNonEmptyQueueIndex.isNone = true ↔ ∀ x ∈ q.queues, x.queue = [] := by
  rw [SyncQueue.firstNonEmptyQueueIndex, Option.isNone_iff_eq_none, List.findIdx?_eq_none_iff]
  refine forall₂_congr fun x _ => ?_
  rw [decide_eq_false_iff_not, Nat.pos_iff_ne_zero, ne_eq, not_not, List.length_eq_zero_iff]

/-- The loop of `GetItem`: whoever comes to wait finds nothing. -/
theorem waits_getLoop {s s' : State Tid T} {t : Tid} {size : Option Nat} {timeout : Timeout}
    (h : Waits (s.setPc t .idle)) (hLoop : s.getLoop t size timeout = some s') : Waits s' := by
  unfold State.getLoop at hLoop
  split_ifs at hLoop with hNone hNull
  · obtain rfl := Option.some.inj hLoop
    exact waits_record _ h
  · obtain rfl := Option.some.inj hLoop
    have hSleep := waits_sleepRecv size timeout h (Function.update_self ..)
      (firstNonEmptyQueueIndex_isNone.mp hNone)
    rwa [← setPc_setPc _ t .idle]
  · -- there is something to take, so no reader can be waiting without a signal
    have hSome : ¬ ∀ x ∈ s.q.queues, x.queue = [] := fun hAll =>
      hNone (firstNonEmptyQueueIndex_isNone.mpr hAll)
    cases size with
    | none =>
      obtain ⟨⟨p, r, q'⟩, hPop, rfl⟩ := Option.map_eq_some_iff.mp hLoop
      simp only [SyncQueue.popFirst, Option.bind_eq_bind, Option.bind_eq_some_iff,
        Option.pure_def, Option.some.injEq, Prod.exists, Prod.mk.injEq] at hPop
      obtain ⟨i, -, q, -, r', q₁, -, -, -, rfl⟩ := hPop
      apply waits_record
      rw [signalSend_setPc_idle]
      exact waits_taken _ h fun hAll => absurd hAll hSome
    | some n =>
      obtain rfl := Option.some.inj hLoop
      apply waits_record
      rw [signalSend_setPc_idle]
      exact waits_taken _ h fun hAll => absurd hAll hSome

-- ---------------------------------------------------------------------------
-- Stop
-- ---------------------------------------------------------------------------

/-- `Stop` wakes whoever waits. -/
theorem waits_stopWritersLoop {s : State Tid T} {t : Tid} (h : Waits (s.setPc t .idle)) :
    Waits (s.stopWritersLoop t) := by
  unfold State.stopWritersLoop
  split_ifs with hWaiting
  · rw [← setPc_setPc _ t .idle, signalSend_setPc_idle]
    refine waits_setPc (waits_signalSend h) ?_ (by simp) (by simp [Pc.Sending])
    rw [← signalSend_setPc_idle]
    simp [State.setPc, Pc.Sending]
  · -- no writer waits any more, so room that nobody is told about hurts nobody
    apply waits_record
    obtain ⟨W, hW, hCard⟩ := h.counted
    have hNoWriter : ∀ u, ¬ ((s.setPc t .idle).pc u).Sending := by
      intro u hSend
      have hPos : 0 < W.card := Finset.card_pos.mpr ⟨u, (hW u).mpr hSend⟩
      have hCard' : s.q.waitingWriters = W.card := hCard
      omega
    refine ⟨?_, ?_, W, hW, hCard⟩
    · intro u size timeout hPc x hx
      obtain ⟨y, -, rfl⟩ := List.mem_map.mp hx
      rfl
    · intro u r timeout p hPc
      exact absurd ⟨r, timeout, p, false, hPc⟩ (hNoWriter u)

theorem waits_stopReadersLoop {s : State Tid T} {t : Tid} (h : Waits (s.setPc t .idle)) :
    Waits (s.stopReadersLoop t) := by
  unfold State.stopReadersLoop
  split_ifs with hWaiting
  · rw [← setPc_setPc _ t .idle, signalRecv_setPc_idle]
    refine waits_setPc (waits_signalRecv h) ?_ (by simp) (by simp [Pc.Sending])
    rw [← signalRecv_setPc_idle]
    simp [State.setPc, Pc.Sending]
  · exact waits_stopWritersLoop h

-- ---------------------------------------------------------------------------
-- Every run
-- ---------------------------------------------------------------------------

/-- No step loses a signal. -/
theorem waits_step {s s' : State Tid T} {l : Label Tid T} (hSize : ∀ r : T, 0 ≤ getSize r)
    (h : Waits s) (hStep : step s l = some s') : Waits s' := by
  cases moves_of_step hStep with
  | gaveUp hAt hFail => exact waits_record _ (waits_arrives h hAt)
  | put hAt hOpen hLoop => exact waits_putLoop hSize (waits_arrives h hAt) hLoop
  | get hAt hOpen hLoop => exact waits_getLoop (waits_arrives h hAt) hLoop
  | stop hPc =>
    exact waits_stopReadersLoop (s := s.setQ { s.q with cancel := true })
      (waits_arrives (s := s.setQ { s.q with cancel := true })
        ⟨h.readers, h.writers, h.counted⟩ (.enters hPc))
  | stopReaders hPc =>
    refine waits_stopReadersLoop (waits_setPc h ?_ (by simp) (by simp [Pc.Sending]))
    simp [hPc, Pc.Sending]
  | stopWriters hPc =>
    refine waits_stopWritersLoop (waits_setPc h ?_ (by simp) (by simp [Pc.Sending]))
    simp [hPc, Pc.Sending]
  | restart => exact waits_record _ ⟨h.readers, h.writers, h.counted⟩

end Steps

/-- In the beginning nobody waits. -/
theorem waits_initial [Sized T] {q : SyncQueue T} (hCount : q.waitingWriters = 0) :
    Waits (initial q : State Tid T) := by
  refine ⟨?_, ?_, ∅, ?_, ?_⟩
  · intro t size timeout hPc
    cases hPc
  · intro t r timeout p hPc
    cases hPc
  · intro t
    simp [initial, Pc.Sending]
  · exact hCount

/--
**No lost wake-up.** Take any sub-queues, any number of threads and any schedule of their
critical sections, `Start` and `Stop` included, ending in the state `s`.

* A reader that sleeps in `WaitRecv` and has not been signalled since it tested its condition
  sleeps over empty sub-queues only.
* A writer that sleeps in `WaitSend` and has not been signalled sleeps over a sub-queue
  without room for its item.
-/
theorem syncQueue_no_lost_wakeup [DecidableEq Tid] [Sized T]
    (hSize : ∀ r : T, 0 ≤ getSize r) (subqueues : List (Int × Int × Int)) {q : SyncQueue T}
    (hBuild : SyncQueue.build subqueues = some q) (schedule : List (Label Tid T))
    {s : State Tid T} (hRun : run step (initial q) schedule = some s) :
    (∀ t size timeout, s.pc t = .waitRecv size timeout false →
      ∀ x ∈ s.q.queues, x.queue = []) ∧
    (∀ t r timeout p, s.pc t = .waitSend r timeout p false →
      ∃ x, s.q.findQueue p = some x ∧ x.isSpaceFor (getSize r) = false) := by
  have hWaits : Waits s := run_invariant Waits
    (fun _ _ _ h hStep => waits_step hSize h hStep) hRun
    (waits_initial (SyncQueue.build_idle hBuild).2)
  exact ⟨hWaits.readers, hWaits.writers⟩

/-- A sub-queue for one item, and a second writer: it sleeps, and there is no room for it. -/
theorem syncQueue_no_lost_wakeup_second_writer :
    ∃ (q : SyncQueue Nat) (s : State Bool Nat), SyncQueue.build [(0, 1, 0)] = some q ∧
      run step (initial q) [.putItem true 7 .null 0, .putItem false 8 .forever 0] = some s ∧
      s.pc false = .waitSend 8 .forever 0 false ∧
      ∃ x, s.q.findQueue 0 = some x ∧ x.isSpaceFor 8 = false := by
  refine ⟨_, _, rfl, rfl, rfl, ?_⟩
  exact (syncQueue_no_lost_wakeup (fun r => Int.natCast_nonneg r) [(0, 1, 0)] rfl
    [.putItem true 7 .null 0, .putItem false 8 .forever 0] rfl).2 false 8 .forever 0 rfl

end HectorCore.Queue
