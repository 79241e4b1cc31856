import HectorCore.Queue.WakeUp
import HectorCore.Lib.Census

/-!
# SyncQueue — a stopped queue stays empty and closed

`Stop` gives up the lock again and again while it waits for the threads that sleep in the queue.
Between these moments anything can happen that the lock allows.

* `Counted` — `waitingReaders` and `waitingWriters` are the numbers of threads inside `WaitRecv`
  and `WaitSend`. Every critical section keeps it: `Lands` says once for all of them where the
  thread goes and what it adds to the counters.
* `Closing` — how far the `Stop` of a thread has come, as long as nobody calls `Start`. With
  `cancel` set a thread only leaves, so that a counter that has reached zero stays there.

Main result: `syncQueue_stopped`.
-/

namespace HectorCore.Queue

open HectorCore.Lib

variable {Tid T : Type}

-- ---------------------------------------------------------------------------
-- The counters
-- ---------------------------------------------------------------------------

/-- What the thread counts for in `waitingReaders`. -/
def Pc.receiving : Pc T → Int
  | .waitRecv .. => 1
  | _ => 0

/-- The counters are right. -/
structure Counted (s : State Tid T) : Prop where
  readers : Census (fun t => (s.pc t).receiving = 1) s.q.waitingReaders
  writers : Census (fun t => (s.pc t).sending = 1) s.q.waitingWriters

/-- A thread counts once, or not at all. -/
theorem receiving_eq_ite (pc : Pc T) : pc.receiving = if pc.receiving = 1 then 1 else 0 := by
  cases pc <;> rfl

theorem sending_eq_ite (pc : Pc T) : pc.sending = if pc.sending = 1 then 1 else 0 := by
  cases pc <;> rfl

@[simp] theorem receiving_signalSend (pc : Pc T) : pc.signalSend.receiving = pc.receiving := by
  cases pc <;> rfl

@[simp] theorem receiving_signalRecv (pc : Pc T) : pc.signalRecv.receiving = pc.receiving := by
  cases pc <;> rfl

@[simp] theorem sending_signalSend_eq (pc : Pc T) : pc.signalSend.sending = pc.sending := by
  cases pc <;> rfl

@[simp] theorem sending_signalRecv_eq (pc : Pc T) : pc.signalRecv.sending = pc.sending := by
  cases pc <;> rfl

section Steps

variable [DecidableEq Tid]

/-- Thread `t`, which the counters of `s` do not count, goes where it is in `s'`. -/
structure Lands (s s' : State Tid T) (t : Tid) : Prop where
  others : ∀ u, u ≠ t →
    (s'.pc u).receiving = (s.pc u).receiving ∧ (s'.pc u).sending = (s.pc u).sending
  readers : s'.q.waitingReaders = s.q.waitingReaders + (s'.pc t).receiving
  writers : s'.q.waitingWriters = s.q.waitingWriters + (s'.pc t).sending

/-- A thread that leaves its wait takes itself out of the counters. -/
structure Leaves (s s₀ : State Tid T) (t : Tid) : Prop where
  pc_eq : s₀.pc = s.pc
  readers : s₀.q.waitingReaders = s.q.waitingReaders - (s.pc t).receiving
  writers : s₀.q.waitingWriters = s.q.waitingWriters - (s.pc t).sending

omit [DecidableEq Tid] in
/-- Whoever comes to a loop from a wait leaves the wait first. -/
theorem leaves_of_arrives {s s₀ : State Tid T} {t : Tid} (h : Arrives s t s₀) : Leaves s s₀ t := by
  cases h with
  | enters hPc => exact ⟨rfl, by simp [hPc, Pc.receiving], by simp [hPc, Pc.sending]⟩
  | fromSend hPc =>
    exact ⟨rfl, by simp [hPc, Pc.receiving, State.setQ], by simp [hPc, Pc.sending, State.setQ]⟩
  | fromRecv hPc =>
    exact ⟨rfl, by simp [hPc, Pc.receiving, State.setQ], by simp [hPc, Pc.sending, State.setQ]⟩

/-- A turn: the thread leaves where it was, and lands somewhere. -/
theorem Counted.turn {s s₀ s' : State Tid T} {t : Tid} (h : Counted s) (hLeaves : Leaves s s₀ t)
    (hLands : Lands s₀ s' t) : Counted s' := by
  have hOthers := hLands.others
  rw [hLeaves.pc_eq] at hOthers
  refine ⟨h.readers.change (a := t) ?_ ?_, h.writers.change (a := t) ?_ ?_⟩
  · intro u hu
    rw [(hOthers u hu).1]
  · rw [hLands.readers, hLeaves.readers, ← receiving_eq_ite, ← receiving_eq_ite]
  · intro u hu
    rw [(hOthers u hu).2]
  · rw [hLands.writers, hLeaves.writers, ← sending_eq_ite, ← sending_eq_ite]

-- ---------------------------------------------------------------------------
-- Where the loops lead
-- ---------------------------------------------------------------------------

/-- The thread goes outside, and nothing else happens. -/
theorem lands_gaveUp (s : State Tid T) (t : Tid) (es : List (Event Tid T)) :
    Lands s ((s.setPc t .idle).record es) t := by
  refine ⟨?_, ?_, ?_⟩
  · intro u hu
    simp [State.record, setPc_others s t .idle u hu]
  · simp [State.record, State.setPc, Pc.receiving]
  · simp [State.record, State.setPc, Pc.sending]

omit [DecidableEq Tid] in
/-- The thread goes outside, or between two passes of `Stop`, after a change of the sub-queues
and a broadcast. -/
theorem Lands.of_zero {s s' : State Tid T} {t : Tid}
    (hReaders : s'.q.waitingReaders = s.q.waitingReaders)
    (hWriters : s'.q.waitingWriters = s.q.waitingWriters)
    (hSelf : (s'.pc t).receiving = 0 ∧ (s'.pc t).sending = 0)
    (hOthers : ∀ u, u ≠ t →
      s'.pc u = s.pc u ∨ s'.pc u = (s.pc u).signalSend ∨ s'.pc u = (s.pc u).signalRecv) :
    Lands s s' t := by
  refine ⟨?_, ?_, ?_⟩
  · intro u hu
    rcases hOthers u hu with hPc | hPc | hPc
    · rw [hPc]
      exact ⟨rfl, rfl⟩
    · rw [hPc]
      exact ⟨receiving_signalSend _, sending_signalSend_eq _⟩
    · rw [hPc]
      exact ⟨receiving_signalRecv _, sending_signalRecv_eq _⟩
  · rw [hReaders, hSelf.1, Int.add_zero]
  · rw [hWriters, hSelf.2, Int.add_zero]

variable [Measured T]

/-- The loop of `PutItem`: outside, or into `WaitSend`. -/
theorem lands_putLoop {s s' : State Tid T} {t : Tid} {r : T} {timeout : Timeout} {p : Int}
    (hLoop : s.putLoop t r timeout p = some s') : Lands s s' t := by
  unfold State.putLoop at hLoop
  split at hLoop
  · cases hLoop
  · split_ifs at hLoop
    · -- the item is put, and a reader is woken
      obtain rfl := Option.some.inj hLoop
      refine Lands.of_zero rfl rfl ?_ fun u hu => Or.inr (Or.inr ?_)
      · show ((State.setPc _ t .idle).pc t).receiving = 0 ∧
          ((State.setPc _ t .idle).pc t).sending = 0
        rw [setPc_self]
        exact ⟨rfl, rfl⟩
      · exact setPc_others _ t .idle u hu
    · obtain rfl := Option.some.inj hLoop
      exact lands_gaveUp s t _
    · obtain rfl := Option.some.inj hLoop
      refine ⟨?_, ?_, ?_⟩
      · intro u hu
        rw [setPc_others _ t _ u hu]
        exact ⟨rfl, rfl⟩
      · rw [setPc_self]
        exact (Int.add_zero _).symm
      · rw [setPc_self]
        rfl

/-- The loop of `GetItem` and `GetItems`: outside, or into `WaitRecv`. -/
theorem lands_getLoop {s s' : State Tid T} {t : Tid} {size : Option Nat} {timeout : Timeout}
    (hLoop : s.getLoop t size timeout = some s') : Lands s s' t := by
  unfold State.getLoop at hLoop
  split_ifs at hLoop
  · obtain rfl := Option.some.inj hLoop
    exact lands_gaveUp s t _
  · obtain rfl := Option.some.inj hLoop
    refine ⟨?_, ?_, ?_⟩
    · intro u hu
      rw [setPc_others _ t _ u hu]
      exact ⟨rfl, rfl⟩
    · rw [setPc_self]
      rfl
    · rw [setPc_self]
      exact (Int.add_zero _).symm
  · -- whatever has been taken, a writer is woken
    have hTaken : ∀ (qs : List (SimpleQueue T)) (es : List (Event Tid T)),
        Lands s ((((s.setQ { s.q with queues := qs }).signalSend).setPc t .idle).record es) t := by
      intro qs es
      refine Lands.of_zero rfl rfl ?_ fun u hu => Or.inr (Or.inl ?_)
      · show ((State.setPc _ t .idle).pc t).receiving = 0 ∧
          ((State.setPc _ t .idle).pc t).sending = 0
        rw [setPc_self]
        exact ⟨rfl, rfl⟩
      · exact setPc_others _ t .idle u hu
    cases size with
    | none =>
      obtain ⟨⟨p, r, q'⟩, hPop, rfl⟩ := Option.map_eq_some_iff.mp hLoop
      simp only [SyncQueue.popFirst, Option.bind_eq_bind, Option.bind_eq_some_iff,
        Option.pure_def, Option.some.injEq, Prod.exists, Prod.mk.injEq] at hPop
      obtain ⟨i, -, q, -, r', q₁, -, -, -, rfl⟩ := hPop
      exact hTaken _ _
    | some n =>
      obtain rfl := Option.some.inj hLoop
      exact hTaken _ _

omit [Measured T] in
theorem lands_stopWritersLoop (s : State Tid T) (t : Tid) : Lands s (s.stopWritersLoop t) t := by
  unfold State.stopWritersLoop
  split_ifs
  · refine Lands.of_zero rfl rfl ?_ fun u hu => Or.inr (Or.inl ?_)
    · rw [setPc_self]
      exact ⟨rfl, rfl⟩
    · exact setPc_others _ t .stopWriters u hu
  · refine Lands.of_zero rfl rfl ?_ fun u hu => Or.inl ?_
    · show ((State.setPc _ t .idle).pc t).receiving = 0 ∧ ((State.setPc _ t .idle).pc t).sending = 0
      rw [setPc_self]
      exact ⟨rfl, rfl⟩
    · exact setPc_others _ t .idle u hu

omit [Measured T] in
theorem lands_stopReadersLoop (s : State Tid T) (t : Tid) : Lands s (s.stopReadersLoop t) t := by
  unfold State.stopReadersLoop
  split_ifs
  · refine Lands.of_zero rfl rfl ?_ fun u hu => Or.inr (Or.inr ?_)
    · rw [setPc_self]
      exact ⟨rfl, rfl⟩
    · exact setPc_others _ t .stopReaders u hu
  · exact lands_stopWritersLoop s t

/-- Every critical section keeps the counters right. -/
theorem counted_step {s s' : State Tid T} {l : Label Tid T} (h : Counted s)
    (hStep : step s l = some s') : Counted s' := by
  cases moves_of_step hStep with
  | gaveUp hAt hFail => exact h.turn (leaves_of_arrives hAt) (lands_gaveUp _ _ _)
  | put hAt hOpen hLoop => exact h.turn (leaves_of_arrives hAt) (lands_putLoop hLoop)
  | get hAt hOpen hLoop => exact h.turn (leaves_of_arrives hAt) (lands_getLoop hLoop)
  | stop hPc =>
    refine h.turn ?_ (lands_stopReadersLoop _ _)
    refine ⟨rfl, ?_, ?_⟩
    · simp [hPc, Pc.receiving, State.setQ]
    · simp [hPc, Pc.sending, State.setQ]
  | stopReaders hPc =>
    refine h.turn ⟨rfl, ?_, ?_⟩ (lands_stopReadersLoop _ _)
    · simp [hPc, Pc.receiving]
    · simp [hPc, Pc.sending]
  | stopWriters hPc =>
    refine h.turn ⟨rfl, ?_, ?_⟩ (lands_stopWritersLoop _ _)
    · simp [hPc, Pc.receiving]
    · simp [hPc, Pc.sending]
  | restart => exact ⟨h.readers, h.writers⟩


-- ---------------------------------------------------------------------------
-- The progress of Stop
-- ---------------------------------------------------------------------------

/-- Nobody is in the queue, nothing is in it, and nobody can come in. -/
structure Closed (s : State Tid T) : Prop where
  cancel : s.q.cancel = true
  readers : s.q.waitingReaders = 0
  writers : s.q.waitingWriters = 0
  empty : ∀ x ∈ s.q.queues, x.queue = []

/-- How far the `Stop` of thread `t` has come. -/
structure Closing (t : Tid) (s : State Tid T) : Prop where
  cancel : s.q.cancel = true
  stage : s.pc t = .stopReaders ∨ (s.pc t = .stopWriters ∧ s.q.waitingReaders = 0) ∨
    (s.pc t = .idle ∧ Closed s)

omit [DecidableEq Tid] [Measured T] in
/-- Deleting nothing changes nothing. -/
theorem map_deleteAllItems {qs : List (SimpleQueue T)} (h : ∀ x ∈ qs, x.queue = []) :
    qs.map (·.deleteAllItems) = qs := by
  conv_rhs => rw [← List.map_id qs]
  refine List.map_congr_left fun x hx => ?_
  rw [SimpleQueue.deleteAllItems, ← h x hx]
  rfl

omit [DecidableEq Tid] [Measured T] in
/-- Nothing is discarded where there is nothing. -/
theorem flatMap_discarded_eq_nil {qs : List (SimpleQueue T)} (h : ∀ x ∈ qs, x.queue = []) :
    (qs.flatMap fun q => q.queue.map fun r => (Event.discarded r q.priority : Event Tid T)) =
      [] := by
  rw [List.flatMap_eq_nil_iff]
  intro x hx
  rw [h x hx, List.map_nil]

omit [Measured T] in
/-- In a closed queue `Stop` comes to its end at once, and finds nothing to do. -/
theorem stopWritersLoop_of_closed {s : State Tid T} (t : Tid) (h : Closed s) :
    s.stopWritersLoop t = s.setPc t .idle := by
  rw [State.stopWritersLoop, if_neg (by rw [h.writers]; decide), map_deleteAllItems h.empty,
    flatMap_discarded_eq_nil h.empty]
  show { s with q := s.q, pc := _, hist := s.hist ++ [] } = _
  rw [List.append_nil]
  rfl

omit [Measured T] in
theorem stopReadersLoop_of_closed {s : State Tid T} (t : Tid) (h : Closed s) :
    s.stopReadersLoop t = s.setPc t .idle := by
  rw [State.stopReadersLoop, if_neg (by rw [h.readers]; decide), stopWritersLoop_of_closed t h]

omit [Measured T] in
/-- The second loop of `Stop`, in a cancelled queue whose readers have gone. -/
theorem closing_stopWritersLoop {s : State Tid T} {t : Tid} (hCancel : s.q.cancel = true)
    (hReaders : s.q.waitingReaders = 0) (hNonneg : 0 ≤ s.q.waitingWriters) :
    Closing t (s.stopWritersLoop t) := by
  unfold State.stopWritersLoop
  split_ifs with hWaiting
  · exact ⟨hCancel, Or.inr (Or.inl ⟨setPc_self _ t _, hReaders⟩)⟩
  · refine ⟨hCancel, Or.inr (Or.inr ⟨setPc_self _ t _, hCancel, hReaders, ?_, ?_⟩)⟩
    · show s.q.waitingWriters = 0
      omega
    · intro x hx
      obtain ⟨y, -, rfl⟩ := List.mem_map.mp hx
      rfl

omit [Measured T] in
/-- The first loop, whose end is the beginning of the second one. -/
theorem closing_stopReadersLoop {s : State Tid T} {t : Tid} (hCancel : s.q.cancel = true)
    (hCounted : Counted s) : Closing t (s.stopReadersLoop t) := by
  unfold State.stopReadersLoop
  split_ifs with hWaiting
  · exact ⟨hCancel, Or.inl (setPc_self _ t _)⟩
  · have hNonneg := hCounted.readers.nonneg
    exact closing_stopWritersLoop hCancel (by omega) hCounted.writers.nonneg

omit [DecidableEq Tid] [Measured T] in
/-- Nobody leaves a wait in which nobody is. -/
theorem Leaves.readers_eq_zero {s s₀ : State Tid T} {t : Tid} (h : Leaves s s₀ t)
    (hCounted : Counted s) (hZero : s.q.waitingReaders = 0) :
    (s.pc t).receiving = 0 ∧ s₀.q.waitingReaders = 0 := by
  have hNot := hCounted.readers.none_of_zero (by omega) t
  have hSelf : (s.pc t).receiving = 0 := by rw [receiving_eq_ite, if_neg hNot]
  refine ⟨hSelf, ?_⟩
  rw [h.readers, hZero, hSelf]
  rfl

omit [DecidableEq Tid] [Measured T] in
/-- The same for the other wait. -/
theorem Leaves.writers_eq_zero {s s₀ : State Tid T} {t : Tid} (h : Leaves s s₀ t)
    (hCounted : Counted s) (hZero : s.q.waitingWriters = 0) :
    (s.pc t).sending = 0 ∧ s₀.q.waitingWriters = 0 := by
  have hNot := hCounted.writers.none_of_zero (by omega) t
  have hSelf : (s.pc t).sending = 0 := by rw [sending_eq_ite, if_neg hNot]
  refine ⟨hSelf, ?_⟩
  rw [h.writers, hZero, hSelf]
  rfl

omit [DecidableEq Tid] [Measured T] in
/-- In a closed queue nobody waits, so whoever comes to a loop comes from outside. -/
theorem Arrives.eq_of_closed {s s₀ : State Tid T} {t : Tid} (hAt : Arrives s t s₀)
    (hCounted : Counted s) (h : Closed s) : s₀ = s := by
  have hReaders := ((leaves_of_arrives hAt).readers_eq_zero hCounted h.readers).1
  have hWriters := ((leaves_of_arrives hAt).writers_eq_zero hCounted h.writers).1
  cases hAt with
  | enters hPc => rfl
  | fromSend hPc =>
    rw [hPc] at hWriters
    exact absurd hWriters (by simp [Pc.sending])
  | fromRecv hPc =>
    rw [hPc] at hReaders
    exact absurd hReaders (by simp [Pc.receiving])

/-- Only `Start` takes `cancel` back. -/
theorem cancel_step {s s' : State Tid T} {l : Label Tid T} (hStep : step s l = some s')
    (hStart : ∀ u, l ≠ .start u) (hCancel : s.q.cancel = true) : s'.q.cancel = true := by
  have hReaders : ∀ s₀ : State Tid T, ∀ u, s₀.q.cancel = true →
      (s₀.stopReadersLoop u).q.cancel = true := by
    intro s₀ u h
    unfold State.stopReadersLoop State.stopWritersLoop
    split_ifs <;> exact h
  cases l with
  | start u => exact absurd rfl (hStart u)
  | putItem u r timeout p =>
    simp only [step, hCancel, if_true] at hStep
    split at hStep
    · obtain rfl := Option.some.inj hStep
      exact hCancel
    · cases hStep
  | getItem u timeout =>
    simp only [step, hCancel, if_true] at hStep
    split at hStep
    · obtain rfl := Option.some.inj hStep
      exact hCancel
    · cases hStep
  | getItems u size timeout =>
    simp only [step, hCancel, if_true] at hStep
    split at hStep
    · obtain rfl := Option.some.inj hStep
      exact hCancel
    · cases hStep
  | wakeSend u timedOut =>
    simp only [step, hCancel, Bool.true_or, if_true] at hStep
    split at hStep
    · split_ifs at hStep
      obtain rfl := Option.some.inj hStep
      exact rfl
    · cases hStep
  | wakeRecv u timedOut =>
    simp only [step, hCancel, Bool.true_or, if_true] at hStep
    split at hStep
    · split_ifs at hStep
      obtain rfl := Option.some.inj hStep
      exact rfl
    · cases hStep
  | stop u =>
    simp only [step] at hStep
    split at hStep
    · obtain rfl := Option.some.inj hStep
      exact hReaders _ u rfl
    · cases hStep
  | stopResume u =>
    simp only [step] at hStep
    split at hStep
    · obtain rfl := Option.some.inj hStep
      exact hReaders s u hCancel
    · obtain rfl := Option.some.inj hStep
      unfold State.stopWritersLoop
      split_ifs <;> exact hCancel
    · cases hStep

omit [DecidableEq Tid] [Measured T] in
/-- What another thread does keeps the stage: counters at zero and empty sub-queues stay. -/
theorem Closing.other {s s' : State Tid T} {t : Tid} (h : Closing t s)
    (hCancel : s'.q.cancel = true)
    (hPc : s'.pc t = s.pc t ∨ s'.pc t = (s.pc t).signalSend ∨ s'.pc t = (s.pc t).signalRecv)
    (hReaders : s.q.waitingReaders = 0 → s'.q.waitingReaders = 0)
    (hWriters : s.q.waitingWriters = 0 → s'.q.waitingWriters = 0)
    (hEmpty : (∀ x ∈ s.q.queues, x.queue = []) → ∀ x ∈ s'.q.queues, x.queue = []) :
    Closing t s' := by
  refine ⟨hCancel, ?_⟩
  rcases h.stage with hAt | ⟨hAt, hZero⟩ | ⟨hAt, hClosed⟩
  · rw [hAt] at hPc
    exact Or.inl (hPc.elim id fun hSignal => hSignal.elim id id)
  · rw [hAt] at hPc
    exact Or.inr (Or.inl ⟨hPc.elim id fun hSignal => hSignal.elim id id, hReaders hZero⟩)
  · rw [hAt] at hPc
    exact Or.inr (Or.inr ⟨hPc.elim id fun hSignal => hSignal.elim id id, hCancel,
      hReaders hClosed.readers, hWriters hClosed.writers, hEmpty hClosed.empty⟩)

omit [Measured T] in
/-- The `Stop` of another thread does not disturb this one. -/
theorem Closing.other_stopWriters {s : State Tid T} {t u : Tid} (h : Closing t s) (hu : t ≠ u) :
    Closing t (s.stopWritersLoop u) := by
  unfold State.stopWritersLoop
  split_ifs
  · exact h.other h.cancel (Or.inr (Or.inl (setPc_others _ u _ t hu))) id id id
  · refine h.other h.cancel (Or.inl (setPc_others _ u _ t hu)) id id fun _ x hx => ?_
    obtain ⟨y, -, rfl⟩ := List.mem_map.mp hx
    rfl

omit [Measured T] in
theorem Closing.other_stopReaders {s : State Tid T} {t u : Tid} (h : Closing t s) (hu : t ≠ u) :
    Closing t (s.stopReadersLoop u) := by
  unfold State.stopReadersLoop
  split_ifs
  · exact h.other h.cancel (Or.inr (Or.inr (setPc_others _ u _ t hu))) id id id
  · exact h.other_stopWriters hu

omit [DecidableEq Tid] [Measured T] in
/-- A second `Stop` finds `cancel` set. -/
theorem setQ_cancel {s : State Tid T} (hCancel : s.q.cancel = true) :
    s.setQ { s.q with cancel := true } = s := by
  rw [← hCancel]
  rfl

/-- No step of any thread takes `Stop` back, `Start` excepted. -/
theorem closing_step {s s' : State Tid T} {l : Label Tid T} {t : Tid} (hCounted : Counted s)
    (h : Closing t s) (hStep : step s l = some s') (hStart : ∀ u, l ≠ .start u) :
    Closing t s' := by
  have hCancel := cancel_step hStep hStart h.cancel
  cases moves_of_step hStep with
  | @gaveUp u s₀ e hAt hFail =>
    have hLeaves := leaves_of_arrives hAt
    have hQueues : s₀.q.queues = s.q.queues := by cases hAt <;> rfl
    by_cases hu : t = u
    · -- the thread itself makes a call: its `Stop` has returned
      subst hu
      rcases h.stage with hPc | ⟨hPc, -⟩ | ⟨hPc, hClosed⟩
      · cases hAt <;> simp_all
      · cases hAt <;> simp_all
      · obtain rfl := hAt.eq_of_closed hCounted hClosed
        exact ⟨hCancel, Or.inr (Or.inr ⟨setPc_self _ t _, hClosed.cancel, hClosed.readers,
          hClosed.writers, hClosed.empty⟩)⟩
    · refine h.other hCancel (Or.inl ?_) ?_ ?_ ?_
      · show (s₀.setPc u .idle).pc t = s.pc t
        rw [setPc_others _ u _ t hu, hLeaves.pc_eq]
      · exact fun hZero => (hLeaves.readers_eq_zero hCounted hZero).2
      · exact fun hZero => (hLeaves.writers_eq_zero hCounted hZero).2
      · intro hEmpty
        show ∀ x ∈ s₀.q.queues, x.queue = []
        rw [hQueues]
        exact hEmpty
  | put hAt hOpen hLoop => exact absurd (h.cancel.symm.trans hOpen) (by decide)
  | get hAt hOpen hLoop => exact absurd (h.cancel.symm.trans hOpen) (by decide)
  | @stop u hPc =>
    rw [setQ_cancel h.cancel]
    by_cases hu : t = u
    · subst hu
      exact closing_stopReadersLoop h.cancel hCounted
    · exact h.other_stopReaders hu
  | @stopReaders u hPc =>
    by_cases hu : t = u
    · subst hu
      exact closing_stopReadersLoop h.cancel hCounted
    · exact h.other_stopReaders hu
  | @stopWriters u hPc =>
    by_cases hu : t = u
    · subst hu
      have hReaders : s.q.waitingReaders = 0 := by
        rcases h.stage with hAt | ⟨-, hZero⟩ | ⟨-, hClosed⟩
        · exact absurd (hAt.symm.trans hPc) (by simp)
        · exact hZero
        · exact hClosed.readers
      -- its own second loop: the readers have gone already
      exact closing_stopWritersLoop h.cancel hReaders hCounted.writers.nonneg
    · exact h.other_stopWriters hu
  | restart => exact absurd hCancel (by simp [State.setQ, State.record])

-- ---------------------------------------------------------------------------
-- After Stop
-- ---------------------------------------------------------------------------

/-- A step in a closed queue changes nothing of it, and the calls that return are refused. -/
theorem closed_step {s s' : State Tid T} {l : Label Tid T} (hCounted : Counted s) (h : Closed s)
    (hStep : step s l = some s') (hStart : ∀ u, l ≠ .start u) :
    s'.q = s.q ∧ ∃ es, s'.hist = s.hist ++ es ∧ ∀ e ∈ es, ∃ u, e.Fails u := by
  have hCancel := cancel_step hStep hStart h.cancel
  cases moves_of_step hStep with
  | gaveUp hAt hFail =>
    obtain rfl := hAt.eq_of_closed hCounted h
    refine ⟨rfl, _, rfl, fun e he => ?_⟩
    rw [List.mem_singleton.mp he]
    exact ⟨_, hFail⟩
  | put hAt hOpen hLoop => exact absurd (h.cancel.symm.trans hOpen) (by decide)
  | get hAt hOpen hLoop => exact absurd (h.cancel.symm.trans hOpen) (by decide)
  | stop hPc =>
    rw [setQ_cancel h.cancel, stopReadersLoop_of_closed _ h]
    exact ⟨rfl, [], (List.append_nil _).symm, by simp⟩
  | stopReaders hPc =>
    rw [stopReadersLoop_of_closed _ h]
    exact ⟨rfl, [], (List.append_nil _).symm, by simp⟩
  | stopWriters hPc =>
    rw [stopWritersLoop_of_closed _ h]
    exact ⟨rfl, [], (List.append_nil _).symm, by simp⟩
  | restart => exact absurd hCancel (by simp [State.setQ, State.record])

omit [DecidableEq Tid] [Measured T] in
/-- It depends on the queue only. -/
theorem Closed.of_q_eq {s s' : State Tid T} (h : Closed s) (hQ : s'.q = s.q) : Closed s' :=
  ⟨hQ ▸ h.cancel, hQ ▸ h.readers, hQ ▸ h.writers, hQ ▸ h.empty⟩

/-- What holds of a closed queue and the state `s₂` in which it was closed. -/
structure StillClosed (s₂ s : State Tid T) : Prop where
  counted : Counted s
  same : s.q = s₂.q
  refused : ∃ es, s.hist = s₂.hist ++ es ∧ ∀ e ∈ es, ∃ u, e.Fails u

/-- Whatever happens later, only refusals are added to the history. -/
theorem stillClosed_step {s₂ s s' : State Tid T} {l : Label Tid T} (hClosed : Closed s₂)
    (h : StillClosed s₂ s) (hStart : ∀ u, l ≠ .start u) (hStep : step s l = some s') :
    StillClosed s₂ s' := by
  obtain ⟨es, hHist, hFails⟩ := h.refused
  obtain ⟨hQ, es', hHist', hFails'⟩ :=
    closed_step h.counted (hClosed.of_q_eq h.same) hStep hStart
  refine ⟨counted_step h.counted hStep, hQ.trans h.same, es ++ es', ?_, ?_⟩
  · rw [hHist', hHist, List.append_assoc]
  · intro e he
    exact (List.mem_append.mp he).elim (hFails e) (hFails' e)

end Steps

/-- In the beginning nobody waits. -/
theorem counted_initial {subqueues : List (Int × Int × Int)} {q : SyncQueue T}
    (h : SyncQueue.build subqueues = some q) : Counted (initial q : State Tid T) := by
  refine ⟨?_, ?_⟩
  · show Census _ q.waitingReaders
    rw [(SyncQueue.build_idle h).1]
    exact Census.of_none fun t => by simp [initial, Pc.receiving]
  · show Census _ q.waitingWriters
    rw [(SyncQueue.build_idle h).2]
    exact Census.of_none fun t => by simp [initial, Pc.sending]

/--
**A stopped queue stays empty and closed.** Take any sub-queues and any schedule `before`, then a
call of `Stop` by thread `t` that has returned after `during`, and any schedule `after`, with
any number of calls and of threads that wait in the queue, and without a `Start` since `Stop`
was called. In the state `s` reached so

* all sub-queues are empty, nobody waits, and the queue is what it was when `Stop` returned;
* every call that has returned since then was refused;
* every call that a thread makes now is refused at once and leaves the queue as it is.
-/
theorem syncQueue_stopped [DecidableEq Tid] [Measured T] (subqueues : List (Int × Int × Int))
    {q : SyncQueue T} (hBuild : SyncQueue.build subqueues = some q) (t : Tid)
    (before during after : List (Label Tid T)) {s₀ s₁ s₂ s : State Tid T}
    (hBefore : run step (initial q) before = some s₀) (hStop : step s₀ (.stop t) = some s₁)
    (hDuring : run step s₁ during = some s₂) (hReturned : s₂.pc t = .idle)
    (hAfter : run step s₂ after = some s) (hNoStart : ∀ u, .start u ∉ during ++ after) :
    (∀ x ∈ s.q.queues, x.queue = []) ∧ s.q.waitingReaders = 0 ∧ s.q.waitingWriters = 0 ∧
    s.q = s₂.q ∧
    (∃ es, s.hist = s₂.hist ++ es ∧ ∀ e ∈ es, ∃ u, e.Fails u) ∧
    (∀ u, s.pc u = .idle →
      (∀ r timeout p, ∃ s', step s (.putItem u r timeout p) = some s' ∧ s'.q = s.q ∧
        s'.pc = s.pc ∧ s'.hist = s.hist ++ [.put u r p false]) ∧
      (∀ timeout, ∃ s', step s (.getItem u timeout) = some s' ∧ s'.q = s.q ∧
        s'.pc = s.pc ∧ s'.hist = s.hist ++ [.nothing u]) ∧
      (∀ size timeout, ∃ s', step s (.getItems u size timeout) = some s' ∧ s'.q = s.q ∧
        s'.pc = s.pc ∧ s'.hist = s.hist ++ [.nothing u])) := by
  have hCounted₀ : Counted s₀ := run_invariant Counted (fun _ _ _ h hs => counted_step h hs)
    hBefore (counted_initial hBuild)
  have hCounted₁ : Counted s₁ := counted_step hCounted₀ hStop
  -- the first critical section of `Stop` sets `cancel`
  have hFirst : Closing t s₁ := by
    simp only [step] at hStop
    split at hStop
    · obtain rfl := Option.some.inj hStop
      exact closing_stopReadersLoop rfl ⟨hCounted₀.readers, hCounted₀.writers⟩
    · cases hStop
  -- a run without `Start`, as a condition on its labels
  have hOk : ∀ (as : List (Label Tid T)) (s : State Tid T), (∀ u, .start u ∉ as) →
      AllOk step (fun _ l => ∀ u, l ≠ .start u) s as := by
    intro as s hNo
    refine AllOk.of_forall fun _ l hl u hEq => hNo u ?_
    rw [← hEq]
    exact hl
  have hBoth : Counted s₂ ∧ Closing t s₂ :=
    run_invariant_of_ok (fun s => Counted s ∧ Closing t s)
      (fun _ _ _ h hok hs => ⟨counted_step h.1 hs, closing_step h.1 h.2 hs hok⟩)
      (hOk during s₁ fun u hMem => hNoStart u (List.mem_append_left _ hMem)) hDuring
      ⟨hCounted₁, hFirst⟩
  -- `Stop` has returned, so it has come to its last stage
  have hClosed : Closed s₂ := by
    rcases hBoth.2.stage with hPc | ⟨hPc, -⟩ | ⟨-, hClosed⟩
    · exact absurd (hPc.symm.trans hReturned) (by simp)
    · exact absurd (hPc.symm.trans hReturned) (by simp)
    · exact hClosed
  have hStill : StillClosed s₂ s :=
    run_invariant_of_ok (StillClosed s₂)
      (fun _ _ _ h hok hs => stillClosed_step hClosed h hok hs)
      (hOk after s₂ fun u hMem => hNoStart u (List.mem_append_right _ hMem)) hAfter
      ⟨hBoth.1, rfl, [], (List.append_nil _).symm, by simp⟩
  have hNow : Closed s := hClosed.of_q_eq hStill.same
  refine ⟨hNow.empty, hNow.readers, hNow.writers, hStill.same, hStill.refused, ?_⟩
  intro u hu
  refine ⟨?_, ?_, ?_⟩
  · intro r timeout p
    refine ⟨s.record [.put u r p false], ?_, rfl, rfl, rfl⟩
    simp only [step, hu, hNow.cancel, if_true]
  · intro timeout
    refine ⟨s.record [.nothing u], ?_, rfl, rfl, rfl⟩
    simp only [step, hu, hNow.cancel, if_true]
  · intro size timeout
    refine ⟨s.record [.nothing u], ?_, rfl, rfl, rfl⟩
    simp only [step, hu, hNow.cancel, if_true]

/-- A reader waits when `Stop` is called and a writer comes while `Stop` waits for it; a put
after `Stop` has returned is refused too. -/
theorem syncQueue_stopped_waiting_reader :
    ∃ (q : SyncQueue Nat) (s₀ s₁ s₂ s : State Nat Nat), SyncQueue.build [(0, 2, 0)] = some q ∧
      run step (initial q) [.getItem 1 .forever] = some s₀ ∧
      step s₀ (.stop 0) = some s₁ ∧ s₁.pc 0 = .stopReaders ∧
      run step s₁ [.putItem 2 9 .null 0, .wakeRecv 1 false, .stopResume 0] = some s₂ ∧
      s₂.pc 0 = .idle ∧ run step s₂ [.putItem 1 8 .forever 0] = some s ∧
      s.q = s₂.q ∧ (∀ x ∈ s.q.queues, x.queue = []) ∧ s.q.waitingReaders = 0 := by
  have hStopped := syncQueue_stopped (T := Nat) [(0, 2, 0)] rfl (0 : Nat) [.getItem 1 .forever]
    [.putItem 2 9 .null 0, .wakeRecv 1 false, .stopResume 0] [.putItem 1 8 .forever 0] rfl rfl rfl
    rfl rfl (by simp)
  exact ⟨_, _, _, _, _, rfl, rfl, rfl, rfl, rfl, rfl, rfl, hStopped.2.2.2.1, hStopped.1,
    hStopped.2.1⟩

end HectorCore.Queue
