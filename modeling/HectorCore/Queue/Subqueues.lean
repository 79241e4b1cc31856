import HectorCore.Queue.Delivery

/-!
# Subqueues — the sub-queues of a queue in use

`addQueue` is called before a queue is used. No critical section adds a sub-queue or removes one, so
that the assertion of `PutItem` is decided when the queue is built: `takesPuts_iff`.
-/

namespace HectorCore.Queue

open Lib (run run_invariant)

variable {Tid T : Type} [DecidableEq Tid] [Sized T]

/-- The sub-queues of a queue, by their priorities. -/
def priorities (qs : List (SimpleQueue T)) : List Int := qs.map SimpleQueue.priority

omit [DecidableEq Tid] [Sized T] in
/-- `hasQueue` looks at the priorities only. -/
theorem hasQueue_iff {q : SyncQueue T} {p : Int} :
    q.hasQueue p = true ↔ p ∈ priorities q.queues := by
  rw [mem_of_hasQueue, priorities, List.mem_map]

/-- Taking from the sub-queues keeps them. -/
theorem priorities_popUpTo (n : Nat) (qs : List (SimpleQueue T)) :
    priorities (SyncQueue.popUpTo n qs).2 = priorities qs := by
  induction qs generalizing n with
  | nil => rfl
  | cons q qs ih =>
    simp only [SyncQueue.popUpTo, priorities, List.map_cons, getUpTo_priority]
    exact congrArg _ (ih _)

theorem priorities_popFirst {q q' : SyncQueue T} {p : Int} {r : T}
    (h : q.popFirst = some (p, r, q')) : priorities q'.queues = priorities q.queues := by
  simp only [SyncQueue.popFirst, Option.bind_eq_bind, Option.bind_eq_some_iff, Option.pure_def] at h
  obtain ⟨i, -, x, hx, ⟨r', x'⟩, hGet, hDone⟩ := h
  obtain ⟨-, -, rfl⟩ := by simpa using hDone
  -- the sub-queue that was taken from is put back at its index
  have hSame : x'.priority = x.priority := getItem_priority hGet
  rw [priorities, priorities, List.map_set, hSame]
  refine List.ext_getElem? fun j => ?_
  by_cases hj : j = i
  · subst hj
    rw [List.getElem?_set_self (by simpa using (List.getElem?_eq_some_iff.mp hx).1),
      List.getElem?_map,
      hx, Option.map_some]
  · rw [List.getElem?_set_ne (Ne.symm hj)]

/-- `PutItem` changes what is in a sub-queue, not which there are. -/
theorem priorities_putLoop {s s' : State Tid T} {t : Tid} {r : T} {timeout : Timeout} {p : Int}
    (h : s.putLoop t r timeout p = some s') : priorities s'.q.queues = priorities s.q.queues := by
  unfold State.putLoop at h
  split at h
  · cases h
  · split_ifs at h
    · obtain rfl := Option.some.inj h
      show priorities (s.q.queues.map _) = _
      rw [priorities, List.map_map]
      refine List.map_congr_left fun q _ => ?_
      show (if q.priority = p then q.putItem r else q).priority = q.priority
      split <;> rfl
    · obtain rfl := Option.some.inj h
      rfl
    · obtain rfl := Option.some.inj h
      rfl

/-- Nor do `GetItem` and `GetItems`. -/
theorem priorities_getLoop {s s' : State Tid T} {t : Tid} {size : Option Nat} {timeout : Timeout}
    (h : s.getLoop t size timeout = some s') : priorities s'.q.queues = priorities s.q.queues := by
  unfold State.getLoop at h
  split_ifs at h
  · obtain rfl := Option.some.inj h
    rfl
  · obtain rfl := Option.some.inj h
    rfl
  · split at h
    · rw [Option.map_eq_some_iff] at h
      obtain ⟨⟨p, r, q'⟩, hPop, rfl⟩ := h
      exact priorities_popFirst hPop
    · obtain rfl := Option.some.inj h
      exact priorities_popUpTo _ _

omit [Sized T] in
/-- `Stop` empties the sub-queues and keeps them. -/
theorem priorities_stopWritersLoop (s : State Tid T) (t : Tid) :
    priorities (s.stopWritersLoop t).q.queues = priorities s.q.queues := by
  unfold State.stopWritersLoop
  split_ifs
  · rfl
  · show priorities (s.q.queues.map _) = _
    rw [priorities, List.map_map]
    rfl

omit [Sized T] in
theorem priorities_stopReadersLoop (s : State Tid T) (t : Tid) :
    priorities (s.stopReadersLoop t).q.queues = priorities s.q.queues := by
  unfold State.stopReadersLoop
  split_ifs
  · rfl
  · exact priorities_stopWritersLoop s t

omit [DecidableEq Tid] [Sized T] in
theorem Arrives.priorities_eq {s s₀ : State Tid T} {t : Tid} (h : Arrives s t s₀) :
    priorities s₀.q.queues = priorities s.q.queues := by
  cases h <;> rfl

/-- No critical section adds or removes a sub-queue. -/
theorem priorities_step {s s' : State Tid T} {l : Label Tid T} (hStep : step s l = some s') :
    priorities s'.q.queues = priorities s.q.queues := by
  cases moves_of_step hStep with
  | gaveUp hAt _ => exact hAt.priorities_eq
  | put hAt _ hLoop => exact (priorities_putLoop hLoop).trans hAt.priorities_eq
  | get hAt _ hLoop => exact (priorities_getLoop hLoop).trans hAt.priorities_eq
  | stop _ => exact priorities_stopReadersLoop _ _
  | stopReaders _ => exact priorities_stopReadersLoop _ _
  | stopWriters _ => exact priorities_stopWritersLoop _ _
  | restart => rfl

/-- `PutItem` with this priority passes its assertion, whenever a thread calls it. -/
def TakesPuts (q : SyncQueue T) (p : Int) : Prop :=
  ∀ (ls : List (Label Nat T)) (s : State Nat T), run step (initial q) ls = some s →
    ∀ t r timeout, s.pc t = .idle → (step s (.putItem t r timeout p)).isSome

/-- A sub-queue that is there at the beginning is there in every state. -/
theorem takesPuts_of_hasQueue {q : SyncQueue T} {p : Int} (hHas : q.hasQueue p = true) :
    TakesPuts q p := by
  intro ls s hRun t r timeout hPc
  -- the priorities are an invariant of the run
  have hSame : priorities s.q.queues = priorities q.queues :=
    run_invariant (fun s => priorities s.q.queues = priorities q.queues)
      (fun _ _ _ hInv hStep => (priorities_step hStep).trans hInv) hRun rfl
  have hFind : (s.q.findQueue p).isSome = true := by
    show s.q.hasQueue p = true
    rw [hasQueue_iff, hSame, ← hasQueue_iff]
    exact hHas
  obtain ⟨x, hx⟩ := Option.isSome_iff_exists.mp hFind
  simp only [step, hPc, State.putLoop, hx]
  split_ifs <;> rfl

/-- The assertion holds for ever if there is the sub-queue, and fails at once if there is not. -/
theorem takesPuts_iff [Nonempty T] {q : SyncQueue T} {p : Int} (hOpen : q.cancel = false) :
    TakesPuts q p ↔ q.hasQueue p = true := by
  refine ⟨fun hTakes => ?_, takesPuts_of_hasQueue⟩
  obtain ⟨r⟩ := ‹Nonempty T›
  -- the empty run, and the first call of any thread
  have hFirst := hTakes [] (initial q) rfl 0 r .null rfl
  by_contra hNone
  have hFind : q.findQueue p = none := Option.not_isSome_iff_eq_none.mp hNone
  simp [step, initial, State.putLoop, hOpen, hFind] at hFirst

end HectorCore.Queue
