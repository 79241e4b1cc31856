import Mathlib
import HectorCore.Queue.Delivery

/-!
# SyncQueue — the limits of a sub-queue and its size counter

`IsSpaceFor` decides from `queueSize`, a counter that `PutItem` and `GetItem` adjust. What every
critical section does to a sub-queue is said once: it puts an item (`State.puts`, `offered`), gets
items (`Takes`), or is the end of a `Stop` (`State.clears`), which deletes the items and leaves the
counter alone.

* The limits are never exceeded: the counter is never less than what is there
  (`syncQueue_limits`).
* The counter, an `int`, is exact all along a run if and only if every `Stop` that comes to its end
  finds items of no size and every item that is put fits into the counter
  (`syncQueue_size_exact_iff`). Otherwise what was deleted is counted for ever, and the sub-queue
  has lost that much room; or the counter has wrapped around.
-/

namespace HectorCore.Queue

open HectorCore.Lib

variable {Tid T : Type}

section SubQueue

variable [Measured T]

namespace SimpleQueue

/-- `GetCurrentSize` -/
def getCurrentSize (q : SimpleQueue T) : Int := q.queueSize

/-- What the items really add up to. -/
def heldSize (q : SimpleQueue T) : Int := (q.queue.map getSize).sum

/-- What is put is held. -/
theorem heldSize_putItem (q : SimpleQueue T) (r : T) :
    (q.putItem r).heldSize = q.heldSize + getSize r := by
  simp [heldSize, putItem]

/-- What is taken, and what is left. -/
theorem getItem_spec {q q' : SimpleQueue T} {r : T} (h : q.getItem = some (r, q')) :
    q.queue = r :: q'.queue ∧
      q' = { q with queue := q'.queue, queueSize := toCounter T (q.queueSize - getSize r) } := by
  unfold getItem at h
  split at h
  · cases h
  · rename_i r' rest hQueue
    simp only [Option.some.injEq, Prod.mk.injEq] at h
    obtain ⟨rfl, rfl⟩ := h
    exact ⟨hQueue, rfl⟩

/-- What is taken is not held any more. -/
theorem heldSize_getItem {q q' : SimpleQueue T} {r : T} (h : q.getItem = some (r, q')) :
    q.heldSize = getSize r + q'.heldSize := by
  rw [heldSize, (getItem_spec h).1, List.map_cons, List.sum_cons, heldSize]

theorem heldSize_nonneg (hSize : ∀ r : T, 0 ≤ getSize r) (q : SimpleQueue T) : 0 ≤ q.heldSize := by
  refine List.sum_nonneg fun x hx => ?_
  obtain ⟨r, -, rfl⟩ := List.mem_map.mp hx
  exact hSize r

end SimpleQueue

/-- One `PutItem` that found room, or one `GetItem`. -/
inductive Change : SimpleQueue T → SimpleQueue T → Prop
  | put {q : SimpleQueue T} (r : T) (hSpace : q.isSpaceFor (getSize r) = true) :
      Change q (q.putItem r)
  | get {q q' : SimpleQueue T} {r : T} (hGet : q.getItem = some (r, q')) : Change q q'

/-- What the calls do to a sub-queue in one critical section. -/
def Evolves : SimpleQueue T → SimpleQueue T → Prop := Relation.ReflTransGen Change

/-- What every change keeps is kept. -/
theorem Evolves.invariant {P : SimpleQueue T → Prop} (hChange : ∀ q q', Change q q' → P q → P q')
    {q q' : SimpleQueue T} (h : Evolves q q') (hP : P q) : P q' := by
  induction h with
  | refl => exact hP
  | tail _ hLast ih => exact hChange _ _ hLast ih

/-- What the calls that get do to a sub-queue in one critical section. -/
def Takes : SimpleQueue T → SimpleQueue T → Prop :=
  Relation.ReflTransGen fun q q' => ∃ r, q.getItem = some (r, q')

theorem Takes.evolves {q q' : SimpleQueue T} (h : Takes q q') : Evolves q q' := by
  induction h with
  | refl => exact .refl
  | tail _ hLast ih =>
    obtain ⟨r, hGet⟩ := hLast
    exact .tail ih (.get hGet)

/-- Taking several items is taking one after the other. -/
theorem takes_getUpTo (n : Nat) (q : SimpleQueue T) : Takes q (q.getUpTo n).2 := by
  induction n generalizing q with
  | zero => exact .refl
  | succ n ih =>
    unfold SimpleQueue.getUpTo
    split
    · exact .refl
    · rename_i r q' hGet
      exact .head ⟨r, hGet⟩ (ih q')

/-- Every sub-queue comes from one that was there. -/
def EachFrom (R : SimpleQueue T → SimpleQueue T → Prop) (qs qs' : List (SimpleQueue T)) : Prop :=
  ∀ x' ∈ qs', ∃ x ∈ qs, R x x'

theorem eachTakes_refl (qs : List (SimpleQueue T)) : EachFrom Takes qs qs :=
  fun x hx => ⟨x, hx, .refl⟩

theorem eachTakes_popUpTo (n : Nat) (qs : List (SimpleQueue T)) :
    EachFrom Takes qs (SyncQueue.popUpTo n qs).2 := by
  induction qs generalizing n with
  | nil => exact eachTakes_refl _
  | cons q qs ih =>
    intro x' hx'
    rcases List.mem_cons.mp hx' with hHead | hTail
    · exact ⟨q, List.mem_cons_self, hHead ▸ takes_getUpTo n q⟩
    · obtain ⟨x, hx, hTakes⟩ := ih _ x' hTail
      exact ⟨x, List.mem_cons_of_mem _ hx, hTakes⟩

/-- The other sub-queues stay as they are. -/
theorem eachTakes_popFirst {q q' : SyncQueue T} {p : Int} {r : T}
    (h : q.popFirst = some (p, r, q')) : EachFrom Takes q.queues q'.queues := by
  simp only [SyncQueue.popFirst, Option.bind_eq_bind, Option.bind_eq_some_iff,
    Option.pure_def, Option.some.injEq, Prod.exists, Prod.mk.injEq] at h
  obtain ⟨i, -, x, hx, r', x', hGet, -, -, rfl⟩ := h
  intro y hy
  rcases List.mem_or_eq_of_mem_set hy with hOld | rfl
  · exact ⟨y, hOld, .refl⟩
  · exact ⟨x, List.mem_of_getElem? hx, .single ⟨r', hGet⟩⟩

/-- The sub-queues after an item has been put into the one with priority `p`, if it has room. -/
def offered (p : Int) (r : T) (qs : List (SimpleQueue T)) : List (SimpleQueue T) :=
  qs.map fun x => if x.priority = p ∧ x.isSpaceFor (getSize r) = true then x.putItem r else x

/-- A put changes one sub-queue. -/
theorem eachEvolves_offered (p : Int) (r : T) (qs : List (SimpleQueue T)) :
    EachFrom Evolves qs (offered p r qs) := by
  intro x' hx'
  obtain ⟨x, hx, rfl⟩ := List.mem_map.mp hx'
  refine ⟨x, hx, ?_⟩
  split
  · rename_i hPut
    exact .single (.put r hPut.2)
  · exact .refl

omit [Measured T] in
/-- There is one sub-queue of a priority. -/
theorem eq_of_findQueue {s : SyncQueue T} {p : Int} {q : SimpleQueue T} (hSorted : Sorted s.queues)
    (hFind : s.findQueue p = some q) : ∀ x ∈ s.queues, x.priority = p → x = q := by
  obtain ⟨hp, pre, post, hSplit, -⟩ := List.find?_eq_some_iff_append.mp hFind
  obtain rfl : q.priority = p := by simpa using hp
  have hNe := (hSplit ▸ hSorted).ne_of_split
  intro x hx hPrio
  rw [hSplit] at hx
  by_contra hOther
  refine hNe x ?_ hPrio
  simp only [List.mem_append, List.mem_cons] at hx ⊢
  tauto

/-- Only the sub-queue that had room gets the item. -/
theorem queues_putItem {s : SyncQueue T} {p : Int} {q : SimpleQueue T} {r : T}
    (hSorted : Sorted s.queues) (hFind : s.findQueue p = some q)
    (hSpace : q.isSpaceFor (getSize r) = true) :
    (s.modifyQueue p (·.putItem r)).queues = offered p r s.queues := by
  refine List.map_congr_left fun x hx => ?_
  by_cases hPrio : x.priority = p
  · obtain rfl := eq_of_findQueue hSorted hFind x hx hPrio
    rw [if_pos hPrio, if_pos ⟨hPrio, hSpace⟩]
  · rw [if_neg hPrio, if_neg fun hBoth => hPrio hBoth.1]

/-- Without room nothing is put. -/
theorem offered_full {s : SyncQueue T} {p : Int} {q : SimpleQueue T} {r : T}
    (hSorted : Sorted s.queues) (hFind : s.findQueue p = some q)
    (hFull : ¬ q.isSpaceFor (getSize r) = true) : offered p r s.queues = s.queues := by
  refine (List.map_congr_left fun x hx => ?_).trans (List.map_id _)
  refine if_neg ?_
  rintro ⟨hPrio, hSpace⟩
  rw [eq_of_findQueue hSorted hFind x hx hPrio] at hSpace
  exact hFull hSpace

end SubQueue

-- ---------------------------------------------------------------------------
-- Critical sections
-- ---------------------------------------------------------------------------

section Steps

variable [DecidableEq Tid]

/-- The step is the end of a `Stop`: both loops are over, and all items are deleted. -/
def State.clears (s : State Tid T) : Label Tid T → Bool
  | .stop _ => decide (s.q.waitingReaders ≤ 0) && decide (s.q.waitingWriters ≤ 0)
  | .stopResume t =>
    match s.pc t with
    | .stopReaders => decide (s.q.waitingReaders ≤ 0) && decide (s.q.waitingWriters ≤ 0)
    | .stopWriters => decide (s.q.waitingWriters ≤ 0)
    | _ => false
  | _ => false

/-- The item that the step puts into the sub-queue of a priority, if there is room. -/
def State.puts (s : State Tid T) : Label Tid T → Option (T × Int)
  | .putItem t r _ p =>
    match s.pc t with
    | .idle => if s.q.cancel then none else some (r, p)
    | _ => none
  | .wakeSend t timedOut =>
    match s.pc t with
    | .waitSend r _ p _ => if s.q.cancel || timedOut then none else some (r, p)
    | _ => none
  | _ => none

/-- `Stop` deletes the items when the last writer has gone. -/
theorem queues_stopWritersLoop (s : State Tid T) (t : Tid) :
    (s.stopWritersLoop t).q.queues =
      if s.q.waitingWriters ≤ 0 then s.q.queues.map (·.deleteAllItems) else s.q.queues := by
  unfold State.stopWritersLoop
  by_cases hWriters : s.q.waitingWriters ≤ 0
  · rw [if_neg (by omega), if_pos hWriters]
    rfl
  · rw [if_pos (by omega), if_neg hWriters]
    rfl

theorem queues_stopReadersLoop (s : State Tid T) (t : Tid) :
    (s.stopReadersLoop t).q.queues =
      if s.q.waitingReaders ≤ 0 ∧ s.q.waitingWriters ≤ 0 then s.q.queues.map (·.deleteAllItems)
      else s.q.queues := by
  unfold State.stopReadersLoop
  by_cases hReaders : s.q.waitingReaders ≤ 0
  · rw [if_neg (by omega), queues_stopWritersLoop]
    simp only [hReaders, true_and]
  · rw [if_pos (by omega), if_neg fun hBoth => hReaders hBoth.1]
    rfl

variable [Measured T]

/-- What is deleted is everything. -/
theorem queues_of_clears {s s' : State Tid T} {l : Label Tid T} (hStep : step s l = some s')
    (hClears : s.clears l = true) : s'.q.queues = s.q.queues.map (·.deleteAllItems) := by
  cases l with
  | stop t =>
    simp only [State.clears, Bool.and_eq_true, decide_eq_true_eq] at hClears
    simp only [step] at hStep
    split at hStep
    · obtain rfl := Option.some.inj hStep
      rw [queues_stopReadersLoop]
      exact if_pos hClears
    · cases hStep
  | stopResume t =>
    simp only [State.clears] at hClears
    simp only [step] at hStep
    split at hStep
    · rename_i hPc
      obtain rfl := Option.some.inj hStep
      rw [hPc, Bool.and_eq_true, decide_eq_true_eq, decide_eq_true_eq] at hClears
      rw [queues_stopReadersLoop, if_pos hClears]
    · rename_i hPc
      obtain rfl := Option.some.inj hStep
      rw [hPc, decide_eq_true_eq] at hClears
      rw [queues_stopWritersLoop, if_pos hClears]
    · cases hStep
  | putItem t r timeout p => cases hClears
  | getItem t timeout => cases hClears
  | getItems t size timeout => cases hClears
  | wakeSend t timedOut => cases hClears
  | wakeRecv t timedOut => cases hClears
  | start t => cases hClears

/-- The sub-queues after a put, if there was room. -/
theorem queues_putLoop {s s' : State Tid T} {t : Tid} {r : T} {timeout : Timeout} {p : Int}
    (hSorted : Sorted s.q.queues) (hLoop : s.putLoop t r timeout p = some s') :
    s'.q.queues = offered p r s.q.queues := by
  unfold State.putLoop at hLoop
  split at hLoop
  · cases hLoop
  · rename_i q hFind
    split_ifs at hLoop with hSpace hNull
    · obtain rfl := Option.some.inj hLoop
      exact queues_putItem hSorted hFind hSpace
    · obtain rfl := Option.some.inj hLoop
      exact (offered_full hSorted hFind hSpace).symm
    · obtain rfl := Option.some.inj hLoop
      exact (offered_full hSorted hFind hSpace).symm

/-- The sub-queues after a get. -/
theorem eachTakes_getLoop {s s' : State Tid T} {t : Tid} {size : Option Nat} {timeout : Timeout}
    (hLoop : s.getLoop t size timeout = some s') : EachFrom Takes s.q.queues s'.q.queues := by
  unfold State.getLoop at hLoop
  split_ifs at hLoop with hNone hNull
  · obtain rfl := Option.some.inj hLoop
    exact eachTakes_refl _
  · obtain rfl := Option.some.inj hLoop
    exact eachTakes_refl _
  · cases size with
    | none =>
      obtain ⟨⟨p, r, q'⟩, hPop, rfl⟩ := Option.map_eq_some_iff.mp hLoop
      exact eachTakes_popFirst hPop
    | some n =>
      obtain rfl := Option.some.inj hLoop
      exact eachTakes_popUpTo n s.q.queues

omit [DecidableEq Tid] [Measured T] in
theorem puts_of_clears {s : State Tid T} {l : Label Tid T} (h : s.clears l = true) :
    s.puts l = none := by
  cases l with
  | putItem t r timeout p => cases h
  | wakeSend t timedOut => cases h
  | getItem t timeout => rfl
  | getItems t size timeout => rfl
  | wakeRecv t timedOut => rfl
  | stop t => rfl
  | stopResume t => rfl
  | start t => rfl

/-- A critical section that offers an item puts it, if there is room. -/
theorem queues_of_puts {s s' : State Tid T} {l : Label Tid T} {r : T} {p : Int}
    (hSorted : Sorted s.q.queues) (hStep : step s l = some s') (hPuts : s.puts l = some (r, p)) :
    s'.q.queues = offered p r s.q.queues := by
  cases l with
  | putItem t r' timeout p' =>
    simp only [State.puts] at hPuts
    simp only [step] at hStep
    split at hStep
    · rename_i hPc
      rw [hPc] at hPuts
      split_ifs at hStep with hCancel
      · simp [hCancel] at hPuts
      · simp only [hCancel, Bool.false_eq_true, if_false, Option.some.injEq, Prod.mk.injEq] at hPuts
        obtain ⟨rfl, rfl⟩ := hPuts
        exact queues_putLoop hSorted hStep
    · cases hStep
  | wakeSend t timedOut =>
    simp only [State.puts] at hPuts
    simp only [step] at hStep
    split at hStep
    · rename_i r' timeout p' sig hPc
      rw [hPc] at hPuts
      split_ifs at hStep with hTime hGone
      · simp [hGone] at hPuts
      · simp only [hGone, Bool.false_eq_true, if_false, Option.some.injEq, Prod.mk.injEq] at hPuts
        obtain ⟨rfl, rfl⟩ := hPuts
        exact queues_putLoop
          (s := s.setQ { s.q with waitingWriters := s.q.waitingWriters - 1 }) hSorted hStep
    · cases hStep
  | getItem t timeout => cases hPuts
  | getItems t size timeout => cases hPuts
  | wakeRecv t timedOut => cases hPuts
  | stop t => cases hPuts
  | stopResume t => cases hPuts
  | start t => cases hPuts

/-- All other critical sections only get, or delete all items. -/
theorem eachTakes_step {s s' : State Tid T} {l : Label Tid T} (hStep : step s l = some s')
    (hKeeps : s.clears l = false) (hPuts : s.puts l = none) :
    EachFrom Takes s.q.queues s'.q.queues := by
  cases l with
  | putItem t r timeout p =>
    simp only [State.puts] at hPuts
    simp only [step] at hStep
    split at hStep
    · rename_i hPc
      rw [hPc] at hPuts
      split_ifs at hStep with hCancel
      · obtain rfl := Option.some.inj hStep
        exact eachTakes_refl _
      · simp [hCancel] at hPuts
    · cases hStep
  | getItem t timeout =>
    simp only [step] at hStep
    split at hStep
    · split_ifs at hStep
      · obtain rfl := Option.some.inj hStep
        exact eachTakes_refl _
      · exact eachTakes_getLoop hStep
    · cases hStep
  | getItems t size timeout =>
    simp only [step] at hStep
    split at hStep
    · split_ifs at hStep
      · obtain rfl := Option.some.inj hStep
        exact eachTakes_refl _
      · exact eachTakes_getLoop hStep
    · cases hStep
  | wakeSend t timedOut =>
    simp only [State.puts] at hPuts
    simp only [step] at hStep
    split at hStep
    · rename_i r timeout p sig hPc
      rw [hPc] at hPuts
      split_ifs at hStep with hTime hGone
      · obtain rfl := Option.some.inj hStep
        exact eachTakes_refl _
      · simp [hGone] at hPuts
    · cases hStep
  | wakeRecv t timedOut =>
    simp only [step] at hStep
    split at hStep
    · split_ifs at hStep
      · obtain rfl := Option.some.inj hStep
        exact eachTakes_refl _
      · exact eachTakes_getLoop
          (s := s.setQ { s.q with waitingReaders := s.q.waitingReaders - 1 }) hStep
    · cases hStep
  | stop t =>
    simp only [State.clears, Bool.and_eq_false_iff, decide_eq_false_iff_not] at hKeeps
    simp only [step] at hStep
    split at hStep
    · obtain rfl := Option.some.inj hStep
      rw [queues_stopReadersLoop, if_neg]
      · exact eachTakes_refl _
      · rintro ⟨hReaders, hWriters⟩
        exact hKeeps.elim (fun h => h hReaders) (fun h => h hWriters)
    · cases hStep
  | stopResume t =>
    simp only [State.clears] at hKeeps
    simp only [step] at hStep
    split at hStep
    · rename_i hPc
      obtain rfl := Option.some.inj hStep
      rw [hPc, Bool.and_eq_false_iff, decide_eq_false_iff_not, decide_eq_false_iff_not] at hKeeps
      rw [queues_stopReadersLoop, if_neg]
      · exact eachTakes_refl _
      · rintro ⟨hReaders, hWriters⟩
        exact hKeeps.elim (fun h => h hReaders) (fun h => h hWriters)
    · rename_i hPc
      obtain rfl := Option.some.inj hStep
      rw [hPc, decide_eq_false_iff_not] at hKeeps
      rw [queues_stopWritersLoop, if_neg hKeeps]
      exact eachTakes_refl _
    · cases hStep
  | start t =>
    simp only [step] at hStep
    split at hStep
    · obtain rfl := Option.some.inj hStep
      exact eachTakes_refl _
    · cases hStep

/-- All critical sections that do not delete the items put and get. -/
theorem eachEvolves_step {s s' : State Tid T} {l : Label Tid T} (hSorted : Sorted s.q.queues)
    (hStep : step s l = some s') (hKeeps : s.clears l = false) :
    EachFrom Evolves s.q.queues s'.q.queues := by
  cases hPuts : s.puts l with
  | some offer =>
    rw [queues_of_puts hSorted hStep hPuts]
    exact eachEvolves_offered _ _ _
  | none =>
    intro x' hx'
    obtain ⟨x, hx, hTakes⟩ := eachTakes_step hStep hKeeps hPuts x' hx'
    exact ⟨x, hx, hTakes.evolves⟩

/-- The sub-queues stay sorted. -/
theorem sorted_step {s s' : State Tid T} {l : Label Tid T} (h : Sorted s.q.queues)
    (hStep : step s l = some s') : Sorted s'.q.queues := by
  cases effect_step hStep with
  | quiet es hHist hOps hQueues hCancel => exact hQueues ▸ h
  | moved es hHist hOps hOpen hExec => exact (hExec h).2
  | emptied es hHist hOps hStop hCancel hExec => exact (hExec h).2
  | restarted hHist hQueues => exact hQueues ▸ h

/-- What puts and gets keep of a sub-queue, and what the end of `Stop` keeps, is kept. -/
theorem queues_invariant {P : SimpleQueue T → Prop} (hChange : ∀ q q', Change q q' → P q → P q')
    (hDelete : ∀ q, P q → P q.deleteAllItems) {s s' : State Tid T} {l : Label Tid T}
    (hSorted : Sorted s.q.queues) (hStep : step s l = some s') (hP : ∀ x ∈ s.q.queues, P x) :
    ∀ x ∈ s'.q.queues, P x := by
  cases hClears : s.clears l with
  | true =>
    rw [queues_of_clears hStep hClears]
    intro x' hx'
    obtain ⟨x, hx, rfl⟩ := List.mem_map.mp hx'
    exact hDelete x (hP x hx)
  | false =>
    intro x' hx'
    obtain ⟨x, hx, hEvolves⟩ := eachEvolves_step hSorted hStep hClears x' hx'
    exact hEvolves.invariant hChange (hP x hx)

end Steps

-- ---------------------------------------------------------------------------
-- The queue that has been built
-- ---------------------------------------------------------------------------

/-- A sub-queue is one of those that were configured. -/
theorem mem_of_build {subqueues : List (Int × Int × Int)} {q : SyncQueue T}
    (h : SyncQueue.build subqueues = some q) :
    ∀ x ∈ q.queues, ∃ e ∈ subqueues, x = .new e.1 e.2.1 e.2.2 := by
  induction subqueues generalizing q with
  | nil =>
    obtain rfl := Option.some.inj h
    intro x hx
    cases hx
  | cons e rest ih =>
    obtain ⟨q₀, hRest, rfl⟩ := SyncQueue.build_cons_eq_some h
    intro x hx
    rcases List.mem_append.mp ((sortQueues_perm _).subset hx) with hOld | hNew
    · obtain ⟨e', he', hx'⟩ := ih hRest x hOld
      exact ⟨e', List.mem_cons_of_mem _ he', hx'⟩
    · exact ⟨e, List.mem_cons_self, List.mem_singleton.mp hNew⟩

theorem sorted_of_build {subqueues : List (Int × Int × Int)} {q : SyncQueue T}
    (h : SyncQueue.build subqueues = some q) : Sorted q.queues := by
  have hNodup : (subqueues.map Prod.fst).Nodup := by
    induction subqueues generalizing q with
    | nil => exact List.nodup_nil
    | cons e rest ih =>
      rw [SyncQueue.build, Option.bind_eq_some_iff] at h
      obtain ⟨q₀, hRest, hAdd⟩ := h
      have hTail := ih hRest
      obtain ⟨q₁, hBuilt, -, -, -, hPerm⟩ := build_spec (T := T) rest hTail
      obtain rfl := Option.some.inj (hRest.symm.trans hBuilt)
      rw [SyncQueue.addQueue] at hAdd
      split_ifs at hAdd with hHas
      rw [List.map_cons, List.nodup_cons]
      refine ⟨fun hMem => hHas ?_, hTail⟩
      obtain ⟨x, hx, hPrio⟩ := List.mem_map.mp (hPerm.symm.subset hMem)
      exact mem_of_hasQueue.mpr ⟨x, hx, hPrio⟩
  obtain ⟨q₁, hBuilt, hSorted, -⟩ := build_spec (T := T) subqueues hNodup
  obtain rfl := Option.some.inj (h.symm.trans hBuilt)
  exact hSorted

-- ---------------------------------------------------------------------------
-- The limits
-- ---------------------------------------------------------------------------

section Limits

variable [Sized T]

/-- The counter is at least what is there, and is itself within the limit. -/
structure Within (q : SimpleQueue T) : Prop where
  items : 0 < q.maxItems → (q.queue.length : Int) ≤ q.maxItems
  covers : q.heldSize ≤ q.queueSize
  size : 0 < q.maxSize → q.queueSize ≤ q.maxSize

/-- The limits are kept by one change. -/
theorem within_change (hSize : ∀ r : T, 0 ≤ getSize r) {q q' : SimpleQueue T}
    (hChange : Change q q')
    (h : Within q) : Within q' := by
  cases hChange with
  | put r hSpace =>
    simp only [SimpleQueue.isSpaceFor, Bool.and_eq_true, Bool.or_eq_true, beq_iff_eq,
      decide_eq_true_eq] at hSpace
    refine ⟨?_, ?_, ?_⟩
    · intro hPos
      show ((q.queue ++ [r]).length : Int) ≤ q.maxItems
      have hRoom : (q.queue.length : Int) < q.maxItems :=
        hSpace.1.resolve_left (by have : 0 < q.maxItems := hPos; omega)
      rw [List.length_append, List.length_singleton]
      omega
    · rw [SimpleQueue.heldSize_putItem]
      have hCovers := h.covers
      show q.heldSize + getSize r ≤ q.queueSize + getSize r
      omega
    · intro hPos
      exact hSpace.2.resolve_left (by have : 0 < q.maxSize := hPos; omega)
  | get hGet =>
    rename_i r
    obtain ⟨hQueue, hNew⟩ := SimpleQueue.getItem_spec hGet
    have hHeld := SimpleQueue.heldSize_getItem hGet
    have hItem := hSize r
    have hMaxItems : q'.maxItems = q.maxItems := by rw [hNew]
    have hMaxSize : q'.maxSize = q.maxSize := by rw [hNew]
    have hCounter : q'.queueSize = q.queueSize - getSize r := by rw [hNew, toCounter_sized]
    refine ⟨?_, ?_, ?_⟩
    · intro hPos
      have hItems := h.items (hMaxItems ▸ hPos)
      rw [hQueue, List.length_cons] at hItems
      omega
    · have hCovers := h.covers
      omega
    · intro hPos
      have hLimit := h.size (hMaxSize ▸ hPos)
      omega

/-- An empty sub-queue is within its limits. -/
theorem within_deleteAllItems (hSize : ∀ r : T, 0 ≤ getSize r) {q : SimpleQueue T} (h : Within q) :
    Within q.deleteAllItems := by
  refine ⟨fun hPos => le_of_lt hPos, ?_, h.size⟩
  have hHeld := SimpleQueue.heldSize_nonneg hSize q
  have hCovers := h.covers
  show (0 : Int) ≤ q.queueSize
  omega

/-- The sub-queue with this priority has the limits that `addQueue` gave it. -/
def Configured (subqueues : List (Int × Int × Int)) (q : SimpleQueue T) : Prop :=
  (q.priority, q.maxItems, q.maxSize) ∈ subqueues

/-- The limits themselves do not change. -/
theorem configured_change {subqueues : List (Int × Int × Int)} {q q' : SimpleQueue T}
    (hChange : Change q q') (h : Configured subqueues q) : Configured subqueues q' := by
  cases hChange with
  | put r hSpace => exact h
  | get hGet =>
    rw [(SimpleQueue.getItem_spec hGet).2]
    exact h

/--
**The limits are never exceeded.** Take any sub-queues, any number of threads and any schedule of
their critical sections, over items of non-negative sizes. In the state reached every sub-queue
has the limits that it was given; if it has a limit of items it holds no more of them, and if it
has a limit of size the sizes of what it holds add up to no more.
-/
theorem syncQueue_limits [DecidableEq Tid] (hSize : ∀ r : T, 0 ≤ getSize r)
    (subqueues : List (Int × Int × Int)) {q : SyncQueue T}
    (hBuild : SyncQueue.build subqueues = some q) (schedule : List (Label Tid T))
    {s : State Tid T} (hRun : run step (initial q) schedule = some s) :
    ∀ x ∈ s.q.queues, (x.priority, x.maxItems, x.maxSize) ∈ subqueues ∧
      (0 < x.maxItems → (x.queue.length : Int) ≤ x.maxItems) ∧
      (0 < x.maxSize → (x.queue.map getSize).sum ≤ x.maxSize) := by
  have hInv : Sorted s.q.queues ∧ ∀ x ∈ s.q.queues, Within x ∧ Configured subqueues x := by
    refine run_invariant
      (fun s : State Tid T => Sorted s.q.queues ∧ ∀ x ∈ s.q.queues, Within x ∧
        Configured subqueues x)
      (fun s l s' h hStep => ⟨sorted_step h.1 hStep, ?_⟩) hRun ⟨sorted_of_build hBuild, ?_⟩
    · refine queues_invariant (P := fun x => Within x ∧ Configured subqueues x) ?_ ?_ h.1 hStep h.2
      · exact fun x x' hChange hx =>
          ⟨within_change hSize hChange hx.1, configured_change hChange hx.2⟩
      · exact fun x hx => ⟨within_deleteAllItems hSize hx.1, hx.2⟩
    · intro x hx
      obtain ⟨e, he, rfl⟩ := mem_of_build hBuild x hx
      exact ⟨⟨fun hPos => le_of_lt hPos, le_refl _, fun hPos => le_of_lt hPos⟩, he⟩
  intro x hx
  obtain ⟨hWithin, hConfigured⟩ := hInv.2 x hx
  refine ⟨hConfigured, hWithin.items, fun hPos => ?_⟩
  exact le_trans hWithin.covers (hWithin.size hPos)

/-- Two items fit, the third is too large. -/
theorem syncQueue_limits_two_items :
    ∃ (q : SyncQueue Nat) (s : State Bool Nat), SyncQueue.build [(0, 3, 10)] = some q ∧
      run step (initial q)
        [.putItem true 4 .null 0, .putItem false 6 .null 0, .putItem true 1 .null 0] = some s ∧
      ∀ x ∈ s.q.queues, (x.queue.map getSize).sum = 10 ∧ (x.queue.map getSize).sum ≤ x.maxSize := by
  have hLimits := syncQueue_limits (fun r : Nat => Int.natCast_nonneg r) [(0, 3, 10)] rfl
    [.putItem true 4 .null 0, .putItem false 6 .null 0, .putItem true 1 .null 0] rfl
  refine ⟨_, _, rfl, rfl, fun x hx => ⟨?_, (hLimits x hx).2.2 ?_⟩⟩
  · obtain rfl := List.mem_singleton.mp hx
    rfl
  · obtain rfl := List.mem_singleton.mp hx
    decide

end Limits

-- ---------------------------------------------------------------------------
-- The size counter
-- ---------------------------------------------------------------------------

section Counter

/-- An empty sub-queue takes every item that its limit of size allows. -/
def HasRoom [Measured T] (q : SimpleQueue T) : Prop :=
  q.queue = [] → 0 ≤ q.maxItems → 0 < q.maxSize →
    ∀ r : T, getSize r ≤ q.maxSize → q.isSpaceFor (getSize r) = true

/-- `GetCurrentSize` is the size of what is held, so that an empty sub-queue has all its room. -/
def SizesExact [Measured T] (s : State Tid T) : Prop :=
  ∀ x ∈ s.q.queues, x.getCurrentSize = x.heldSize ∧ HasRoom x

/-- If the step is the end of a `Stop`, it finds items of no size. -/
def DeletesNoSize [Measured T] (s : State Tid T) (l : Label Tid T) : Prop :=
  s.clears l = true → ∀ x ∈ s.q.queues, x.heldSize = 0

/-- If the step puts an item, what is held then fits into the counter. -/
def PutsFit [Measured T] (s : State Tid T) (l : Label Tid T) : Prop :=
  ∀ e ∈ s.puts l, ∀ x ∈ s.q.queues, x.priority = e.2 → x.isSpaceFor (getSize e.1) = true →
    x.heldSize + getSize e.1 < 2 ^ 31

/-- The step keeps the counters exact. -/
def Counts [Measured T] (s : State Tid T) (l : Label Tid T) : Prop :=
  DeletesNoSize s l ∧ PutsFit s l

instance [Measured T] (s : State Tid T) (l : Label Tid T) : Decidable (DeletesNoSize s l) :=
  inferInstanceAs (Decidable (s.clears l = true → ∀ x ∈ s.q.queues, x.heldSize = 0))

instance [Measured T] (s : State Tid T) (l : Label Tid T) : Decidable (PutsFit s l) :=
  inferInstanceAs (Decidable (∀ e ∈ s.puts l, ∀ x ∈ s.q.queues, x.priority = e.2 →
    x.isSpaceFor (getSize e.1) = true → x.heldSize + getSize e.1 < 2 ^ 31))

instance [Measured T] (s : State Tid T) (l : Label Tid T) : Decidable (Counts s l) :=
  inferInstanceAs (Decidable (_ ∧ _))

variable [IntSized T]

/-- An exact counter says what there is room for. -/
theorem hasRoom_of_exact (hSize : ∀ r : T, 0 ≤ getSize r) {q : SimpleQueue T}
    (h : q.getCurrentSize = q.heldSize) : HasRoom q := by
  intro hEmpty hItems hPos r hFits
  have hCounter : q.queueSize = 0 := by
    rw [← SimpleQueue.getCurrentSize, h, SimpleQueue.heldSize, hEmpty]
    rfl
  have hLe := toInt32_le_self (hSize r)
  simp only [SimpleQueue.isSpaceFor, toCounter_intSized, hEmpty, hCounter, Bool.and_eq_true,
    Bool.or_eq_true, beq_iff_eq, decide_eq_true_eq, List.length_nil, Int.zero_add]
  omega

theorem sizesExact_iff (hSize : ∀ r : T, 0 ≤ getSize r) {s : State Tid T} :
    SizesExact s ↔ ∀ x ∈ s.q.queues, x.getCurrentSize = x.heldSize :=
  ⟨fun h x hx => (h x hx).1, fun h x hx => ⟨h x hx, hasRoom_of_exact hSize (h x hx)⟩⟩

/-- The counter is what an `int` makes of the size of what is held. -/
theorem wraps_change {q q' : SimpleQueue T} (hChange : Change q q')
    (h : q.queueSize = toInt32 q.heldSize) : q'.queueSize = toInt32 q'.heldSize := by
  cases hChange with
  | put r hSpace =>
    rw [SimpleQueue.heldSize_putItem, ← toInt32_add, ← h]
    rfl
  | get hGet =>
    rename_i r
    have hHeld := SimpleQueue.heldSize_getItem hGet
    have hSub : q'.heldSize = q.heldSize - getSize r := by omega
    rw [hSub, ← toInt32_sub, ← h, (SimpleQueue.getItem_spec hGet).2]
    rfl

/-- Taking makes nothing larger. -/
theorem heldSize_takes (hSize : ∀ r : T, 0 ≤ getSize r) {q q' : SimpleQueue T} (h : Takes q q') :
    q'.heldSize ≤ q.heldSize := by
  induction h with
  | refl => exact le_refl _
  | tail _ hLast ih =>
    obtain ⟨r, hGet⟩ := hLast
    have hHeld := SimpleQueue.heldSize_getItem hGet
    have hItem := hSize r
    omega

/-- An item that is put and fits keeps the size of what is held within the counter, and an item
that does not fit leaves it. -/
theorem held_offered_iff {qs : List (SimpleQueue T)} {p : Int} {r : T}
    (h : ∀ x ∈ qs, x.heldSize < 2 ^ 31) :
    (∀ x ∈ offered p r qs, x.heldSize < 2 ^ 31) ↔
      ∀ x ∈ qs, x.priority = p → x.isSpaceFor (getSize r) = true →
        x.heldSize + getSize r < 2 ^ 31 := by
  constructor
  · intro hAfter x hx hPrio hSpace
    have hNew := hAfter _ (List.mem_map_of_mem hx)
    rwa [if_pos ⟨hPrio, hSpace⟩, SimpleQueue.heldSize_putItem] at hNew
  · intro hFits x' hx'
    obtain ⟨x, hx, rfl⟩ := List.mem_map.mp hx'
    split
    · rename_i hPut
      rw [SimpleQueue.heldSize_putItem]
      exact hFits x hx hPut.1 hPut.2
    · exact h x hx

variable [DecidableEq Tid]

/-- **One critical section**, from exact counters. -/
theorem sizesExact_step (hSize : ∀ r : T, 0 ≤ getSize r) {s s' : State Tid T} {l : Label Tid T}
    (hSorted : Sorted s.q.queues) (hInt : ∀ x ∈ s.q.queues, x.queueSize < 2 ^ 31)
    (h : SizesExact s) (hStep : step s l = some s') : SizesExact s' ↔ Counts s l := by
  rw [sizesExact_iff hSize] at h ⊢
  have hHeld : ∀ x ∈ s.q.queues, x.heldSize < 2 ^ 31 := fun x hx => h x hx ▸ hInt x hx
  cases hClears : s.clears l with
  | true =>
    -- the counters stay, and the deques are empty
    rw [queues_of_clears hStep hClears]
    have hFit : PutsFit s l := by
      intro e he
      rw [puts_of_clears hClears] at he
      cases he
    constructor
    · intro hAfter
      refine ⟨fun _ x hx => ?_, hFit⟩
      rw [← h x hx]
      exact hAfter _ (List.mem_map_of_mem hx)
    · intro hOk x' hx'
      obtain ⟨x, hx, rfl⟩ := List.mem_map.mp hx'
      show x.getCurrentSize = 0
      rw [h x hx, hOk.1 hClears x hx]
  | false =>
    -- the counters are exact again as far as an `int` goes
    have hWraps : ∀ x ∈ s'.q.queues, x.queueSize = toInt32 x.heldSize := by
      intro x' hx'
      obtain ⟨x, hx, hEvolves⟩ := eachEvolves_step hSorted hStep hClears x' hx'
      refine hEvolves.invariant (P := fun x => x.queueSize = toInt32 x.heldSize)
        (fun _ _ => wraps_change) ?_
      rw [toInt32_eq_self (SimpleQueue.heldSize_nonneg hSize x) (hHeld x hx)]
      exact h x hx
    have hExact : (∀ x ∈ s'.q.queues, x.getCurrentSize = x.heldSize) ↔
        ∀ x ∈ s'.q.queues, x.heldSize < 2 ^ 31 := by
      refine forall₂_congr fun x hx => ?_
      rw [SimpleQueue.getCurrentSize, hWraps x hx,
        toInt32_eq_self_iff (SimpleQueue.heldSize_nonneg hSize x)]
    have hDeletes : DeletesNoSize s l := fun hTrue => absurd (hClears.symm.trans hTrue) (by decide)
    rw [hExact, Counts, and_iff_right hDeletes]
    cases hPuts : s.puts l with
    | some e =>
      have hOnly : PutsFit s l ↔ ∀ x ∈ s.q.queues, x.priority = e.2 →
          x.isSpaceFor (getSize e.1) = true → x.heldSize + getSize e.1 < 2 ^ 31 := by
        rw [PutsFit, hPuts]
        simp
      rw [hOnly, queues_of_puts hSorted hStep hPuts]
      exact held_offered_iff hHeld
    | none =>
      refine iff_of_true (fun x' hx' => ?_) fun e he => ?_
      · obtain ⟨x, hx, hTakes⟩ := eachTakes_step hStep hClears hPuts x' hx'
        have hLe := heldSize_takes hSize hTakes
        have hLess := hHeld x hx
        omega
      · rw [hPuts] at he
        cases he

/-- The counter is an `int`, whatever it counts. -/
theorem queueSize_lt_step {s s' : State Tid T} {l : Label Tid T} (hSorted : Sorted s.q.queues)
    (hStep : step s l = some s') (h : ∀ x ∈ s.q.queues, x.queueSize < 2 ^ 31) :
    ∀ x ∈ s'.q.queues, x.queueSize < 2 ^ 31 := by
  refine queues_invariant (P := fun x => x.queueSize < 2 ^ 31) ?_ (fun _ hq => hq) hSorted hStep h
  intro q q' hChange _
  cases hChange with
  | put r hSpace => exact toInt32_lt _
  | get hGet =>
    rw [(SimpleQueue.getItem_spec hGet).2]
    exact toInt32_lt _

/--
**When the size counter is exact.** Take any sub-queues, any number of threads and any schedule of
their critical sections, `Stop` and `Start` included, over items of non-negative sizes. The
counter is an `int`. `GetCurrentSize` is the sum of the sizes of the items in every sub-queue and
in every state on the way (and so an empty sub-queue has room for every item that its limit
allows) if and only if every `Stop` that comes to its end on the way finds only items of no size
in each sub-queue, and every item that is put finds items in its sub-queue with which it stays
below 2^31.
-/
theorem syncQueue_size_exact_iff (hSize : ∀ r : T, 0 ≤ getSize r)
    (subqueues : List (Int × Int × Int)) {q : SyncQueue T}
    (hBuild : SyncQueue.build subqueues = some q) (schedule : List (Label Tid T))
    {s : State Tid T} (hRun : run step (initial q) schedule = some s) :
    Always step SizesExact (initial q : State Tid T) schedule ↔
      AllOk step Counts (initial q : State Tid T) schedule := by
  refine always_iff_allOk
    (fun s : State Tid T => Sorted s.q.queues ∧ ∀ x ∈ s.q.queues, x.queueSize < 2 ^ 31)
    (fun _ _ _ h hStep => ⟨sorted_step h.1 hStep, queueSize_lt_step h.1 hStep h.2⟩)
    (fun _ _ _ h hExact hStep => sizesExact_step hSize h.1 h.2 hExact hStep) hRun
    ⟨sorted_of_build hBuild, fun x hx => ?_⟩ ?_
  · obtain ⟨e, -, rfl⟩ := mem_of_build hBuild x hx
    exact (by decide : (0 : Int) < 2 ^ 31)
  · rw [sizesExact_iff hSize]
    intro x hx
    obtain ⟨e, -, rfl⟩ := mem_of_build hBuild x hx
    rfl

/-- Numbers that are counted with an `int`. -/
instance : IntSized UInt32 := ⟨fun n => n.toNat⟩

/-- An item goes in and out before `Stop`, and one that is nearly as large as a counter can be comes
after it. -/
theorem syncQueue_size_exact_in_and_out :
    ∃ (q : SyncQueue UInt32) (s : State Bool UInt32), SyncQueue.build [(0, 0, 0)] = some q ∧
      run step (initial q) [.putItem true 3 .null 0, .getItem false .null, .stop true, .start true,
        .putItem true 2147483647 .null 0] = some s ∧
      Always step SizesExact (initial q : State Bool UInt32)
        [.putItem true 3 .null 0, .getItem false .null, .stop true, .start true,
          .putItem true 2147483647 .null 0] ∧
      ∃ x ∈ s.q.queues, x.getCurrentSize = 2147483647 := by
  refine ⟨⟨[.new 0 0 0], 0, 0, false⟩, _, rfl, rfl, ?_, _, List.mem_singleton.mpr rfl, rfl⟩
  exact (syncQueue_size_exact_iff (fun r => Int.natCast_nonneg _) [(0, 0, 0)] rfl _ rfl).mpr
    (by decide)

/-- An item of size 3 is in the queue when it is stopped. After the restart the sub-queue for
sizes up to 5 is empty, counts 3, and refuses another item of size 3. -/
theorem syncQueue_size_not_exact :
    ∃ (q : SyncQueue UInt32) (s : State Bool UInt32), SyncQueue.build [(0, 0, 5)] = some q ∧
      run step (initial q)
        [.putItem true 3 .null 0, .stop true, .start true, .putItem true 3 .null 0] = some s ∧
      s.hist.getLast? = some (.put true 3 0 false) ∧
      (∃ x ∈ s.q.queues, x.queue = [] ∧ x.getCurrentSize = 3) ∧ ¬ SizesExact s := by
  refine ⟨_, _, rfl, rfl, rfl, ⟨_, List.mem_singleton.mpr rfl, rfl, rfl⟩, ?_⟩
  intro hExact
  have hCounter := (hExact _ (List.mem_singleton.mpr rfl)).1
  exact absurd hCounter (by decide)

end Counter

end HectorCore.Queue
