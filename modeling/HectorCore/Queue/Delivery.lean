import HectorCore.Queue.SyncQueue
import HectorCore.Lib.PriorityFifo

/-!
# SyncQueue — delivery order

The concurrent queue of `Queue/SyncQueue.lean` refines the priority FIFO of
`Lib/PriorityFifo.lean`: `contents` forgets limits, counters and waiting threads, `toOps`
reads the history of a run as pushes, pops and drops, and `refines_step` shows that in
every reachable state the history executes, from empty contents to the present ones.

What the sub-queues need for it is `Sorted`: strictly descending priorities. `addQueue`
establishes it (`build_spec`) and no operation touches a priority.

Main result: `syncQueue_priority_fifo`.
-/

namespace HectorCore.Queue

open HectorCore.Lib HectorCore.Lib.FifoOp

variable {Tid T : Type}

/-- The items with each priority, oldest first. -/
def contents : List (SimpleQueue T) → Int → List T
  | [], _ => []
  | q :: qs, p => (if q.priority = p then q.queue else []) ++ contents qs p

/-- The order `addQueue` keeps: strictly descending priorities. -/
def Sorted (qs : List (SimpleQueue T)) : Prop :=
  qs.Pairwise fun a b => b.priority < a.priority

/-- The operation on the abstract queue that an event stands for. -/
def Event.toOp : Event Tid T → Option (FifoOp Int T)
  | .put _ r priority true => some (.push priority r)
  | .put _ _ _ false => none
  | .removed _ r priority => some (.pop priority r)
  | .nothing _ => none
  | .discarded r priority => some (.drop priority r)
  | .started => none

/-- What a history has done to the queue. -/
def toOps (hist : List (Event Tid T)) : List (FifoOp Int T) := hist.filterMap Event.toOp

@[simp] theorem toOps_append (xs ys : List (Event Tid T)) :
    toOps (xs ++ ys) = toOps xs ++ toOps ys := List.filterMap_append

-- ---------------------------------------------------------------------------
-- Contents of a sorted vector of sub-queues
-- ---------------------------------------------------------------------------

theorem contents_append (xs ys : List (SimpleQueue T)) (p : Int) :
    contents (xs ++ ys) p = contents xs p ++ contents ys p := by
  induction xs with
  | nil => rfl
  | cons q qs ih => simp only [List.cons_append, contents, ih, List.append_assoc]

theorem contents_eq_nil {qs : List (SimpleQueue T)} {p : Int}
    (h : ∀ q ∈ qs, q.priority = p → q.queue = []) : contents qs p = [] := by
  induction qs with
  | nil => rfl
  | cons q qs ih =>
    rw [contents, ih fun x hx => h x (List.mem_cons_of_mem _ hx), List.append_nil]
    split
    · exact h q (List.mem_cons_self ..) ‹_›
    · rfl

/-- A priority with items belongs to a non-empty sub-queue. -/
theorem exists_of_contents_ne_nil {qs : List (SimpleQueue T)} {p : Int}
    (h : contents qs p ≠ []) : ∃ q ∈ qs, q.priority = p ∧ q.queue ≠ [] := by
  by_contra hNone
  push Not at hNone
  exact h (contents_eq_nil hNone)

/-- A priority belongs to one sub-queue. -/
theorem Sorted.ne_of_split {pre post : List (SimpleQueue T)} {q : SimpleQueue T}
    (h : Sorted (pre ++ q :: post)) : ∀ x ∈ pre ++ post, x.priority ≠ q.priority := by
  rw [Sorted, List.pairwise_append, List.pairwise_cons] at h
  intro x hx
  rcases List.mem_append.mp hx with hPre | hPost
  · exact (h.2.2 x hPre q (List.mem_cons_self ..)).ne'
  · exact (h.2.1.1 x hPost).ne

/-- Sortedness depends on the priorities only. -/
theorem Sorted.replace {pre post : List (SimpleQueue T)} {q q' : SimpleQueue T}
    (h : Sorted (pre ++ q :: post)) (hp : q'.priority = q.priority) :
    Sorted (pre ++ q' :: post) := by
  rw [Sorted, List.pairwise_append, List.pairwise_cons] at h ⊢
  refine ⟨h.1, ⟨?_, h.2.1.2⟩, ?_⟩
  · rw [hp]; exact h.2.1.1
  · intro a ha b hb
    rcases List.mem_cons.mp hb with rfl | hb
    · rw [hp]; exact h.2.2 a ha q (List.mem_cons_self ..)
    · exact h.2.2 a ha b (List.mem_cons_of_mem _ hb)

/-- The contents at the priority of a sub-queue are its own items. -/
theorem contents_at {pre post : List (SimpleQueue T)} {q : SimpleQueue T}
    (h : Sorted (pre ++ q :: post)) : contents (pre ++ q :: post) q.priority = q.queue := by
  have hNe := h.ne_of_split
  have hPre : contents pre q.priority = [] := contents_eq_nil fun x hx hp =>
    absurd hp (hNe x (List.mem_append_left _ hx))
  have hPost : contents post q.priority = [] := contents_eq_nil fun x hx hp =>
    absurd hp (hNe x (List.mem_append_right _ hx))
  rw [contents_append, contents, hPre, hPost, if_pos rfl, List.append_nil, List.nil_append]

/-- Replacing the items of one sub-queue updates the contents at its priority. -/
theorem contents_replace {pre post : List (SimpleQueue T)} {q : SimpleQueue T}
    (q' : SimpleQueue T) (h : Sorted (pre ++ q :: post)) (hp : q'.priority = q.priority) :
    contents (pre ++ q' :: post) =
      Function.update (contents (pre ++ q :: post)) q.priority q'.queue := by
  funext p
  by_cases hEq : p = q.priority
  · subst hEq
    rw [Function.update_self, ← hp]
    exact contents_at (h.replace hp)
  · rw [Function.update_of_ne hEq, contents_append, contents_append, contents, contents, hp,
      if_neg (Ne.symm hEq), if_neg (Ne.symm hEq)]

/-- A sub-queue in front of which all are empty has the highest priority with items. -/
theorem priority_le_of_front {pre post : List (SimpleQueue T)} {q : SimpleQueue T}
    (h : Sorted (pre ++ q :: post)) (hPre : ∀ x ∈ pre, x.queue = []) :
    ∀ p, contents (pre ++ q :: post) p ≠ [] → p ≤ q.priority := by
  intro p hp
  obtain ⟨x, hx, rfl, hxQ⟩ := exists_of_contents_ne_nil hp
  rw [Sorted, List.pairwise_append, List.pairwise_cons] at h
  rcases List.mem_append.mp hx with hx | hx
  · exact absurd (hPre x hx) hxQ
  · rcases List.mem_cons.mp hx with rfl | hx
    · exact le_refl _
    · exact (h.2.1.1 x hx).le

-- ---------------------------------------------------------------------------
-- The sub-queue operations as abstract ones
-- ---------------------------------------------------------------------------

section Ops

variable [Measured T]

/-- `PutItem` pushes behind its priority. -/
theorem applies_push {pre post : List (SimpleQueue T)} {q : SimpleQueue T} (r : T)
    (h : Sorted (pre ++ q :: post)) :
    Applies (contents (pre ++ q :: post)) (.push q.priority r)
      (contents (pre ++ q.putItem r :: post)) := by
  rw [contents_replace (q.putItem r) h rfl]
  have := Applies.push (c := contents (pre ++ q :: post)) q.priority r
  rwa [contents_at h] at this

/-- `GetItem` pops the first item of the first sub-queue that has one. -/
theorem applies_pop {pre post : List (SimpleQueue T)} {q q' : SimpleQueue T} {r : T}
    (h : Sorted (pre ++ q :: post)) (hPre : ∀ x ∈ pre, x.queue = [])
    (hGet : q.getItem = some (r, q')) :
    Applies (contents (pre ++ q :: post)) (.pop q.priority r) (contents (pre ++ q' :: post)) := by
  unfold SimpleQueue.getItem at hGet
  split at hGet
  · cases hGet
  · rename_i r' rest hQ
    simp only [Option.some.injEq, Prod.mk.injEq] at hGet
    obtain ⟨rfl, rfl⟩ := hGet
    have hHead : contents (pre ++ q :: post) q.priority = r' :: rest := by
      rw [contents_at h, hQ]
    rw [contents_replace { q with
      queue := rest, queueSize := toCounter T (q.queueSize - getSize r') } h rfl]
    exact .pop hHead (priority_le_of_front h hPre)

theorem getItem_priority {q q' : SimpleQueue T} {r : T} (h : q.getItem = some (r, q')) :
    q'.priority = q.priority := by
  unfold SimpleQueue.getItem at h
  split at h
  · cases h
  · simp only [Option.some.injEq, Prod.mk.injEq] at h
    rw [← h.2]

theorem getItem_eq_none {q : SimpleQueue T} (h : q.getItem = none) : q.queue = [] := by
  unfold SimpleQueue.getItem at h
  split at h
  · assumption
  · cases h

theorem getUpTo_priority (n : Nat) (q : SimpleQueue T) : (q.getUpTo n).2.priority = q.priority := by
  induction n generalizing q with
  | zero => rfl
  | succ n ih =>
    unfold SimpleQueue.getUpTo
    split
    · rfl
    · rename_i r q' hGet
      exact (ih q').trans (getItem_priority hGet)

/-- The inner loop of `GetItems` stops at the limit or with an empty sub-queue. -/
theorem getUpTo_exhausts (n : Nat) (q : SimpleQueue T) :
    (q.getUpTo n).1.length = n ∨ (q.getUpTo n).2.queue = [] := by
  induction n generalizing q with
  | zero => exact Or.inl rfl
  | succ n ih =>
    unfold SimpleQueue.getUpTo
    split
    · exact Or.inr (getItem_eq_none ‹_›)
    · rename_i r q' hGet
      rcases ih q' with hLen | hNil
      · exact Or.inl (by simp only [List.length_cons, hLen])
      · exact Or.inr hNil

/-- From one sub-queue come as many items as there are, or as were asked for. -/
theorem exec_getUpTo (n : Nat) {pre post : List (SimpleQueue T)} (q : SimpleQueue T)
    (h : Sorted (pre ++ q :: post)) (hPre : ∀ x ∈ pre, x.queue = []) :
    Exec (contents (pre ++ q :: post)) ((q.getUpTo n).1.map (.pop q.priority))
      (contents (pre ++ (q.getUpTo n).2 :: post)) := by
  induction n generalizing q with
  | zero => exact .nil _
  | succ n ih =>
    unfold SimpleQueue.getUpTo
    split
    · exact .nil _
    · rename_i r q' hGet
      have hPrio := getItem_priority hGet
      have hRest := ih q' (h.replace hPrio)
      rw [hPrio] at hRest
      exact .cons (applies_pop h hPre hGet) hRest

/-- Nothing is taken once the limit is reached. -/
theorem popUpTo_zero (qs : List (SimpleQueue T)) : SyncQueue.popUpTo 0 qs = ([], qs) := by
  induction qs with
  | nil => rfl
  | cons q qs ih => simp [SyncQueue.popUpTo, SimpleQueue.getUpTo, ih]

/-- What is still missing comes from the next sub-queues. -/
theorem exec_popUpTo (n : Nat) (pre qs : List (SimpleQueue T))
    (h : Sorted (pre ++ qs)) (hPre : ∀ x ∈ pre, x.queue = []) :
    Exec (contents (pre ++ qs)) ((SyncQueue.popUpTo n qs).1.map fun x => .pop x.1 x.2)
        (contents (pre ++ (SyncQueue.popUpTo n qs).2)) ∧
      Sorted (pre ++ (SyncQueue.popUpTo n qs).2) := by
  induction qs generalizing n pre with
  | nil => exact ⟨.nil _, h⟩
  | cons q qs ih =>
    have hPrio := getUpTo_priority n q
    have hSorted : Sorted (pre ++ (q.getUpTo n).2 :: qs) := h.replace hPrio
    have hHead := exec_getUpTo n q h hPre
    simp only [SyncQueue.popUpTo, List.map_append, List.map_map, Function.comp_def]
    rcases getUpTo_exhausts n q with hLen | hNil
    · -- the limit is reached in this sub-queue: the others stay as they are
      rw [hLen, Nat.sub_self, popUpTo_zero]
      exact ⟨by simpa using hHead, hSorted⟩
    · -- this sub-queue is empty now, the loop goes on with the next one
      have hTail := ih (n - (q.getUpTo n).1.length) (pre ++ [(q.getUpTo n).2])
        (by simpa using hSorted) (by
          intro x hx
          rcases List.mem_append.mp hx with hx | hx
          · exact hPre x hx
          · rw [List.mem_singleton.mp hx]; exact hNil)
      simp only [List.append_assoc, List.singleton_append] at hTail
      exact ⟨hHead.append hTail.1, hTail.2⟩

/-- `GetItem` takes the oldest item of the first non-empty sub-queue. -/
theorem popFirst_spec {s s' : SyncQueue T} {p : Int} {r : T} (h : Sorted s.queues)
    (hPop : s.popFirst = some (p, r, s')) :
    Applies (contents s.queues) (.pop p r) (contents s'.queues) ∧ Sorted s'.queues := by
  simp only [SyncQueue.popFirst, Option.bind_eq_bind, Option.bind_eq_some_iff,
    Option.pure_def, Option.some.injEq, Prod.exists, Prod.mk.injEq] at hPop
  obtain ⟨i, hIdx, q, hq, r', q', hGet, rfl, rfl, rfl⟩ := hPop
  obtain ⟨hi, -, hBefore⟩ := List.findIdx?_eq_some_iff_getElem.mp hIdx
  obtain ⟨_, rfl⟩ := List.getElem?_eq_some_iff.mp hq
  -- cut the vector at the index found
  have hSplit : s.queues = s.queues.take i ++ s.queues[i] :: s.queues.drop (i + 1) := by simp
  have hSet : s.queues.set i q' = s.queues.take i ++ q' :: s.queues.drop (i + 1) :=
    List.set_eq_take_append_cons_drop.trans (if_pos hi)
  have hPre : ∀ x ∈ s.queues.take i, x.queue = [] := by
    intro x hx
    obtain ⟨j, hj, rfl⟩ := List.mem_take_iff_getElem.mp hx
    have := hBefore j (by omega)
    simpa using this
  rw [hSplit] at h
  refine ⟨?_, ?_⟩
  · show Applies (contents s.queues) _ (contents (s.queues.set i q'))
    rw [hSet]
    conv => arg 1; rw [hSplit]
    exact applies_pop h hPre hGet
  · show Sorted (s.queues.set i q')
    rw [hSet]
    exact h.replace (getItem_priority hGet)

/-- A non-empty sub-queue index always yields an item. -/
theorem popFirst_isSome {s : SyncQueue T} (h : s.firstNonEmptyQueueIndex.isNone = false) :
    s.popFirst.isSome := by
  obtain ⟨i, hIdx⟩ := Option.isSome_iff_exists.mp (by simpa using h)
  obtain ⟨hi, hQ, -⟩ := List.findIdx?_eq_some_iff_getElem.mp hIdx
  obtain ⟨r, rest, hList⟩ : ∃ r rest, s.queues[i].queue = r :: rest := by
    cases hL : s.queues[i].queue with
    | nil => simp [hL] at hQ
    | cons r rest => exact ⟨r, rest, rfl⟩
  simp [SyncQueue.popFirst, hIdx, List.getElem?_eq_getElem hi, SimpleQueue.getItem, hList]

/-- `PutItem` appends to the sub-queue of its priority. -/
theorem putItem_spec {s : SyncQueue T} {p : Int} {q : SimpleQueue T} (r : T)
    (h : Sorted s.queues) (hFind : s.findQueue p = some q) :
    Applies (contents s.queues) (.push p r)
        (contents (s.modifyQueue p (·.putItem r)).queues) ∧
      Sorted (s.modifyQueue p (·.putItem r)).queues := by
  obtain ⟨hp, pre, post, hSplit, -⟩ := List.find?_eq_some_iff_append.mp hFind
  obtain rfl : q.priority = p := by simpa using hp
  have hNe := (hSplit ▸ h).ne_of_split
  have hMod : (s.modifyQueue q.priority (·.putItem r)).queues = pre ++ q.putItem r :: post := by
    have hOther : ∀ xs : List (SimpleQueue T), (∀ x ∈ xs, x.priority ≠ q.priority) →
        xs.map (fun x => if x.priority = q.priority then x.putItem r else x) = xs := by
      intro xs hxs
      conv_rhs => rw [← List.map_id xs]
      exact List.map_congr_left fun x hx => if_neg (hxs x hx)
    rw [SyncQueue.modifyQueue, hSplit, List.map_append, List.map_cons, if_pos rfl,
      hOther pre fun x hx => hNe x (List.mem_append_left _ hx),
      hOther post fun x hx => hNe x (List.mem_append_right _ hx)]
  rw [hMod, hSplit]
  exact ⟨applies_push r (hSplit ▸ h), (hSplit ▸ h).replace rfl⟩

end Ops

-- ---------------------------------------------------------------------------
-- Stop discards everything
-- ---------------------------------------------------------------------------

theorem exec_dropQueue {pre post : List (SimpleQueue T)} (items : List T) (q : SimpleQueue T)
    (hQ : q.queue = items) (h : Sorted (pre ++ q :: post)) :
    Exec (contents (pre ++ q :: post)) (items.map (.drop q.priority))
      (contents (pre ++ q.deleteAllItems :: post)) := by
  induction items generalizing q with
  | nil =>
    have : q.deleteAllItems = q := by rw [SimpleQueue.deleteAllItems, ← hQ]
    rw [this]
    exact .nil _
  | cons r rest ih =>
    have hStep := contents_replace { q with queue := rest } h rfl
    have hRest := ih { q with queue := rest } rfl (h.replace rfl)
    refine .cons ?_ hRest
    rw [hStep]
    exact .drop (by rw [contents_at h, hQ])

/-- `Stop` drops what is left, sub-queue by sub-queue. -/
theorem exec_dropAll (pre qs : List (SimpleQueue T)) (h : Sorted (pre ++ qs)) :
    Exec (contents (pre ++ qs)) (qs.flatMap fun q => q.queue.map (.drop q.priority))
        (contents (pre ++ qs.map (·.deleteAllItems))) ∧
      Sorted (pre ++ qs.map (·.deleteAllItems)) := by
  induction qs generalizing pre with
  | nil => exact ⟨.nil _, h⟩
  | cons q qs ih =>
    have hSorted : Sorted (pre ++ q.deleteAllItems :: qs) := h.replace rfl
    have hTail := ih (pre ++ [q.deleteAllItems]) (by simpa using hSorted)
    simp only [List.append_assoc, List.singleton_append] at hTail
    exact ⟨(exec_dropQueue q.queue q rfl h).append hTail.1, hTail.2⟩

-- ---------------------------------------------------------------------------
-- What one step can do
-- ---------------------------------------------------------------------------
--
-- `Effect` says it once for all labels: a step leaves the sub-queues alone, moves items in or
-- out of a queue that is not cancelled, discards items of one that is, or restarts it.

/-- Some thread is inside `Stop`, between two passes of one of its loops. -/
def Stopping (s : State Tid T) : Prop := ∃ t, s.pc t = .stopReaders ∨ s.pc t = .stopWriters

/-- What one step does: nothing to the items, operations of the FIFO, or the drops of `Stop`. -/
inductive Effect (s s' : State Tid T) : Prop where
  | quiet (es : List (Event Tid T)) (hHist : s'.hist = s.hist ++ es) (hOps : toOps es = [])
      (hQueues : s'.q.queues = s.q.queues) (hCancel : s.q.cancel = true → s'.q.cancel = true)
  | moved (es : List (Event Tid T)) (hHist : s'.hist = s.hist ++ es)
      (hOps : ∀ op ∈ toOps es, isDrop op = false) (hOpen : s.q.cancel = false)
      (hExec : Sorted s.q.queues →
        Exec (contents s.q.queues) (toOps es) (contents s'.q.queues) ∧ Sorted s'.q.queues)
  | emptied (es : List (Event Tid T)) (hHist : s'.hist = s.hist ++ es)
      (hOps : ∀ op ∈ toOps es, isDrop op = true) (hStop : s'.q.cancel = true ∨ Stopping s)
      (hCancel : s.q.cancel = true → s'.q.cancel = true)
      (hExec : Sorted s.q.queues →
        Exec (contents s.q.queues) (toOps es) (contents s'.q.queues) ∧ Sorted s'.q.queues)
  | restarted (hHist : s'.hist = s.hist ++ [.started]) (hQueues : s'.q.queues = s.q.queues)

/-- Counters do not matter for the effect of what follows. -/
theorem Effect.of_setQ {s s' : State Tid T} {q : SyncQueue T} (h : Effect (s.setQ q) s')
    (hQ : q.queues = s.q.queues) (hC : s.q.cancel = true → q.cancel = true) : Effect s s' := by
  cases h with
  | quiet es hHist hOps hQueues hCancel =>
    exact .quiet es hHist hOps (hQueues.trans hQ) fun hc => hCancel (hC hc)
  | moved es hHist hOps hOpen hExec =>
    have hFalse : s.q.cancel = false := by
      by_contra hNe
      exact absurd ((hC (by simpa using hNe)).symm.trans hOpen) (by decide)
    exact .moved es hHist hOps hFalse (by simpa only [State.setQ, hQ] using hExec)
  | emptied es hHist hOps hStop hCancel hExec =>
    exact .emptied es hHist hOps hStop (fun hc => hCancel (hC hc))
      (by simpa only [State.setQ, hQ] using hExec)
  | restarted hHist hQueues => exact .restarted hHist (hQueues.trans hQ)

theorem toOps_removed (t : Tid) (items : List (Int × T)) :
    toOps (items.map fun x => (Event.removed t x.2 x.1 : Event Tid T)) =
      items.map fun x => .pop x.1 x.2 := by
  rw [toOps, List.filterMap_map]
  exact congrFun (List.filterMap_eq_map (f := fun x : Int × T => FifoOp.pop x.1 x.2)) items

theorem toOps_discarded (qs : List (SimpleQueue T)) :
    toOps (qs.flatMap fun q => q.queue.map fun r => (Event.discarded r q.priority : Event Tid T)) =
      qs.flatMap fun q => q.queue.map (.drop q.priority) := by
  rw [toOps, List.filterMap_flatMap]
  congr 1
  funext q
  rw [List.filterMap_map]
  exact congrFun (List.filterMap_eq_map (f := fun r : T => FifoOp.drop q.priority r)) q.queue

section Steps

variable [DecidableEq Tid] [Measured T]

/-- The loop of `PutItem`. -/
theorem effect_putLoop {s s' : State Tid T} {t : Tid} {r : T} {timeout : Timeout} {p : Int}
    (hOpen : s.q.cancel = false) (hStep : s.putLoop t r timeout p = some s') : Effect s s' := by
  unfold State.putLoop at hStep
  split at hStep
  · cases hStep
  · rename_i q hFind
    split_ifs at hStep with hSpace hNull
    · obtain rfl := Option.some.inj hStep
      refine .moved [.put t r p true] rfl (by simp [toOps, Event.toOp, isDrop]) hOpen ?_
      intro hSorted
      obtain ⟨hPush, hSorted'⟩ := putItem_spec r hSorted hFind
      exact ⟨.cons hPush (.nil _), hSorted'⟩
    · obtain rfl := Option.some.inj hStep
      exact .quiet [.put t r p false] rfl rfl rfl id
    · obtain rfl := Option.some.inj hStep
      exact .quiet [] (List.append_nil _).symm rfl rfl id

/-- The loop of `GetItem` and `GetItems`. -/
theorem effect_getLoop {s s' : State Tid T} {t : Tid} {size : Option Nat} {timeout : Timeout}
    (hOpen : s.q.cancel = false) (hStep : s.getLoop t size timeout = some s') : Effect s s' := by
  unfold State.getLoop at hStep
  split_ifs at hStep with hNone hNull
  · obtain rfl := Option.some.inj hStep
    exact .quiet [.nothing t] rfl rfl rfl id
  · obtain rfl := Option.some.inj hStep
    exact .quiet [] (List.append_nil _).symm rfl rfl id
  · cases size with
    | none =>
      obtain ⟨⟨p, r, q'⟩, hPop, rfl⟩ := Option.map_eq_some_iff.mp hStep
      refine .moved [.removed t r p] rfl (by simp [toOps, Event.toOp, isDrop]) hOpen ?_
      intro hSorted
      obtain ⟨hApp, hSorted'⟩ := popFirst_spec hSorted hPop
      exact ⟨.cons hApp (.nil _), hSorted'⟩
    | some n =>
      obtain rfl := Option.some.inj hStep
      refine .moved ((SyncQueue.popUpTo n s.q.queues).1.map fun x => .removed t x.2 x.1)
        rfl ?_ hOpen ?_
      · rw [toOps_removed]
        intro op hop
        obtain ⟨x, -, rfl⟩ := List.mem_map.mp hop
        rfl
      · intro hSorted
        rw [toOps_removed]
        exact exec_popUpTo n [] s.q.queues hSorted (by simp)

/-- The loop of `GetItem` and `GetItems` always ends its critical section: it removes something
exactly when there is something. -/
theorem getLoop_isSome (s : State Tid T) (t : Tid) (size : Option Nat) (timeout : Timeout) :
    (s.getLoop t size timeout).isSome := by
  unfold State.getLoop
  split_ifs with hNone hNull
  · rfl
  · rfl
  · cases size with
    | none =>
      rw [Option.isSome_map]
      exact popFirst_isSome (eq_false_of_ne_true hNone)
    | some n => rfl

omit [Measured T] in
/-- The second loop of `Stop`, and what it discards. -/
theorem effect_stopWritersLoop {s : State Tid T} (t : Tid)
    (hStop : s.q.cancel = true ∨ Stopping s) : Effect s (s.stopWritersLoop t) := by
  unfold State.stopWritersLoop
  split_ifs
  · exact .quiet [] (List.append_nil _).symm rfl rfl id
  · refine .emptied _ rfl ?_ hStop id ?_
    · rw [toOps_discarded]
      simp only [List.mem_flatMap, List.mem_map, forall_exists_index, and_imp]
      rintro op q _ r _ rfl
      rfl
    · intro hSorted
      rw [toOps_discarded]
      exact exec_dropAll [] s.q.queues hSorted

omit [Measured T] in
theorem effect_stopReadersLoop {s : State Tid T} (t : Tid)
    (hStop : s.q.cancel = true ∨ Stopping s) : Effect s (s.stopReadersLoop t) := by
  unfold State.stopReadersLoop
  split_ifs
  · exact .quiet [] (List.append_nil _).symm rfl rfl id
  · exact effect_stopWritersLoop t hStop

omit [DecidableEq Tid] [Measured T] in
theorem Effect.of_arrives {s s₀ s' : State Tid T} {t : Tid} (hAt : Arrives s t s₀)
    (h : Effect s₀ s') : Effect s s' := by
  cases hAt with
  | enters _ => exact h
  | fromSend _ => exact h.of_setQ rfl id
  | fromRecv _ => exact h.of_setQ rfl id

omit [DecidableEq Tid] [Measured T] in
theorem toOps_fails {t : Tid} {e : Event Tid T} (h : e.Fails t) : toOps [e] = [] := by
  obtain rfl | ⟨r, p, rfl⟩ := h
  · rfl
  · rfl

/-- Every step is one of these. -/
theorem effect_step {s s' : State Tid T} {l : Label Tid T} (hStep : step s l = some s') :
    Effect s s' := by
  cases moves_of_step hStep with
  | gaveUp hAt hFail =>
    refine Effect.of_arrives hAt ?_
    exact .quiet _ rfl (toOps_fails hFail) rfl id
  | put hAt hOpen hLoop =>
    exact Effect.of_arrives hAt (effect_putLoop (hAt.cancel_eq.trans hOpen) hLoop)
  | get hAt hOpen hLoop =>
    exact Effect.of_arrives hAt (effect_getLoop (hAt.cancel_eq.trans hOpen) hLoop)
  | stop hPc => exact (effect_stopReadersLoop _ (Or.inl rfl)).of_setQ rfl fun _ => rfl
  | stopReaders hPc => exact effect_stopReadersLoop _ (Or.inr ⟨_, Or.inl hPc⟩)
  | stopWriters hPc => exact effect_stopWritersLoop _ (Or.inr ⟨_, Or.inr hPc⟩)
  | restart => exact .restarted rfl rfl

-- ---------------------------------------------------------------------------
-- Threads inside `Stop`
-- ---------------------------------------------------------------------------
--
-- Without a `Start` in between, a thread inside `Stop` sees a cancelled queue.

omit [Measured T] in
theorem stopping_setPc {s : State Tid T} {t : Tid} {pc : Pc T}
    (h : Stopping (s.setPc t pc)) (hR : pc ≠ .stopReaders) (hW : pc ≠ .stopWriters) :
    Stopping s := by
  obtain ⟨u, hu⟩ := h
  by_cases hEq : u = t
  · subst hEq
    simp only [State.setPc, Function.update_self] at hu
    exact absurd hu (by simp [hR, hW])
  · simp only [State.setPc, Function.update_of_ne hEq] at hu
    exact ⟨u, hu⟩

omit [DecidableEq Tid] [Measured T] in
/-- A signal does not make anybody stop. -/
theorem stopping_signalSend {s : State Tid T} (h : Stopping s.signalSend) : Stopping s := by
  obtain ⟨u, hu⟩ := h
  refine ⟨u, ?_⟩
  simp only [State.signalSend] at hu
  cases hPc : s.pc u <;> simp_all [Pc.signalSend]

omit [DecidableEq Tid] [Measured T] in
theorem stopping_signalRecv {s : State Tid T} (h : Stopping s.signalRecv) : Stopping s := by
  obtain ⟨u, hu⟩ := h
  refine ⟨u, ?_⟩
  simp only [State.signalRecv] at hu
  cases hPc : s.pc u <;> simp_all [Pc.signalRecv]

theorem stopping_putLoop {s s' : State Tid T} {t : Tid} {r : T} {timeout : Timeout} {p : Int}
    (hStep : s.putLoop t r timeout p = some s') (h : Stopping s') : Stopping s := by
  unfold State.putLoop at hStep
  split at hStep
  · cases hStep
  · split_ifs at hStep
    · obtain rfl := Option.some.inj hStep
      exact stopping_signalRecv (stopping_setPc h (by simp) (by simp))
    · obtain rfl := Option.some.inj hStep
      exact stopping_setPc h (by simp) (by simp)
    · obtain rfl := Option.some.inj hStep
      exact stopping_setPc h (by simp) (by simp)

theorem stopping_getLoop {s s' : State Tid T} {t : Tid} {size : Option Nat} {timeout : Timeout}
    (hStep : s.getLoop t size timeout = some s') (h : Stopping s') : Stopping s := by
  unfold State.getLoop at hStep
  split_ifs at hStep
  · obtain rfl := Option.some.inj hStep
    exact stopping_setPc h (by simp) (by simp)
  · obtain rfl := Option.some.inj hStep
    exact stopping_setPc h (by simp) (by simp)
  · cases size with
    | none =>
      obtain ⟨x, -, rfl⟩ := Option.map_eq_some_iff.mp hStep
      exact stopping_signalSend (stopping_setPc h (by simp) (by simp))
    | some n =>
      obtain rfl := Option.some.inj hStep
      exact stopping_signalSend (stopping_setPc h (by simp) (by simp))

omit [DecidableEq Tid] [Measured T] in
theorem Stopping.of_arrives {s s₀ : State Tid T} {t : Tid} (hAt : Arrives s t s₀)
    (h : Stopping s₀) : Stopping s := by
  unfold Stopping at h ⊢
  rwa [hAt.pc_eq] at h

/-- A thread comes into the loops of `Stop` only by a step that sets `cancel`. -/
theorem stopping_step {s s' : State Tid T} {l : Label Tid T} (hStep : step s l = some s')
    (h : Stopping s') : Stopping s ∨ s'.q.cancel = true := by
  cases moves_of_step hStep with
  | gaveUp hAt hFail =>
    exact Or.inl (Stopping.of_arrives hAt (stopping_setPc h (by simp) (by simp)))
  | put hAt hOpen hLoop => exact Or.inl (Stopping.of_arrives hAt (stopping_putLoop hLoop h))
  | get hAt hOpen hLoop => exact Or.inl (Stopping.of_arrives hAt (stopping_getLoop hLoop h))
  | stop hPc =>
    refine Or.inr ?_
    unfold State.stopReadersLoop State.stopWritersLoop
    split_ifs <;> rfl
  | stopReaders hPc => exact Or.inl ⟨_, Or.inl hPc⟩
  | stopWriters hPc => exact Or.inl ⟨_, Or.inr hPc⟩
  | restart => exact Or.inl h

-- ---------------------------------------------------------------------------
-- Refinement of a run
-- ---------------------------------------------------------------------------

/-- The refinement relation: sorted sub-queues whose contents are what the history leaves. -/
structure Refines (s : State Tid T) : Prop where
  sorted : Sorted s.q.queues
  exec : Exec (fun _ => []) (toOps s.hist) (contents s.q.queues)

/-- The step lemma of the refinement. -/
theorem refines_step {s s' : State Tid T} {l : Label Tid T} (h : Refines s)
    (hStep : step s l = some s') : Refines s' := by
  cases effect_step hStep with
  | quiet es hHist hOps hQueues hCancel =>
    refine ⟨hQueues ▸ h.sorted, ?_⟩
    rw [hHist, toOps_append, hOps, List.append_nil, hQueues]
    exact h.exec
  | moved es hHist hOps hOpen hExec =>
    obtain ⟨hE, hS⟩ := hExec h.sorted
    refine ⟨hS, ?_⟩
    rw [hHist, toOps_append]
    exact h.exec.append hE
  | emptied es hHist hOps hStop hCancel hExec =>
    obtain ⟨hE, hS⟩ := hExec h.sorted
    refine ⟨hS, ?_⟩
    rw [hHist, toOps_append]
    exact h.exec.append hE
  | restarted hHist hQueues =>
    refine ⟨hQueues ▸ h.sorted, ?_⟩
    have hNone : toOps [(.started : Event Tid T)] = [] := rfl
    rw [hHist, toOps_append, hNone, List.append_nil, hQueues]
    exact h.exec

/-- Until the first `Start` after a `Stop`, drops come last and only in a cancelled queue. -/
structure DropsLast (s : State Tid T) : Prop where
  split : ∃ xs ys, toOps s.hist = xs ++ ys ∧ (∀ op ∈ xs, isDrop op = false) ∧
    (∀ op ∈ ys, isDrop op = true) ∧ (ys ≠ [] → s.q.cancel = true)
  stopping : Stopping s → s.q.cancel = true

/-- Behind the drops nothing is pushed until `Start`. -/
theorem dropsLast_step {s s' : State Tid T} {l : Label Tid T} (h : DropsLast s)
    (hStep : step s l = some s') (hStart : Event.started ∉ s'.hist) : DropsLast s' := by
  obtain ⟨xs, ys, hSplit, hxs, hys, hCancelled⟩ := h.split
  have hStopping := stopping_step hStep
  cases effect_step hStep with
  | quiet es hHist hOps hQueues hCancel =>
    refine ⟨⟨xs, ys, ?_, hxs, hys, fun hNe => hCancel (hCancelled hNe)⟩, fun hs => ?_⟩
    · rw [hHist, toOps_append, hOps, List.append_nil, hSplit]
    · exact (hStopping hs).elim (fun hOld => hCancel (h.stopping hOld)) id
  | moved es hHist hOps hOpen hExec =>
    -- items move only while the queue is open, so nothing has been dropped so far
    have hNil : ys = [] := by
      by_contra hNe
      exact absurd ((hCancelled hNe).symm.trans hOpen) (by decide)
    subst hNil
    refine ⟨⟨xs ++ toOps es, [], ?_, ?_, by simp, by simp⟩, fun hs => ?_⟩
    · rw [hHist, toOps_append, hSplit, List.append_nil, List.append_nil]
    · intro op hop
      exact (List.mem_append.mp hop).elim (hxs op) (hOps op)
    · refine (hStopping hs).elim (fun hOld => ?_) id
      exact absurd ((h.stopping hOld).symm.trans hOpen) (by decide)
  | emptied es hHist hOps hStop hCancel hExec =>
    have hTrue : s'.q.cancel = true := hStop.elim id fun hs => hCancel (h.stopping hs)
    refine ⟨⟨xs, ys ++ toOps es, ?_, hxs, ?_, fun _ => hTrue⟩, fun _ => hTrue⟩
    · rw [hHist, toOps_append, hSplit, List.append_assoc]
    · intro op hop
      exact (List.mem_append.mp hop).elim (hys op) (hOps op)
  | restarted hHist hQueues =>
    rw [hHist] at hStart
    simp at hStart

/-- A step only appends to the history. -/
theorem hist_prefix_step {s s' : State Tid T} {l : Label Tid T} (hStep : step s l = some s') :
    s.hist <+: s'.hist := by
  cases effect_step hStep with
  | quiet es hHist _ _ _ => exact ⟨es, hHist.symm⟩
  | moved es hHist _ _ _ => exact ⟨es, hHist.symm⟩
  | emptied es hHist _ _ _ _ => exact ⟨es, hHist.symm⟩
  | restarted hHist _ => exact ⟨_, hHist.symm⟩

end Steps

-- ---------------------------------------------------------------------------
-- The built queue
-- ---------------------------------------------------------------------------

theorem mem_of_hasQueue {s : SyncQueue T} {p : Int} :
    s.hasQueue p = true ↔ ∃ q ∈ s.queues, q.priority = p := by
  simp [SyncQueue.hasQueue, SyncQueue.findQueue]

/-- Sorting keeps the sub-queues. -/
theorem sortQueues_perm (qs : List (SimpleQueue T)) : (SyncQueue.sortQueues qs).Perm qs :=
  List.perm_insertionSort _ qs

/-- Sorting distinct priorities makes them strictly descending. -/
theorem sorted_sortQueues {qs : List (SimpleQueue T)}
    (hNe : qs.Pairwise fun a b => a.priority ≠ b.priority) : Sorted (SyncQueue.sortQueues qs) := by
  have : Std.Total (fun a b : SimpleQueue T => SimpleQueue.comp b a = false) :=
    ⟨fun a b => by simp only [SimpleQueue.comp, decide_eq_false_iff_not]; omega⟩
  have : IsTrans (SimpleQueue T) fun a b => SimpleQueue.comp b a = false :=
    ⟨fun a b c => by simp only [SimpleQueue.comp, decide_eq_false_iff_not]; omega⟩
  have hGe := List.pairwise_insertionSort
    (fun a b : SimpleQueue T => SimpleQueue.comp b a = false) qs
  have hNe' := (sortQueues_perm qs).symm.pairwise hNe fun hab => hab.symm
  refine (hGe.and hNe').imp ?_
  intro a b ⟨hle, hne⟩
  simp only [SimpleQueue.comp, decide_eq_false_iff_not] at hle
  omega

/-- `addQueue` accepts every list of distinct priorities, and builds a strictly sorted,
empty, open queue with exactly these priorities. -/
theorem build_spec (subqueues : List (Int × Int × Int)) (h : (subqueues.map Prod.fst).Nodup) :
    ∃ q : SyncQueue T, SyncQueue.build subqueues = some q ∧ Sorted q.queues ∧
      (∀ x ∈ q.queues, x.queue = []) ∧ q.cancel = false ∧
      (q.queues.map SimpleQueue.priority).Perm (subqueues.map Prod.fst) := by
  induction subqueues with
  | nil => exact ⟨SyncQueue.new, rfl, List.Pairwise.nil, by simp [SyncQueue.new], rfl, .refl _⟩
  | cons x rest ih =>
    obtain ⟨p, i, z⟩ := x
    rw [List.map_cons, List.nodup_cons] at h
    obtain ⟨q, hBuild, hSorted, hEmpty, hOpen, hPerm⟩ := ih h.2
    have hNew : ∀ y ∈ q.queues, y.priority ≠ p := by
      intro y hy hEq
      exact h.1 (hPerm.subset (hEq ▸ List.mem_map_of_mem hy))
    have hHas : q.hasQueue p = false := by
      rw [Bool.eq_false_iff, Ne, mem_of_hasQueue]
      rintro ⟨y, hy, hEq⟩
      exact hNew y hy hEq
    have hSort := sortQueues_perm (q.queues ++ [SimpleQueue.new p i z])
    refine ⟨{ q with queues := SyncQueue.sortQueues (q.queues ++ [.new p i z]) }, ?_, ?_, ?_,
      hOpen, ?_⟩
    · rw [SyncQueue.build, hBuild, Option.bind_some, SyncQueue.addQueue, hHas]
      rfl
    · apply sorted_sortQueues
      rw [List.pairwise_append]
      refine ⟨hSorted.imp fun hlt => hlt.ne', List.pairwise_singleton _ _, ?_⟩
      intro a ha b hb
      rw [List.mem_singleton.mp hb]
      exact hNew a ha
    · intro y hy
      rcases List.mem_append.mp (hSort.subset hy) with hy | hy
      · exact hEmpty y hy
      · rw [List.mem_singleton.mp hy]; rfl
    · refine (hSort.map _).trans ?_
      rw [List.map_append]
      exact (List.perm_append_singleton _ _).trans (hPerm.cons p)

-- ---------------------------------------------------------------------------
-- Delivery
-- ---------------------------------------------------------------------------

/-- What an event does to the contents of the sub-queues. -/
def Event.apply (c : Int → List T) : Event Tid T → Int → List T
  | .put _ r p true => Function.update c p (c p ++ [r])
  | .removed _ _ p => Function.update c p (c p).tail
  | .discarded _ p => Function.update c p (c p).tail
  | _ => c

/-- What each sub-queue holds after a history: items appended by the successful puts and
taken from the front by the removals and discards. -/
def queuedAfter (hist : List (Event Tid T)) : Int → List T :=
  hist.foldl Event.apply fun _ => []

/-- The history determines the contents. -/
theorem exec_eq_foldl {c d : Int → List T} (hist : List (Event Tid T))
    (h : Exec c (toOps hist) d) : d = hist.foldl Event.apply c := by
  induction hist generalizing c with
  | nil => cases h; rfl
  | cons e es ih =>
    rw [List.foldl_cons]
    cases e with
    | put t r p ok =>
      cases ok with
      | false => exact ih h
      | true =>
        cases h with
        | cons hop hRest => cases hop; exact ih hRest
    | removed t r p =>
      cases h with
      | cons hop hRest =>
        cases hop with
        | pop hHead _ =>
          rw [Event.apply, hHead, List.tail_cons]
          exact ih hRest
    | nothing t => exact ih h
    | discarded r p =>
      cases h with
      | cons hop hRest =>
        cases hop with
        | drop hHead =>
          rw [Event.apply, hHead, List.tail_cons]
          exact ih hRest
    | started => exact ih h

/-- Only successful puts are pushes. -/
theorem exists_put_of_mem_pushed {p : Int} {r : T} {hist : List (Event Tid T)}
    (h : r ∈ pushed p (toOps hist)) : ∃ t, .put t r p true ∈ hist := by
  induction hist with
  | nil => simp [toOps, pushed] at h
  | cons e es ih =>
    have hRest : r ∈ pushed p (toOps es) → ∃ t, .put t r p true ∈ e :: es := fun hr =>
      (ih hr).imp fun t ht => List.mem_cons_of_mem _ ht
    cases e with
    | put t r' p' ok =>
      cases ok with
      | false => exact hRest h
      | true =>
        simp only [toOps, List.filterMap_cons, Event.toOp, pushed] at h
        split at h
        · rename_i hp
          rcases List.mem_cons.mp h with hEq | hr
          · exact ⟨t, by rw [hEq, hp]; exact List.mem_cons_self ..⟩
          · exact hRest hr
        · exact hRest h
    | removed t r' p' => exact hRest h
    | nothing t => exact hRest h
    | discarded r' p' => exact hRest h
    | started => exact hRest h

/-- The items put into a sub-queue by the calls that returned true, in order. -/
def putInto (p : Int) (hist : List (Event Tid T)) : List T := pushed p (toOps hist)

/-- The items `GetItem` and `GetItems` removed from a sub-queue, in order. -/
def removedFrom (p : Int) (hist : List (Event Tid T)) : List T := popped p (toOps hist)

/-- The items of a sub-queue that `Stop` discarded, in order. -/
def discardedFrom (p : Int) (hist : List (Event Tid T)) : List T := dropped p (toOps hist)

variable (Tid T) in
/--
**Priority-FIFO delivery.** Take any sub-queues with distinct priorities and any schedule
of critical sections of any number of threads, ending in the state `s`.

* Each removal took the oldest item of the highest-priority sub-queue that was non-empty
  at that moment (`queuedAfter` of the events before it; for the whole history this is what
  the sub-queues hold).
* As long as nothing is restarted after a `Stop`, the items removed from a sub-queue are a
  prefix of the items successfully put into it.
* The items successfully put into a sub-queue are those removed, those discarded by `Stop`
  and those still queued, each exactly once.
* An item no successful `PutItem` has put is not in the queue.
-/
theorem syncQueue_priority_fifo [DecidableEq Tid] [Measured T] (subqueues : List (Int × Int × Int))
    (hDistinct : (subqueues.map Prod.fst).Nodup) :
    ∃ q : SyncQueue T, SyncQueue.build subqueues = some q ∧
      ∀ (schedule : List (Label Tid T)) (s : State Tid T),
        run step (initial q) schedule = some s →
        contents s.q.queues = queuedAfter s.hist ∧
        (∀ before t r p after, s.hist = before ++ .removed t r p :: after →
          (queuedAfter before p).head? = some r ∧ ∀ p', queuedAfter before p' ≠ [] → p' ≤ p) ∧
        (.started ∉ s.hist → ∀ p, removedFrom p s.hist <+: putInto p s.hist) ∧
        (∀ p, (putInto p s.hist).Perm
          (removedFrom p s.hist ++ discardedFrom p s.hist ++ contents s.q.queues p)) ∧
        (∀ r, (∀ t p, .put t r p true ∉ s.hist) → ∀ p, r ∉ contents s.q.queues p) := by
  obtain ⟨q, hBuild, hSorted, hEmpty, hOpen, -⟩ := build_spec (T := T) subqueues hDistinct
  refine ⟨q, hBuild, fun schedule s hRun => ?_⟩
  have hNil : contents q.queues = fun _ => [] :=
    funext fun p => contents_eq_nil fun x hx _ => hEmpty x hx
  have hInit : Refines (initial q : State Tid T) :=
    ⟨hSorted, show Exec _ [] (contents q.queues) by rw [hNil]; exact .nil _⟩
  have hRef : Refines s := run_invariant Refines (fun _ _ _ h hs => refines_step h hs) hRun hInit
  have hFifo := hRef.exec.fifo
  simp only [List.nil_append] at hFifo
  refine ⟨exec_eq_foldl s.hist hRef.exec, ?_, ?_, ?_, ?_⟩
  · intro before t r p after hSplit
    have hOps : toOps s.hist = toOps before ++ .pop p r :: toOps after := by
      rw [hSplit, toOps_append]
      rfl
    obtain ⟨d, hd, hHead, hBest⟩ := (hOps ▸ hRef.exec).pop_best
    rw [exec_eq_foldl before hd] at hHead hBest
    exact ⟨hHead, hBest⟩
  · intro hStart p
    -- no restart in the whole history, hence none in any state on the way
    have hDrops : .started ∉ s.hist → DropsLast s :=
      run_invariant (fun s => .started ∉ s.hist → DropsLast s)
        (fun a l b h hs hNo => dropsLast_step
          (h fun hMem => hNo ((hist_prefix_step hs).subset hMem)) hs hNo) hRun
        fun _ => ⟨⟨[], [], rfl, by simp, by simp, by simp⟩, by rintro ⟨t, ht | ht⟩ <;> cases ht⟩
    obtain ⟨xs, ys, hSplit, hxs, hys, -⟩ := (hDrops hStart).split
    have hExec := hRef.exec
    rw [removedFrom, putInto, hSplit]
    rw [hSplit] at hExec
    exact hExec.popped_prefix p rfl hxs hys
  · intro p
    rw [putInto, hFifo p]
    exact (left_perm p _).append_right _
  · intro r hNo p hMem
    have hPut : r ∈ pushed p (toOps s.hist) := by
      rw [hFifo p]
      exact List.mem_append_right _ hMem
    obtain ⟨t, ht⟩ := exists_put_of_mem_pushed hPut
    exact hNo t p ht

/-- Two sub-queues and three calls: the item with priority 5 overtakes the older one. -/
theorem syncQueue_priority_fifo_overtakes :
    ∃ q : SyncQueue Nat, SyncQueue.build [(0, 0, 0), (5, 1, 0)] = some q ∧
      ∃ s : State Bool Nat,
        run step (initial q)
          [.putItem true 7 .null 0, .putItem true 8 .null 5, .getItem false .null] = some s ∧
        contents s.q.queues = queuedAfter s.hist ∧ removedFrom 5 s.hist = [8] ∧
        removedFrom 5 s.hist <+: putInto 5 s.hist := by
  obtain ⟨q, hBuild, hAll⟩ :=
    syncQueue_priority_fifo Bool Nat [(0, 0, 0), (5, 1, 0)] (by decide)
  obtain rfl := Option.some.inj hBuild
  obtain ⟨hContents, -, hPrefix, -, -⟩ :=
    hAll [.putItem true 7 .null 0, .putItem true 8 .null 5, .getItem false .null] _ rfl
  exact ⟨_, rfl, _, rfl, hContents, rfl, hPrefix (by decide) 5⟩

end HectorCore.Queue
