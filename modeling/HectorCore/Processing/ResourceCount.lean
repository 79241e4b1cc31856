import HectorCore.Lib.Run
import HectorCore.Lib.Tally
import HectorCore.Processing.Accounting
import Mathlib.Data.List.Induction

/-!
# ResourceCount — the engine's counter against the resources inside

`ProcessingEngine::UpdateResourceCount` keeps `resourceCount`; batch mode relies on it being
the number of resources inside the engine. The processors of an engine, of one thread each,
take turns with whole calls (reading the input queue, `ApplyModules`, `QueueResource`,
`ProcessMulti` with its `delta`, the flushing of `deletedResources`); each turn may use any
argument.

The ledger is read off the common log: a resource enters when it is fetched, dequeued from
the engine's input queue while it is not inside, copied by a copy filter or made by a MULTI
module, and it leaves when it is consumed, released or put into the engine's output queue.

* `counted`           — the difference of the two is an `Accounting`, up to four kinds of
  events that the code counts differently;
* `misreported`       — the code knows of the resources inside a MULTI module by the number it
  reports, which may be wrong;
* `resourceCount_drift` — in every reachable state the difference is the number of those events
  and what is misreported;
* `resourceCount_exact_iff` — so the counter is exact just when they balance.
-/

namespace HectorCore.Processing

-- ---------------------------------------------------------------------------
-- The ledger
-- ---------------------------------------------------------------------------

/-- The value of `resourceCount` after the calls of `UpdateResourceCount` in the log. -/
def resourceCount (log : List Event) : Int :=
  (log.map fun
    | .updateResourceCount n => n
    | _ => 0).sum

/-- What is inside: for each address, and in total. -/
structure Ledger where
  here : Nat → Int
  total : Int
  /-- Dequeued from the engine's input queue while still inside. -/
  loopBacks : Int

namespace Ledger

def empty : Ledger := ⟨fun _ => 0, 0, 0⟩

def enter (l : Ledger) (r : Resource) : Ledger :=
  { l with here := Function.update l.here r.ptr (l.here r.ptr + 1), total := l.total + 1 }

def leave (l : Ledger) (r : Resource) : Ledger :=
  { l with here := Function.update l.here r.ptr (l.here r.ptr - 1), total := l.total - 1 }

/-- One event of an engine with these two queues. -/
def record (inputQueue outputQueue : Option QueueRef) (l : Ledger) : Event → Ledger
  | .fetched r => l.enter r
  | .dequeued q r =>
    if inputQueue = some q then
      if l.here r.ptr ≤ 0 then l.enter r else { l with loopBacks := l.loopBacks + 1 }
    else l
  -- a copy that goes straight into the output queue has entered and left
  | .routedCopy _ q _ copy =>
    if outputQueue = some q then (l.enter copy).leave copy else l.enter copy
  | .refusedCopy _ _ copy => l.enter copy
  | .created rs => rs.foldl enter l
  | .routed _ q r => if outputQueue = some q then l.leave r else l
  | .consumed r | .released r | .flushed r => l.leave r
  | .simple .. | .refused .. | .retryRefused .. | .updateResourceCount _ | .updateSleeping _ => l

end Ledger

/-- The ledger of a log. -/
def ledger (inputQueue outputQueue : Option QueueRef) (log : List Event) : Ledger :=
  log.foldl (Ledger.record inputQueue outputQueue) Ledger.empty

/-- An INPUT module returned a resource that is already deleted. -/
def Event.isDeletedInput : Event → Bool
  | .fetched r => r.deleted
  | _ => false

/-- The target of a copy filter refused the clone. -/
def Event.isRefusedCopy : Event → Bool
  | .refusedCopy .. => true
  | _ => false

/-- A clone went into the engine's output queue. -/
def Event.isCopyOut (outputQueue : Option QueueRef) : Event → Bool
  | .routedCopy _ q _ _ => outputQueue = some q
  | _ => false

-- ---------------------------------------------------------------------------
-- The engine
-- ---------------------------------------------------------------------------

/-- An engine: its processors, each with one thread and that thread's modules, and the two
queues of the engine. The processors have passed the check of `Init`, and their filters lead
to processors of the engine or to its output queue. -/
structure Engine (ι σ : Type) where
  processor : ι → Processor
  world : ι → World σ
  inputQueue : Option QueueRef
  outputQueue : Option QueueRef
  input_eq : ∀ i, (processor i).engineInputQueue = inputQueue
  output_eq : ∀ i, (processor i).engineOutputQueue = outputQueue
  checked : ∀ i, (processor i).checkModules = true
  connected : ∀ i, ∀ f ∈ (processor i).outputFilters,
    outputQueue = some f.queue ∨ ∃ j, f.queue = (processor j).inputQueue

/-- What each processor and its thread have for themselves, and what they share. -/
structure EngineState (ι σ : Type) where
  threads : ι → Thread σ
  shared : σ
  log : List Event

variable {ι σ : Type} [DecidableEq ι]

namespace EngineState

/-- The thread of processor `i` with the shared state. -/
def enter (s : EngineState ι σ) (i : ι) : Thread σ :=
  { s.threads i with world := s.shared, log := s.log }

/-- The thread of processor `i` has made a call. -/
def leave (s : EngineState ι σ) (i : ι) (t : Thread σ) : EngineState ι σ :=
  { threads := Function.update s.threads i t, shared := t.world, log := t.log }

end EngineState

/-- A turn of a thread. -/
inductive Call where
  | readResource (resourcesRead : Int)
  | applyModules (fuel : Nat) (sleep : Bool) (index : Nat) (resource : Option Resource)
  | queueResource (r : Resource) (wait : Bool) (filterIndex : Option Nat)
  | processMulti (k : Nat)
  | pushInput (k : Nat) (r : Resource)
  | pushOutput (k : Nat) (r : Resource)
  | popOutput (k : Nat)
  | flushDeleted

/-- The turn of a thread of processor `p`. -/
def perform (w : World σ) (p : Processor) (t : Thread σ) : Call → Option (Thread σ)
  | .readResource read => p.types.head?.map fun first => (readResource w p first read t).2
  | .applyModules fuel sleep index resource =>
    -- the caller has nothing in hand when the first module is INPUT
    if index = 0 ∧ p.types.head? = some .input ∧ resource.isSome then none
    else
      match applyModules w p fuel sleep (p.modulesFrom index) resource t with
      | .ok (_, _, t) => some t
      | .error _ => none
  | .queueResource r wait filterIndex => some (queueResource w p r wait filterIndex t).2.2
  | .processMulti k =>
    match t.mis[k]? with
    | none => none
    | some mi =>
      match callMulti w p k mi t with
      | .ok (a, t) => some { t with
          mis := t.mis.modify k fun mi => { mi with outputResources := a.outputResources } }
      | .error _ => none
  | .pushInput k r => some (t.pushInput k r)
  | .pushOutput k r => some (t.pushOutput k r)
  | .popOutput k => some { t with
      mis := t.mis.modify k fun mi => { mi with outputResources := mi.outputResources.tail } }
  | .flushDeleted => some (flushDeleted w p t.deletedResources t)

namespace Engine

variable (e : Engine ι σ)

def step (s : EngineState ι σ) : ι × Call → Option (EngineState ι σ)
  | (i, c) => (perform (e.world i) (e.processor i) (s.enter i) c).map (s.leave i)

/-- Before the threads start. -/
def initial (shared : σ) : EngineState ι σ :=
  { threads := fun i => Thread.start (e.processor i) shared, shared, log := [] }

/-- MULTI modules neither drop nor duplicate resources, what they make themselves aside. What
they report is up to them. -/
def KeepsResources : Prop :=
  ∀ i k mi s, let a := ((e.world i).processMulti k mi s).1
    a.inputResources.length + a.outputResources.length + a.inside.length =
      mi.inputResources.length + mi.outputResources.length + mi.inside.length + a.created.length

def inside (s : EngineState ι σ) : Int := (ledger e.inputQueue e.outputQueue s.log).total

end Engine

/-- How many resources more than it holds the module has reported. -/
def ModuleInfo.misreported (mi : ModuleInfo) : Int := mi.processingResources - mi.inside.length

def misreportedBy (mis : List ModuleInfo) : Int := (mis.map ModuleInfo.misreported).sum

/-- The modules of all processors together. -/
def Engine.misreported [Fintype ι] (s : EngineState ι σ) : Int :=
  Lib.tally (fun _ => ()) (fun i => misreportedBy (s.threads i).mis) ()

-- ---------------------------------------------------------------------------
-- The difference as an accounting
-- ---------------------------------------------------------------------------

/-- What an event adds to `resourceCount`, less what it adds to the resources inside, the
four kinds of irregular events aside. -/
def countedEvent (inputQueue outputQueue : Option QueueRef) : Event → Int
  | .updateResourceCount n => n
  | .fetched r => if r.deleted then 0 else -1
  | .dequeued q _ => if inputQueue = some q then -1 else 0
  | .routedCopy .. => -1
  | .created rs => -rs.length
  | .routed _ q _ => if outputQueue = some q then 1 else 0
  | .consumed _ | .released _ | .flushed _ => 1
  | .refusedCopy .. | .simple .. | .refused .. | .retryRefused .. | .updateSleeping _ => 0

/-- Nothing is owed for a resource that lies in a place: it is inside. -/
def counted (p : Processor) : Accounting p where
  event := countedEvent p.engineInputQueue p.engineOutputQueue
  place _ := 0
  updateSleeping _ := rfl
  dequeuedInside r hIn := by simp [countedEvent, hIn]
  dequeuedOutside r hIn := by simp [countedEvent, hIn]
  routedCopy _ _ _ _ := rfl
  refusedCopy _ _ _ := rfl
  refused _ _ := rfl
  routedInside _ _ _ hOut := by simp [countedEvent, hOut]
  routedOutside _ _ _ hOut := by simp [countedEvent, hOut]
  released _ := rfl
  fetchedDeleted r hDeleted := by simp [countedEvent, hDeleted]
  fetched r hDeleted := by simp [countedEvent, hDeleted]
  consumed _ := rfl
  simple _ _ := rfl
  flushed _ := rfl

/-- The sum over a log. -/
def countedLog (inputQueue outputQueue : Option QueueRef) (log : List Event) : Int :=
  (log.map (countedEvent inputQueue outputQueue)).sum

@[simp] theorem counted_places (p : Processor) (rs : List Resource) :
    (counted p).places rs = 0 := by
  induction rs with
  | nil => rfl
  | cons r rs ih =>
    rw [Accounting.places_cons, ih]
    rfl

@[simp] theorem counted_hand (p : Processor) (o : Option Resource) : (counted p).hand o = 0 :=
  counted_places p o.toList

theorem counted_worth (p : Processor) (t : Thread σ) :
    (counted p).worth t = countedLog p.engineInputQueue p.engineOutputQueue t.log := by
  simp only [Accounting.worth, counted_places, counted_hand]
  show 0 + 0 + countedLog p.engineInputQueue p.engineOutputQueue t.log = _
  omega

namespace Ledger

variable (inputQueue outputQueue : Option QueueRef)

theorem foldl_enter (rs : List Resource) :
    ∀ l : Ledger, (rs.foldl enter l).total = l.total + rs.length ∧
      (rs.foldl enter l).loopBacks = l.loopBacks := by
  induction rs with
  | nil => intro l; simp
  | cons r rs ih =>
    intro l
    obtain ⟨hTotal, hLoop⟩ := ih (l.enter r)
    rw [List.foldl_cons, hTotal, hLoop, List.length_cons]
    refine ⟨?_, rfl⟩
    show l.total + 1 + _ = _
    push_cast
    omega

/-- What an event adds to the resources inside, every dequeue counted. -/
def inflow : Event → Int
  | .fetched _ | .refusedCopy .. => 1
  | .dequeued q _ => if inputQueue = some q then 1 else 0
  | .routedCopy _ q _ _ => if outputQueue = some q then 0 else 1
  | .created rs => rs.length
  | .routed _ q _ => if outputQueue = some q then -1 else 0
  | .consumed _ | .released _ | .flushed _ => -1
  | .simple .. | .refused .. | .retryRefused .. | .updateResourceCount _ | .updateSleeping _ => 0

theorem record_inflow (l : Ledger) (e : Event) :
    (l.record inputQueue outputQueue e).total + (l.record inputQueue outputQueue e).loopBacks =
      l.total + l.loopBacks + inflow inputQueue outputQueue e := by
  cases e with
  | created rs =>
    obtain ⟨hTotal, hLoop⟩ := foldl_enter rs l
    simp only [record, hTotal, hLoop, inflow]
    omega
  | dequeued q r =>
    simp only [record, inflow]
    split_ifs with hIn hHere
    · simp only [enter]
      omega
    · show l.total + (l.loopBacks + 1) = _
      omega
    · omega
  | routedCopy pos q r copy =>
    simp only [record, inflow]
    split_ifs <;> simp only [enter, leave] <;> omega
  | routed pos q r =>
    simp only [record, inflow]
    split_ifs with hOut
    · simp only [leave]
      omega
    · omega
  | _ =>
    simp only [record, inflow, enter, leave]
    omega

/-- The ledger and the counter move together, except for the irregular events. -/
theorem countedEvent_eq (e : Event) :
    countedEvent inputQueue outputQueue e =
      resourceCount [e] - inflow inputQueue outputQueue e -
        (if e.isCopyOut outputQueue then 1 else 0) + (if e.isDeletedInput then 1 else 0) +
        (if e.isRefusedCopy then 1 else 0) := by
  cases e with
  | dequeued q r => by_cases hIn : inputQueue = some q <;> simp [countedEvent, resourceCount,
      inflow, Event.isCopyOut, Event.isDeletedInput, Event.isRefusedCopy, hIn]
  | fetched r => cases hDeleted : r.deleted <;> simp [countedEvent, resourceCount, inflow,
      Event.isCopyOut, Event.isDeletedInput, Event.isRefusedCopy, hDeleted]
  | routed pos q r => by_cases hOut : outputQueue = some q <;> simp [countedEvent, resourceCount,
      inflow, Event.isCopyOut, Event.isDeletedInput, Event.isRefusedCopy, hOut]
  | routedCopy pos q r copy => by_cases hOut : outputQueue = some q <;> simp [countedEvent,
      resourceCount, inflow, Event.isCopyOut, Event.isDeletedInput, Event.isRefusedCopy, hOut]
  | _ => simp [countedEvent, resourceCount, inflow, Event.isCopyOut, Event.isDeletedInput,
      Event.isRefusedCopy]

end Ledger

/-- A whole log. -/
theorem ledger_counted (inputQueue outputQueue : Option QueueRef) (log : List Event) :
    countedLog inputQueue outputQueue log =
      resourceCount log - (ledger inputQueue outputQueue log).total -
        (ledger inputQueue outputQueue log).loopBacks -
        log.countP (·.isCopyOut outputQueue) + log.countP Event.isDeletedInput +
        log.countP Event.isRefusedCopy := by
  induction log using List.reverseRecOn with
  | nil => rfl
  | append_singleton log e ih =>
    have hEvent := Ledger.countedEvent_eq inputQueue outputQueue e
    have hInflow := (ledger inputQueue outputQueue log).record_inflow inputQueue outputQueue e
    have hLedger : ledger inputQueue outputQueue (log ++ [e]) =
        (ledger inputQueue outputQueue log).record inputQueue outputQueue e := by
      simp [ledger]
    have hCounted : countedLog inputQueue outputQueue (log ++ [e]) =
        countedLog inputQueue outputQueue log + countedEvent inputQueue outputQueue e := by
      simp [countedLog]
    have hCount : resourceCount (log ++ [e]) = resourceCount log + resourceCount [e] := by
      simp [resourceCount]
    rw [hLedger, hCounted, hCount, ih, hEvent]
    simp only [List.countP_append, List.countP_singleton]
    split_ifs <;> push_cast <;> omega

-- ---------------------------------------------------------------------------
-- Steps and runs
-- ---------------------------------------------------------------------------

/-- One module changes what it reports, or what it holds. -/
theorem misreportedBy_set {mis : List ModuleInfo} {k : Nat} {mi : ModuleInfo}
    (hModule : mis[k]? = some mi) (mi' : ModuleInfo) :
    misreportedBy (mis.set k mi') = misreportedBy mis + (mi'.misreported - mi.misreported) := by
  induction mis generalizing k with
  | nil => exact absurd hModule (by simp)
  | cons m mis ih =>
    cases k with
    | zero =>
      obtain rfl : m = mi := by simpa using hModule
      simp only [misreportedBy, List.set_cons_zero, List.map_cons, List.sum_cons]
      omega
    | succ k =>
      have hRest := ih (k := k) (by simpa using hModule)
      simp only [misreportedBy] at hRest
      simp only [misreportedBy, List.set_cons_succ, List.map_cons, List.sum_cons, hRest]
      omega

/-- The queues of a module do not count. -/
theorem misreportedBy_modify (mis : List ModuleInfo) (k : Nat) {f : ModuleInfo → ModuleInfo}
    (hf : ∀ mi, (f mi).misreported = mi.misreported) :
    misreportedBy (mis.modify k f) = misreportedBy mis := by
  cases hModule : mis[k]? with
  | none => rw [List.modify_eq_self (List.getElem?_eq_none_iff.mp hModule)]
  | some mi =>
    rw [List.modify_eq_set_getElem?, hModule]
    show misreportedBy (mis.set k (f mi)) = _
    rw [misreportedBy_set hModule, hf]
    omega

/-- What a thread has done to the books of its engine: `countedLog` moves with what its modules
misreport. -/
def Balanced (inputQueue outputQueue : Option QueueRef) (t t' : Thread σ) : Prop :=
  countedLog inputQueue outputQueue t'.log - misreportedBy t'.mis =
    countedLog inputQueue outputQueue t.log - misreportedBy t.mis

theorem Balanced.trans {inputQueue outputQueue : Option QueueRef} {t t' t'' : Thread σ}
    (h : Balanced inputQueue outputQueue t t') (h' : Balanced inputQueue outputQueue t' t'') :
    Balanced inputQueue outputQueue t t'' :=
  Eq.trans h' h

/-- The queues of a module change. -/
theorem Balanced.of_modify {inputQueue outputQueue : Option QueueRef} (t : Thread σ) (k : Nat)
    (f : ModuleInfo → ModuleInfo) (hf : ∀ mi, (f mi).misreported = mi.misreported) :
    Balanced inputQueue outputQueue t { t with mis := t.mis.modify k f } :=
  congrArg (countedLog inputQueue outputQueue t.log - ·) (misreportedBy_modify t.mis k hf)

/-- The call of `ProcessMulti` reports to the engine what the module made, as far as its reports
are right. -/
theorem callMulti_balanced {w : World σ} {p : Processor} {k : Nat} {mi : ModuleInfo}
    {a : MultiAnswer} {t t' : Thread σ}
    (hKeeps : let a := (w.processMulti k mi t.world).1
      a.inputResources.length + a.outputResources.length + a.inside.length =
        mi.inputResources.length + mi.outputResources.length + mi.inside.length + a.created.length)
    (hModule : t.mis[k]? = some mi) (h : callMulti w p k mi t = .ok (a, t')) :
    Balanced p.engineInputQueue p.engineOutputQueue t t' := by
  rw [callMulti] at h
  obtain ⟨ans, t₁, hCall⟩ : ∃ ans t₁, t.call (w.processMulti k mi) = (ans, t₁) := ⟨_, _, rfl⟩
  have hAnswer : ans = (w.processMulti k mi t.world).1 := (congrArg Prod.fst hCall).symm
  have hSame : t₁.log = t.log ∧ t₁.mis = t.mis := by
    have hThread : t₁ = (t.call (w.processMulti k mi)).2 := by rw [hCall]
    rw [hThread]
    exact ⟨rfl, rfl⟩
  rw [← hAnswer] at hKeeps
  simp only [hCall] at h
  split at h
  · simp at h
  obtain ⟨-, rfl⟩ := Prod.mk.inj (Except.ok.inj h)
  -- `delta` is minus the number of resources made, and minus what is misreported since
  have hSet := misreportedBy_set hModule { mi with
    inputResources := ans.inputResources, outputResources := []
    inside := ans.inside, processingResources := ans.processingResources }
  simp only [ModuleInfo.misreported] at hSet
  split
  · rename_i hNone
    simp only [Balanced, Thread.setModule, Thread.emit, countedLog, List.map_append, List.map_cons,
      List.map_nil, List.sum_append, List.sum_cons, List.sum_nil, countedEvent, hSame.1, hSame.2,
      hSet]
    omega
  · simp only [Balanced, Thread.setModule, Thread.emit, countedLog, List.map_append, List.map_cons,
      List.map_nil, List.sum_append, List.sum_cons, List.sum_nil, countedEvent, hSame.1, hSame.2,
      hSet]
    omega

/-- **Every call keeps the books.** -/
theorem perform_balanced {w : World σ} {p : Processor} {t t' : Thread σ} {c : Call}
    (hCheck : p.checkModules = true)
    (hKeeps : ∀ k mi s, let a := (w.processMulti k mi s).1
      a.inputResources.length + a.outputResources.length + a.inside.length =
        mi.inputResources.length + mi.outputResources.length + mi.inside.length + a.created.length)
    (h : perform w p t c = some t') :
    Balanced p.engineInputQueue p.engineOutputQueue t t' := by
  -- calls that leave the modules' queues alone are worth nothing in this ledger
  have hOfMoved : ∀ {d : Int} {u : Thread σ}, d = 0 → (counted p).Moved d t u →
      Balanced p.engineInputQueue p.engineOutputQueue t u := by
    intro d u hd hMoved
    rw [Balanced, ← counted_worth, ← counted_worth, hMoved.worth, hMoved.mis, hd, Int.add_zero]
  have hSimple : (counted p).SimpleKeeps w := fun i r s => by rw [counted_hand]; rfl
  cases c with
  | readResource read =>
    obtain ⟨first, -, rfl⟩ : ∃ first, p.types.head? = some first ∧
        (readResource w p first read t).2 = t' := by
      simpa [perform] using h
    exact hOfMoved (by simp) ((counted p).readResource_moved rfl).1
  | applyModules fuel sleep index resource =>
    rw [perform] at h
    split at h
    · simp at h
    · rename_i hHand
      split at h
      · rename_i o stop u hApply
        obtain rfl : u = t' := by simpa using h
        refine hOfMoved (by simp)
          ((counted p).applyModules_moved hCheck hSimple (fun hIndex hFirst => ?_) hApply)
        by_contra hSome
        exact hHand ⟨hIndex, hFirst, Option.isSome_iff_ne_none.mpr hSome⟩
      · simp at h
  | queueResource r wait filterIndex =>
    obtain rfl : (queueResource w p r wait filterIndex t).2.2 = t' := by simpa [perform] using h
    exact hOfMoved (by split <;> rfl) ((counted p).queueResource_moved rfl)
  | processMulti k =>
    rw [perform] at h
    split at h
    · simp at h
    · rename_i mi hModule
      split at h
      · rename_i a u hCall
        obtain rfl := Option.some.inj h
        exact (callMulti_balanced (hKeeps k mi t.world) hModule hCall).trans
          (Balanced.of_modify u k _ fun _ => rfl)
      · simp at h
  | pushInput k r =>
    obtain rfl := Option.some.inj h
    exact Balanced.of_modify t k _ fun _ => rfl
  | pushOutput k r =>
    obtain rfl := Option.some.inj h
    exact Balanced.of_modify t k _ fun _ => rfl
  | popOutput k =>
    obtain rfl := Option.some.inj h
    exact Balanced.of_modify t k _ fun _ => rfl
  | flushDeleted =>
    obtain rfl := Option.some.inj h
    exact hOfMoved (by simp) ((counted p).flushDeleted_moved w _ t)

namespace Engine

variable [Fintype ι] {e : Engine ι σ}

theorem counted_step (hKeeps : e.KeepsResources) {s s' : EngineState ι σ} {c : ι × Call}
    (hCounted : countedLog e.inputQueue e.outputQueue s.log = misreported s)
    (hStep : e.step s c = some s') :
    countedLog e.inputQueue e.outputQueue s'.log = misreported s' := by
  obtain ⟨i, c⟩ := c
  obtain ⟨t, hPerform, rfl⟩ := Option.map_eq_some_iff.mp hStep
  have hBalanced := perform_balanced (e.checked i) (hKeeps i) hPerform
  rw [Balanced, e.input_eq i, e.output_eq i] at hBalanced
  have hOff : ∀ j, j ≠ i →
      misreportedBy ((s.leave i t).threads j).mis = misreportedBy (s.threads j).mis := by
    intro j hj
    simp only [EngineState.leave, Function.update_of_ne hj]
  have hTotal : misreported (s.leave i t) = misreported s +
      (misreportedBy t.mis - misreportedBy (s.threads i).mis) := by
    unfold misreported
    rw [Lib.tally_change i hOff, if_pos rfl]
    simp only [EngineState.leave, Function.update_self]
  rw [hTotal, ← hCounted]
  show countedLog e.inputQueue e.outputQueue t.log = _
  have hBefore : (s.enter i).log = s.log ∧ (s.enter i).mis = (s.threads i).mis := ⟨rfl, rfl⟩
  rw [hBefore.1, hBefore.2] at hBalanced
  omega

omit [DecidableEq ι] in
theorem misreported_initial (shared : σ) : misreported (e.initial shared) = 0 := by
  have hNew : ∀ types : List ModuleType,
      misreportedBy (types.map ModuleInfo.new) = 0 := by
    intro types
    induction types with
    | nil => rfl
    | cons type types ih =>
      simp only [misreportedBy] at ih
      simpa [misreportedBy, ModuleInfo.misreported, ModuleInfo.new] using ih
  unfold misreported
  simp only [initial, Thread.start, hNew]
  exact Lib.tally_zero

/-- **The drift of the counter.** In every reachable state, `resourceCount` exceeds the
number of resources inside by the loop-backs, the copies into the output queue and what the
MULTI modules report too much, and falls short of it by the deleted inputs and the refused
copies. -/
theorem resourceCount_drift (hKeeps : e.KeepsResources) {shared : σ} {calls : List (ι × Call)}
    {s : EngineState ι σ} (hRun : Lib.run e.step (e.initial shared) calls = some s) :
    resourceCount s.log = e.inside s + (ledger e.inputQueue e.outputQueue s.log).loopBacks +
      s.log.countP (·.isCopyOut e.outputQueue) + misreported s -
      s.log.countP Event.isDeletedInput - s.log.countP Event.isRefusedCopy := by
  have hCounted := Lib.run_invariant
    (fun s => countedLog e.inputQueue e.outputQueue s.log = misreported s)
    (fun _ _ _ => counted_step hKeeps) hRun (misreported_initial shared).symm
  rw [ledger_counted] at hCounted
  rw [inside]
  omega

/-- **The counter is exact, exactly when the irregular events and the wrong reports balance.** -/
theorem resourceCount_exact_iff (e : Engine ι σ) (hKeeps : e.KeepsResources) (shared : σ)
    (calls : List (ι × Call)) (s : EngineState ι σ)
    (hRun : Lib.run e.step (e.initial shared) calls = some s) :
    resourceCount s.log = e.inside s ↔
      (ledger e.inputQueue e.outputQueue s.log).loopBacks +
          s.log.countP (·.isCopyOut e.outputQueue) + misreported s =
        s.log.countP Event.isDeletedInput + s.log.countP Event.isRefusedCopy := by
  have hDrift := resourceCount_drift hKeeps hRun
  omega

-- ---------------------------------------------------------------------------
-- An INPUT module that returns a deleted resource
-- ---------------------------------------------------------------------------

/-- One thread: an INPUT module that feeds the engine's output queue. -/
def inputProcessor : Processor :=
  { types := [.input], outputFilters := [⟨0, true, 0, false, 9⟩], queuesCount := 0
    inputQueue := 0, engineInputQueue := none, engineOutputQueue := some 9, batch := true
    ndebug := false }

/-- The INPUT module returns resources 0, 1, ..., the first one possibly deleted; the queues
accept everything. -/
def inputWorld (firstDeleted : Bool) : World Nat where
  isRunning n := (true, n)
  getItem _ n := (none, n)
  pauseInput n := (false, n)
  awaitInput n := (true, n)
  processInput _ _ n := (some ⟨n, n, 0, firstDeleted && n == 0, false⟩, n + 1)
  processOutput _ r n := (some r, n)
  processSimple _ r n := (some r, n)
  processMulti _ mi n :=
    (⟨mi.inputResources, mi.outputResources, mi.inside, [], 1, mi.inside.length, false⟩, n)
  putItem _ _ _ _ n := (true, n)
  clone r n := (r, n)

def inputEngine (firstDeleted : Bool) : Engine Unit Nat where
  processor _ := inputProcessor
  world _ := inputWorld firstDeleted
  inputQueue := none
  outputQueue := some 9
  input_eq _ := rfl
  output_eq _ := rfl
  checked _ := by decide
  connected _ f hf := Or.inl (by rw [List.mem_singleton.mp hf])

theorem inputEngine_keepsResources (firstDeleted : Bool) :
    (inputEngine firstDeleted).KeepsResources := by
  intro i k mi s
  rfl

/-- Fetch, and pass on the deleted resources. -/
def fetchAndFlush : List (Unit × Call) :=
  [((), .applyModules 2 true 0 none), ((), .flushDeleted)]

/-- Nothing deleted: the resource in hand is counted. -/
theorem resourceCount_exact_iff_fetch :
    ∃ s, Lib.run (inputEngine false).step ((inputEngine false).initial 0) fetchAndFlush = some s ∧
      resourceCount s.log = (inputEngine false).inside s := by
  refine ⟨_, rfl, (resourceCount_exact_iff (inputEngine false) (inputEngine_keepsResources false)
    0 fetchAndFlush _ rfl).mpr ?_⟩
  decide

/-- A deleted resource is never counted in, but it is counted out when it is flushed: the
counter is 0 although a resource is inside. -/
theorem deleted_input_drifts :
    (inputEngine true).KeepsResources ∧
    ∃ s, Lib.run (inputEngine true).step ((inputEngine true).initial 0) fetchAndFlush = some s ∧
      resourceCount s.log = 0 ∧ (inputEngine true).inside s = 1 := by
  refine ⟨inputEngine_keepsResources true, _, rfl, ?_⟩
  decide

/-- One thread: a MULTI module behind the engine's input queue, without assertions. -/
def multiInputProcessor : Processor :=
  { types := [.multi], outputFilters := [⟨0, true, 0, false, 9⟩], queuesCount := 1
    inputQueue := 0, engineInputQueue := some 0, engineOutputQueue := some 9, batch := true
    ndebug := true }

/-- The module keeps what it gets, and reports nothing. -/
def parkingWorld : World Nat :=
  { inputWorld false with
    getItem := fun _ n => (some ⟨n, n, 0, false, false⟩, n + 1)
    processMulti := fun _ mi n =>
      (⟨[], mi.outputResources, mi.inside ++ mi.inputResources, [], 1, 0, false⟩, n) }

def parkingEngine : Engine Unit Nat where
  processor _ := multiInputProcessor
  world _ := parkingWorld
  inputQueue := some 0
  outputQueue := some 9
  input_eq _ := rfl
  output_eq _ := rfl
  checked _ := by decide
  connected _ f hf := Or.inl (by rw [List.mem_singleton.mp hf])

/-- A resource that its module does not report is counted out, and is still inside. -/
theorem parked_resource_drifts :
    parkingEngine.KeepsResources ∧
    ∃ s, Lib.run parkingEngine.step (parkingEngine.initial 0)
        [((), .readResource 0), ((), .pushInput 0 ⟨0, 0, 0, false, false⟩), ((), .processMulti 0)] =
          some s ∧
      resourceCount s.log = 0 ∧ parkingEngine.inside s = 1 := by
  refine ⟨fun i k mi s => ?_, _, rfl, by decide⟩
  simp only [parkingEngine, parkingWorld, List.length_append, List.length_nil]
  omega

end Engine

end HectorCore.Processing
