import HectorCore.Processing.Processor
import Mathlib

/-!
# Accounting — one traversal of the worker's code for every ledger

Two things are counted about a worker thread: where each resource is, and how the engine's
`resourceCount` compares with the resources inside. Both are ledgers of the same kind: an
event of the log is worth something, a resource that lies in `deletedResources` or is pending
is worth something, and the code keeps the sum equal to what it has in hand.

An `Accounting` states what such a ledger must satisfy, one law for each place of the source
that emits events. The lemmas below follow the reading of the input queue, `QueueResource`,
`ApplyModules` and the flushing of `deletedResources` once, for all of them.
-/

namespace HectorCore.Processing

variable {σ : Type}

/-- A ledger that the code of processor `p` keeps: the worth of an event and of a resource
in a place, and how they balance where the code emits events. -/
structure Accounting (p : Processor) where
  event : Event → Int
  place : Resource → Int
  updateSleeping : ∀ n, event (.updateSleeping n) = 0
  dequeuedInside : ∀ r, p.engineInputQueue ≠ some p.inputQueue →
    event (.dequeued p.inputQueue r) + place r = 0
  dequeuedOutside : ∀ r, p.engineInputQueue = some p.inputQueue →
    event (.dequeued p.inputQueue r) + event (.updateResourceCount 1) + place r = 0
  routedCopy : ∀ pos q r c,
    event (.routedCopy pos q r c) + event (.updateResourceCount 1) = 0
  refusedCopy : ∀ pos r c, event (.refusedCopy pos r c) = 0
  refused : ∀ pos r, event (.refused pos r) = 0
  routedInside : ∀ pos q r, p.engineOutputQueue ≠ some q → event (.routed pos q r) = place r
  routedOutside : ∀ pos q r, p.engineOutputQueue = some q →
    event (.routed pos q r) + event (.updateResourceCount (-1)) = place r
  released : ∀ r, event (.released r) + event (.updateResourceCount (-1)) = place r
  fetchedDeleted : ∀ r, r.deleted = true → event (.fetched r) + place r = 0
  fetched : ∀ r, r.deleted = false →
    event (.fetched r) + event (.updateResourceCount 1) + place r = 0
  consumed : ∀ r, event (.consumed r) + event (.updateResourceCount (-1)) = place r
  simple : ∀ i r, event (.simple i r) = 0
  flushed : ∀ r, event (.flushed r) + event (.updateResourceCount (-1)) = place r

namespace Accounting

variable {p : Processor} (a : Accounting p)

/-- The worth of a list of resources. -/
def places (rs : List Resource) : Int := (rs.map a.place).sum

/-- The worth of what is in hand. -/
def hand (resource : Option Resource) : Int := a.places resource.toList

/-- The worth of the log. -/
def events (log : List Event) : Int := (log.map a.event).sum

/-- The worth of the thread's own places and of its log; the modules' queues are apart. -/
def worth (t : Thread σ) : Int :=
  a.places t.deletedResources + a.hand t.outputFilterResource + a.events t.log

@[simp] theorem places_nil : a.places [] = 0 := rfl

@[simp] theorem places_cons (r : Resource) (rs : List Resource) :
    a.places (r :: rs) = a.place r + a.places rs := by
  simp [places]

@[simp] theorem places_append (rs rs' : List Resource) :
    a.places (rs ++ rs') = a.places rs + a.places rs' := by
  simp [places]

@[simp] theorem hand_none : a.hand none = 0 := rfl

@[simp] theorem hand_some (r : Resource) : a.hand (some r) = a.place r := by
  simp [hand]

@[simp] theorem events_nil : a.events [] = 0 := rfl

@[simp] theorem events_append (log log' : List Event) :
    a.events (log ++ log') = a.events log + a.events log' := by
  simp [events]

@[simp] theorem events_singleton (e : Event) : a.events [e] = a.event e := by
  simp [events]

/-- A piece of code that leaves the modules' queues alone and adds `d` to the worth of the
thread. -/
structure Moved (d : Int) (t t' : Thread σ) : Prop where
  mis : t'.mis = t.mis
  worth : a.worth t' = a.worth t + d

namespace Moved

variable {a} {d d' : Int} {t t' t'' : Thread σ}

theorem refl (t : Thread σ) : a.Moved 0 t t := ⟨rfl, by omega⟩

theorem trans (h : a.Moved d t t') (h' : a.Moved d' t' t'') : a.Moved (d + d') t t'' :=
  ⟨h'.mis.trans h.mis, by rw [h'.worth, h.worth]; omega⟩

theorem of_eq (h : a.Moved d t t') (hd : d = d') : a.Moved d' t t' := hd ▸ h

theorem emit (h : a.Moved d t t') (e : Event) : a.Moved (d + a.event e) t (t'.emit e) := by
  refine h.trans ⟨rfl, ?_⟩
  simp only [Accounting.worth, Thread.emit, events_append, events_singleton]
  omega

theorem call {α : Type} {f : σ → α × σ} {x : α} (h : a.Moved d t t')
    (hCall : t'.call f = (x, t'')) : a.Moved d t t'' := by
  have hNext : t'' = (t'.call f).2 := by rw [hCall]
  refine (h.trans ⟨?_, ?_⟩).of_eq (Int.add_zero d)
  · rw [hNext]; rfl
  · rw [hNext]; simp [Accounting.worth, Thread.call]

theorem pushDeleted (h : a.Moved d t t') (r : Resource) :
    a.Moved (d + a.place r) t (t'.pushDeleted r) := by
  refine h.trans ⟨rfl, ?_⟩
  simp only [Accounting.worth, Thread.pushDeleted, places_append, places_cons, places_nil]
  omega

end Moved

-- ---------------------------------------------------------------------------
-- QueueResource
-- ---------------------------------------------------------------------------

/-- The pass over the filters takes the resource out of the thread's hand when it is
appended, and does nothing otherwise. -/
theorem queueFilters_moved {w : World σ} {r : Resource} {wait : Bool} {e : FilterEnd}
    {t' : Thread σ} :
    ∀ (fs : List (OutputFilter × Nat)) (t : Thread σ),
      queueFilters w p r wait fs t = (e, t') →
      a.Moved (if e = .appended then a.place r else 0) t t' := by
  intro fs
  induction fs with
  | nil =>
    intro t h
    obtain ⟨rfl, rfl⟩ := Prod.mk.inj h
    exact Moved.refl t
  | cons entry fs ih =>
    obtain ⟨f, pos⟩ := entry
    intro t h
    rw [queueFilters] at h
    by_cases hMatch : f.accepts r.status = true
    swap
    · rw [if_neg hMatch] at h
      exact ih t h
    rw [if_pos hMatch] at h
    by_cases hCopy : f.copy = true
    · rw [if_pos hCopy] at h
      obtain ⟨copy, t₁, hClone⟩ : ∃ copy t₁, t.call (w.clone r) = (copy, t₁) := ⟨_, _, rfl⟩
      obtain ⟨accepted, t₂, hPut⟩ : ∃ accepted t₂,
        t₁.call (w.putItem f.queue f.priority copy wait) = (accepted, t₂) := ⟨_, _, rfl⟩
      have hCalls : a.Moved 0 t t₂ := ((Moved.refl t).call hClone).call hPut
      simp only [hClone, hPut] at h
      cases accepted with
      | true =>
        -- the clone and its count cancel out
        have hCopied := (hCalls.emit (.routedCopy pos f.queue r copy)).emit (.updateResourceCount 1)
        have hRest := ih _ h
        have hLaw := a.routedCopy pos f.queue r copy
        exact (hCopied.trans hRest).of_eq (by omega)
      | false =>
        obtain ⟨rfl, rfl⟩ := Prod.mk.inj h
        have hLaw := a.refusedCopy pos r copy
        exact (hCalls.emit _).of_eq (by rw [if_neg (by decide)]; omega)
    · rw [if_neg hCopy] at h
      obtain ⟨accepted, t₁, hPut⟩ : ∃ accepted t₁,
        t.call (w.putItem f.queue f.priority r wait) = (accepted, t₁) := ⟨_, _, rfl⟩
      have hCall : a.Moved 0 t t₁ := (Moved.refl t).call hPut
      simp only [hPut] at h
      cases accepted with
      | true =>
        obtain ⟨rfl, rfl⟩ := Prod.mk.inj h
        rw [if_pos rfl]
        by_cases hOut : p.engineOutputQueue = some f.queue
        · have hLaw := a.routedOutside pos f.queue r hOut
          rw [if_pos hOut]
          exact ((hCall.emit _).emit _).of_eq (by omega)
        · have hLaw := a.routedInside pos f.queue r hOut
          rw [if_neg hOut]
          exact (hCall.emit _).of_eq (by omega)
      | false =>
        obtain ⟨rfl, rfl⟩ := Prod.mk.inj h
        have hLaw := a.refused pos r
        exact (hCall.emit _).of_eq (by rw [if_neg (by decide)]; omega)

/-- **Spec of `QueueResource`.** It takes the resource out of the thread's hand when it
returns `true`, and leaves it there when it returns `false`. -/
theorem queueResource_moved {w : World σ} {r : Resource} {wait ok : Bool}
    {filterIndex index : Option Nat} {t t' : Thread σ}
    (h : queueResource w p r wait filterIndex t = (ok, index, t')) :
    a.Moved (if ok then a.place r else 0) t t' := by
  obtain ⟨e, t₁, hPass⟩ : ∃ e t₁, queueFilters w p r wait
      (p.outputFilters.zipIdx.drop (filterIndex.getD 0)) t = (e, t₁) := ⟨_, _, rfl⟩
  have hMoved := a.queueFilters_moved _ _ hPass
  rw [queueResource, hPass] at h
  cases e with
  | refused =>
    obtain ⟨rfl, -, rfl⟩ : false = ok ∧ filterIndex = index ∧ t₁ = t' := by simpa using h
    exact hMoved
  | appended =>
    obtain ⟨rfl, -, rfl⟩ : true = ok ∧ filterIndex = index ∧ t₁ = t' := by simpa using h
    exact hMoved
  | unmatched =>
    obtain ⟨rfl, -, rfl⟩ : true = ok ∧ filterIndex = index ∧
        (t₁.emit (.released r)).emit (.updateResourceCount (-1)) = t' := by simpa using h
    have hLaw := a.released r
    refine ((hMoved.emit _).emit _).of_eq ?_
    rw [if_neg (by decide), if_pos rfl]
    omega

-- ---------------------------------------------------------------------------
-- Reading from the input queue
-- ---------------------------------------------------------------------------

/-- `UpdateSleeping`, in batch mode only. -/
theorem moved_updateSleeping (b : Bool) (n : Int) (t : Thread σ) :
    a.Moved 0 t (if b = true then t.emit (.updateSleeping n) else t) := by
  cases b with
  | false => exact Moved.refl t
  | true =>
    have hLaw := a.updateSleeping n
    exact ((Moved.refl t).emit _).of_eq (by omega)

/-- Before an INPUT module nothing is taken: the resource is still inside the module. -/
theorem readResource_moved_input {w : World σ} {read : Int} {flow : Flow} {got : Option Read}
    {t t' : Thread σ} (h : readResource w p .input read t = ((flow, got), t')) :
    a.Moved 0 t t' ∧ ∀ g, got = some g → g.resource = none := by
  simp only [readResource, ne_eq, not_true_eq_false, if_false] at h
  obtain ⟨paused, t₁, hPause⟩ : ∃ paused t₁, t.call w.pauseInput = (paused, t₁) := ⟨_, _, rfl⟩
  have hCall : a.Moved 0 t t₁ := (Moved.refl t).call hPause
  simp only [hPause] at h
  cases paused with
  | false =>
    obtain ⟨⟨-, rfl⟩, rfl⟩ : (Flow.next = flow ∧ some ⟨none, read⟩ = got) ∧ t₁ = t' := by
      simpa using h
    exact ⟨hCall, by rintro g ⟨⟩; rfl⟩
  | true =>
    by_cases hBlock : t₁.block = true
    · obtain ⟨goOn, t₂, hAwait⟩ : ∃ goOn t₂, t₁.call w.awaitInput = (goOn, t₂) := ⟨_, _, rfl⟩
      simp only [hBlock, if_true, hAwait] at h
      cases goOn with
      | true =>
        obtain ⟨⟨-, rfl⟩, rfl⟩ : (Flow.next = flow ∧ some ⟨none, read⟩ = got) ∧ t₂ = t' := by
          simpa using h
        exact ⟨hCall.call hAwait, by rintro g ⟨⟩; rfl⟩
      | false =>
        obtain ⟨⟨-, rfl⟩, rfl⟩ : (Flow.returned = flow ∧ none = got) ∧ t₂ = t' := by
          simpa using h
        exact ⟨hCall.call hAwait, by rintro g ⟨⟩⟩
    · simp only [if_true, hBlock] at h
      obtain ⟨⟨-, rfl⟩, rfl⟩ : (Flow.next = flow ∧ none = got) ∧ t₁ = t' := by simpa using h
      exact ⟨hCall, by rintro g ⟨⟩⟩

/-- Before any other module what is in hand was taken from the input queue. -/
theorem readResource_moved_queue {w : World σ} {first : ModuleType} {read : Int} {flow : Flow}
    {got : Option Read} {t t' : Thread σ} (hFirst : first ≠ .input)
    (h : readResource w p first read t = ((flow, got), t')) :
    a.Moved (-a.hand (got.bind Read.resource)) t t' := by
  simp only [readResource, ne_eq, hFirst, not_false_eq_true, if_true] at h
  set wait := t.block && read == 0 with hWait
  obtain ⟨t₁, ht₁⟩ : ∃ t₁, t₁ = if (p.batch && wait) = true then t.emit (.updateSleeping 1)
      else t := ⟨_, rfl⟩
  rw [← ht₁] at h
  obtain ⟨resource, t₂, hGet⟩ : ∃ resource t₂, t₁.call (w.getItem wait) = (resource, t₂) :=
    ⟨_, _, rfl⟩
  simp only [hGet] at h
  obtain ⟨t₃, ht₃⟩ : ∃ t₃, t₃ = if (p.batch && wait) = true then t₂.emit (.updateSleeping (-1))
      else t₂ := ⟨_, rfl⟩
  rw [← ht₃] at h
  have hCalled : a.Moved 0 t t₃ := by
    have hBefore : a.Moved 0 t t₁ := ht₁ ▸ a.moved_updateSleeping _ 1 t
    have hAfter : a.Moved 0 t₂ t₃ := ht₃ ▸ a.moved_updateSleeping _ (-1) t₂
    exact (hBefore.call hGet).trans hAfter
  cases resource with
  | none =>
    obtain ⟨⟨-, rfl⟩, rfl⟩ :
        ((if wait = true then Flow.returned else Flow.next) = flow ∧ none = got) ∧ t₃ = t' := by
      simpa using h
    exact hCalled
  | some r =>
    have hTaken := hCalled.emit (.dequeued p.inputQueue r)
    simp only [Prod.mk.injEq] at h
    obtain ⟨⟨-, rfl⟩, rfl⟩ := h
    by_cases hEngine : p.engineInputQueue = some p.inputQueue
    · have hLaw := a.dequeuedOutside r hEngine
      rw [if_pos hEngine]
      refine (hTaken.emit (.updateResourceCount 1)).of_eq ?_
      simp only [Option.bind_some, hand_some]
      omega
    · have hLaw := a.dequeuedInside r hEngine
      rw [if_neg hEngine]
      refine hTaken.of_eq ?_
      simp only [Option.bind_some, hand_some]
      omega

/-- The input part of the reading loop: what is in hand was taken from the input queue. -/
theorem readResource_moved {w : World σ} {first : ModuleType} {read : Int} {flow : Flow}
    {got : Option Read} {t t' : Thread σ}
    (h : readResource w p first read t = ((flow, got), t')) :
    a.Moved (-a.hand (got.bind Read.resource)) t t' ∧
      (first = .input → ∀ g, got = some g → g.resource = none) := by
  by_cases hFirst : first = .input
  · rw [hFirst] at h
    obtain ⟨hMoved, hNone⟩ := a.readResource_moved_input h
    refine ⟨hMoved.of_eq ?_, fun _ => hNone⟩
    cases got with
    | none => rfl
    | some g => simp [hNone g rfl]
  · exact ⟨a.readResource_moved_queue hFirst h, fun hInput => absurd hInput hFirst⟩

-- ---------------------------------------------------------------------------
-- ApplyModules
-- ---------------------------------------------------------------------------

/-- The loop of an INPUT module: what is in hand afterwards came from the module, with its
count still to be reported. -/
theorem fetchInput_moved {w : World σ} {m : Nat} {sleep : Bool} {o : Option Resource}
    {t' : Thread σ} :
    ∀ (fuel : Nat) (t : Thread σ), fetchInput w m sleep fuel t = .ok (o, t') →
      a.Moved (match o with
        | none => 0
        | some r => -a.place r - a.event (.updateResourceCount 1)) t t' := by
  intro fuel
  induction fuel with
  | zero =>
    intro t h
    exact by simp [fetchInput] at h
  | succ fuel ih =>
    intro t h
    rw [fetchInput] at h
    obtain ⟨got, t₁, hCall⟩ : ∃ got t₁, t.call (w.processInput m sleep) = (got, t₁) := ⟨_, _, rfl⟩
    have hMoved : a.Moved 0 t t₁ := (Moved.refl t).call hCall
    rw [hCall] at h
    cases got with
    | none =>
      obtain ⟨rfl, rfl⟩ : none = o ∧ t₁ = t' := by simpa using h
      exact hMoved
    | some r =>
      have hFetched := hMoved.emit (.fetched r)
      by_cases hDeleted : r.deleted = true
      · -- a deleted resource goes to deletedResources, and the loop goes on
        simp only [hDeleted, if_true] at h
        have hRest := ih _ h
        have hLaw := a.fetchedDeleted r hDeleted
        exact ((hFetched.pushDeleted r).trans hRest).of_eq (by omega)
      · simp only [hDeleted] at h
        obtain ⟨rfl, rfl⟩ : some r = o ∧ t₁.emit (.fetched r) = t' := by simpa using h
        have hLaw := a.fetched r (by simpa using hDeleted)
        exact hFetched.of_eq (by simp only []; omega)

/-- SIMPLE modules return what they got, as far as the ledger is concerned. -/
def SimpleKeeps (w : World σ) : Prop :=
  ∀ i r s, a.hand (w.processSimple i r s).1 = a.place r

/-- `ApplyModules` over modules without INPUT: what is in hand before is in hand after, or
was put into `deletedResources`, or was consumed. -/
theorem applyModules_moved_of_no_input {w : World σ} (hSimple : a.SimpleKeeps w) {fuel : Nat}
    {sleep stop : Bool} {o' : Option Resource} {t' : Thread σ} :
    ∀ (ms : List (ModuleType × Nat)) (o : Option Resource) (t : Thread σ),
      (∀ m ∈ ms, m.1 ≠ .input) → applyModules w p fuel sleep ms o t = .ok (o', stop, t') →
      a.Moved (a.hand o - a.hand o') t t'
  | [], o, t, _, h => by
    obtain ⟨rfl, -, rfl⟩ : o = o' ∧ false = stop ∧ t = t' := by simpa [applyModules] using h
    exact (Moved.refl t).of_eq (by omega)
  | (.multi, i) :: ms, o, t, _, h => by
    obtain ⟨rfl, -, rfl⟩ : o = o' ∧ false = stop ∧ t = t' := by simpa [applyModules] using h
    exact (Moved.refl t).of_eq (by omega)
  | (.input, i) :: ms, o, t, hNoInput, h => absurd rfl (hNoInput (.input, i) (by simp))
  | (.invalid, i) :: ms, o, t, hNoInput, h => by
    rw [applyModules] at h
    exact applyModules_moved_of_no_input hSimple ms o t
      (fun m hm => hNoInput m (List.mem_cons_of_mem _ hm)) h
  | (.output, i) :: ms, none, t, _, h => by simp [applyModules] at h
  | (.output, i) :: ms, some r, t, hNoInput, h => by
    rw [applyModules] at h
    obtain ⟨back, t₁, hCall⟩ : ∃ back t₁, t.call (w.processOutput i r) = (back, t₁) := ⟨_, _, rfl⟩
    simp only [hCall] at h
    have hConsumed := ((((Moved.refl (a := a) t).call hCall).emit (.consumed r)).emit
      (.updateResourceCount (-1)))
    have hRest := applyModules_moved_of_no_input hSimple ms none _
      (fun m hm => hNoInput m (List.mem_cons_of_mem _ hm)) h
    have hLaw := a.consumed r
    exact (hConsumed.trans hRest).of_eq (by rw [hand_none, hand_some]; omega)
  | (.simple, i) :: ms, none, t, _, h => by simp [applyModules] at h
  | (.simple, i) :: ms, some r, t, hNoInput, h => by
    rw [applyModules] at h
    -- with or without SKIP, the module's answer is worth what the resource was
    obtain ⟨got, t₁, hGot, hMoved, hWorth⟩ : ∃ got t₁,
        (if r.skip = true then (some r, t)
          else (t.emit (.simple i r)).call (w.processSimple i r)) = (got, t₁) ∧
        a.Moved 0 t t₁ ∧ a.hand got = a.place r := by
      by_cases hSkip : r.skip = true
      · exact ⟨_, _, if_pos hSkip, Moved.refl t, a.hand_some r⟩
      · refine ⟨_, _, if_neg hSkip, ?_, hSimple i r _⟩
        have hLaw := a.simple i r
        exact (((Moved.refl t).emit (.simple i r)).call rfl).of_eq (by omega)
    simp only [hGot] at h
    cases got with
    | none =>
      obtain ⟨rfl, -, rfl⟩ : none = o' ∧ false = stop ∧ t₁ = t' := by simpa using h
      exact hMoved.of_eq (by rw [hand_some, ← hWorth]; omega)
    | some r' =>
      rw [hand_some] at hWorth
      by_cases hDeleted : r'.deleted = true
      · simp only [hDeleted, if_true] at h
        obtain ⟨rfl, -, rfl⟩ : none = o' ∧ false = stop ∧ t₁.pushDeleted r' = t' := by
          simpa using h
        exact (hMoved.pushDeleted r').of_eq (by rw [hand_some, hand_none]; omega)
      · simp only [hDeleted] at h
        have hRest := applyModules_moved_of_no_input hSimple ms (some r') t₁
          (fun m hm => hNoInput m (List.mem_cons_of_mem _ hm)) h
        exact (hMoved.trans hRest).of_eq (by rw [hand_some, hand_some]; omega)

/-- `Init` admits an INPUT module only in the first position. -/
theorem input_first (hCheck : p.checkModules = true) {m : ModuleType × Nat}
    (hMem : m ∈ p.types.zipIdx) (hInput : m.1 = .input) : m.2 = 0 := by
  have hModule := List.all_eq_true.mp hCheck m hMem
  simp only [hInput, Processor.checkModule, Bool.and_eq_true, beq_iff_eq] at hModule
  exact hModule.1

/-- The positions of the modules from `index` on. -/
theorem le_of_mem_modulesFrom {index : Nat} {m : ModuleType × Nat}
    (hMem : m ∈ p.modulesFrom index) : index ≤ m.2 := by
  obtain ⟨i, hi, rfl⟩ := List.mem_iff_getElem.mp hMem
  simp only [Processor.modulesFrom, List.getElem_drop, List.getElem_zipIdx]
  omega

/-- An INPUT module stands in front of all others, or there is none from `index` on. -/
theorem modulesFrom_input (hCheck : p.checkModules = true) (index : Nat) :
    (∀ m ∈ p.modulesFrom index, m.1 ≠ .input) ∨
      index = 0 ∧ p.types.head? = some .input ∧
        ∃ rest, p.modulesFrom index = (.input, 0) :: rest ∧ ∀ m ∈ rest, m.1 ≠ .input := by
  by_cases hNoInput : ∀ m ∈ p.modulesFrom index, m.1 ≠ .input
  · exact Or.inl hNoInput
  right
  push Not at hNoInput
  obtain ⟨m, hMem, hInput⟩ := hNoInput
  have hZero : m.2 = 0 := input_first hCheck (List.mem_of_mem_drop hMem) hInput
  have hIndex : index = 0 := by
    have hLe := le_of_mem_modulesFrom hMem
    omega
  subst hIndex
  obtain ⟨first, rest, hTypes⟩ : ∃ first rest, p.types = first :: rest := by
    refine List.exists_cons_of_ne_nil fun hNil => ?_
    simp [Processor.modulesFrom, hNil] at hMem
  have hModules : p.modulesFrom 0 = (first, 0) :: rest.zipIdx 1 := by
    simp [Processor.modulesFrom, hTypes, List.zipIdx_cons]
  have hTail : ∀ m ∈ rest.zipIdx 1, m.1 ≠ .input := by
    intro m' hMem' hInput'
    have hFirst := input_first hCheck (m := m')
      (by rw [hTypes, List.zipIdx_cons]; exact List.mem_cons_of_mem _ hMem') hInput'
    have hLe := List.le_snd_of_mem_zipIdx hMem'
    omega
  rw [hModules] at hMem
  have hFirst : first = .input := by
    rcases List.mem_cons.mp hMem with rfl | hMem'
    · exact hInput
    · exact absurd hInput (hTail m hMem')
  subst hFirst
  exact ⟨rfl, by rw [hTypes]; rfl, rest.zipIdx 1, hModules, hTail⟩

/-- **Spec of `ApplyModules`.** What is in hand afterwards is what was in hand before, less
what went into `deletedResources` or was consumed, plus what the INPUT module returned. -/
theorem applyModules_moved {w : World σ} (hCheck : p.checkModules = true)
    (hSimple : a.SimpleKeeps w) {fuel index : Nat} {sleep stop : Bool} {o o' : Option Resource}
    {t t' : Thread σ} (hHand : index = 0 → p.types.head? = some .input → o = none)
    (h : applyModules w p fuel sleep (p.modulesFrom index) o t = .ok (o', stop, t')) :
    a.Moved (a.hand o - a.hand o') t t' := by
  rcases modulesFrom_input hCheck index with hNoInput | ⟨hIndex, hFirst, rest, hModules, hTail⟩
  · exact a.applyModules_moved_of_no_input hSimple _ o t hNoInput h
  -- otherwise the INPUT module is the first one, and nothing is in hand
  obtain rfl : o = none := hHand hIndex hFirst
  rw [hModules] at h
  rw [applyModules] at h
  simp only [Option.isSome_none, Bool.false_and, Bool.false_eq_true, if_false] at h
  split at h
  · exact absurd h (by simp)
  · rename_i t₁ hFetch
    obtain ⟨rfl, -, rfl⟩ : none = o' ∧ true = stop ∧ t₁ = t' := by simpa using h
    exact (a.fetchInput_moved _ _ hFetch).of_eq (by rw [hand_none]; rfl)
  · rename_i r t₁ hFetch
    have hFetched := (a.fetchInput_moved _ _ hFetch).emit (.updateResourceCount 1)
    have hRest := a.applyModules_moved_of_no_input hSimple _ _ _ hTail h
    exact (hFetched.trans hRest).of_eq (by rw [hand_none, hand_some]; simp only []; omega)

-- ---------------------------------------------------------------------------
-- Flushing deletedResources
-- ---------------------------------------------------------------------------

/-- The loop over the deleted resources `ds`: those that are not flushed stay. -/
theorem flushDeleted_moved (w : World σ) :
    ∀ (ds : List Resource) (t : Thread σ),
      a.Moved (a.places ds - a.places t.deletedResources) t (flushDeleted w p ds t) := by
  intro ds
  induction ds with
  | nil =>
    intro t
    refine ⟨rfl, ?_⟩
    simp only [flushDeleted, worth, places_nil]
    omega
  | cons r rest ih =>
    intro t
    rw [flushDeleted]
    cases hOut : p.engineOutputQueue with
    | none =>
      have hLaw := a.released r
      have hRest := ih ((t.emit (.released r)).emit (.updateResourceCount (-1)))
      refine ((((Moved.refl t).emit (.released r)).emit (.updateResourceCount (-1))).trans
        hRest).of_eq ?_
      simp only [Thread.emit, places_cons]
      omega
    | some queue =>
      obtain ⟨accepted, t₁, hPut⟩ : ∃ accepted t₁,
        t.call (w.putItem queue 0 r false) = (accepted, t₁) := ⟨_, _, rfl⟩
      have hCall : a.Moved 0 t t₁ := (Moved.refl t).call hPut
      have hDeleted : t₁.deletedResources = t.deletedResources := by
        rw [show t₁ = (t.call (w.putItem queue 0 r false)).2 by rw [hPut]]
        rfl
      simp only [hPut]
      cases accepted with
      | true =>
        have hLaw := a.flushed r
        have hRest := ih
          ((t₁.emit (.flushed r)).emit (.updateResourceCount (-1)))
        refine (((hCall.emit (.flushed r)).emit (.updateResourceCount (-1))).trans hRest).of_eq ?_
        simp only [Thread.emit, places_cons, hDeleted]
        omega
      | false =>
        have hStay : a.Moved (a.places (r :: rest) - a.places t.deletedResources) t₁
            { t₁ with deletedResources := r :: rest, readMax := 0 } := by
          refine ⟨rfl, ?_⟩
          simp only [worth, hDeleted]
          omega
        exact (hCall.trans hStay).of_eq (by omega)

end Accounting

end HectorCore.Processing
