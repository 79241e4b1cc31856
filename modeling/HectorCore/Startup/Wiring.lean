import HectorCore.Queue.Subqueues
import HectorCore.Startup.Connect

/-!
# Wiring — what a server is after Init

The second stage of `Server::Init` resolves every `nextProcessor`. A processor or an engine can be
referred to before the config has come to it, since all of them are registered in the first stage.
What does depend on the order is `engineOutputQueue`: an engine has no output queue until the first
reference to it is resolved, and a processor looks for the queue when its own references are done.

* `init_succeeds_iff`           — what `Init` accepts, in terms of the server after the first stage;
* `init_routes`                 — the threads of a processor never put into a sub-queue that is not
  there;
* `engineOutputQueue_iff`       — which processors know the output queue of their engine;
* `processResource_passes_iff`  — when `ProcessResource` does not abort.
-/

namespace HectorCore.Startup

open Processing (ModuleType QueueRef)
open Queue (SyncQueue TakesPuts takesPuts_iff takesPuts_of_hasQueue)

namespace Server

variable {s s' : Server} {ref : Str} {q : QueueRef} {priority : Int}

-- ---------------------------------------------------------------------------
-- When the second stage succeeds
-- ---------------------------------------------------------------------------

/-- A filter that can be connected: there is a processor with a queue of the priority, or an engine,
whose output queue has the priority 0 only. -/
def routable (s : Server) (f : OutputFilter) : Bool :=
  match s.getObject f.processor with
  | some (.processor k) => (s.input k).elim false (s.hasQueue · f.priority)
  | some (.engine _) => f.priority == 0
  | _ => false

/-- The references of a server lead to something. -/
structure Ready (s : Server) : Prop where
  kinds : ∀ ref kind, s.getObject ref = some kind →
    Bounded s.engines.length s.processors.length kind
  inputs : ∀ k q, s.input k = some q → q < s.queues.length
  outputs : OutputsSound s

theorem getObject_mem {kind : Kind} (h : s.getObject ref = some kind) : kind ∈ s.objects := by
  rw [getObject, Option.bind_eq_some_iff] at h
  obtain ⟨address, -, hKind⟩ := h
  exact List.mem_of_getElem? hKind

theorem Constructed.ready {es : List ProcessorElem} (h : Constructed es s) : Ready s := by
  refine ⟨fun ref kind hKind => h.kinds kind (getObject_mem hKind), fun k q hInput => ?_,
    fun i q hOut => ?_⟩
  · rw [input, Option.map_eq_some_iff] at hInput
    obtain ⟨p, hp, rfl⟩ := hInput
    obtain ⟨e, -, hReads⟩ := forall₂_getElem? h.reads hp
    obtain ⟨x, hx, -⟩ := hReads.queue
    exact (List.getElem?_eq_some_iff.mp hx).1
  · rw [output, Option.bind_eq_some_iff] at hOut
    obtain ⟨e, he, hq⟩ := hOut
    rw [h.outputs e (List.mem_of_getElem? he)] at hq
    cases hq

theorem hasQueue_outputQueue : outputQueue.hasQueue priority = (priority == 0) := by
  have hOnly : outputQueue.queues = [.new 0 0 0] := rfl
  rw [SyncQueue.hasQueue, SyncQueue.findQueue, hOnly, List.find?_singleton, Bool.eq_iff_iff]
  by_cases hZero : priority = 0
  · subst hZero
    rfl
  · have hNe : ((Queue.SimpleQueue.new 0 0 0 : Queue.SimpleQueue Processing.Resource).priority ==
        priority) = false := beq_eq_false_iff_ne.mpr (Ne.symm hZero)
    simp [hNe, hZero]

theorem hasQueue_of_get {x : SyncQueue Processing.Resource} (hq : s.queues[q]? = some x) :
    s.hasQueue q priority = x.hasQueue priority := by
  rw [Server.hasQueue, hq, Option.elim_some]

variable {f : OutputFilter} {k i : Nat}

theorem routable_of_processor (hKind : s.getObject f.processor = some (.processor k)) :
    s.routable f = (s.input k).elim false (s.hasQueue · f.priority) := by
  rw [routable, hKind]

theorem routable_of_engine (hKind : s.getObject f.processor = some (.engine i)) :
    s.routable f = (f.priority == 0) := by
  rw [routable, hKind]

/-- The queue behind a reference has the priority of a filter if the filter can be connected. -/
theorem hasQueue_target (hReady : Ready s) (hTarget : s.target f.processor = some q) :
    s.hasQueue q f.priority = s.routable f := by
  unfold target at hTarget
  split at hTarget
  · rename_i k hKind
    rw [routable_of_processor hKind, hTarget, Option.elim_some]
  · rename_i i hKind
    rw [routable_of_engine hKind, hasQueue_of_get (hReady.outputs i q hTarget),
      hasQueue_outputQueue]
  · cases hTarget

theorem Advances.routable (h : Advances s s') (hReady : Ready s) :
    s'.routable f = s.routable f := by
  unfold Server.routable
  rw [h.getObject, h.input]
  split
  · rename_i k hKind
    cases hInput : s.input k with
    | none => rfl
    | some q =>
      obtain ⟨x, hx⟩ : ∃ x, s.queues[q]? = some x :=
        ⟨_, List.getElem?_eq_getElem (hReady.inputs k q hInput)⟩
      rw [Option.elim_some, Option.elim_some, hasQueue_of_get hx, hasQueue_of_get (h.queue hx)]
  · rfl
  · rfl

theorem Ready.mono (hReady : Ready s) (h : Advances s s') : Ready s' where
  kinds ref kind hKind := by
    rw [h.engines, h.processors]
    exact hReady.kinds ref kind (h.getObject ▸ hKind)
  inputs k q hInput :=
    Nat.lt_of_lt_of_le (hReady.inputs k q (h.input ▸ hInput)) h.queues.length_le
  outputs := h.sound hReady.outputs

theorem resolve_processor {p : Processor} (hKind : s.getObject ref = some (.processor k))
    (hp : s.processors[k]? = some p) : s.resolve ref = .ok (p.inputQueue, s) := by
  rw [resolve, hKind]
  dsimp only
  rw [hp]

theorem resolve_engine {e : ProcessingEngine} (hKind : s.getObject ref = some (.engine i))
    (he : s.engines[i]? = some e) : ∃ r, s.resolve ref = .ok r := by
  rw [resolve, hKind]
  dsimp only
  rw [he]
  dsimp only
  cases e.outputQueue with
  | none => exact ⟨_, rfl⟩
  | some q => exact ⟨_, rfl⟩

/-- A reference to a processor or an engine is resolved. -/
theorem resolve_of_routable (hReady : Ready s) (h : s.routable f = true) :
    ∃ r, s.resolve f.processor = .ok r := by
  unfold routable at h
  split at h
  · rename_i k hKind
    obtain ⟨p, hp⟩ : ∃ p, s.processors[k]? = some p :=
      ⟨_, List.getElem?_eq_getElem (hReady.kinds _ _ hKind)⟩
    exact ⟨_, resolve_processor hKind hp⟩
  · rename_i i hKind
    obtain ⟨e, he⟩ : ∃ e, s.engines[i]? = some e :=
      ⟨_, List.getElem?_eq_getElem (hReady.kinds _ _ hKind)⟩
    exact resolve_engine hKind he
  · cases h

theorem connectFilters_iff {fs : List OutputFilter} (hReady : Ready s) :
    (∃ r, connectFilters fs s = .ok r) ↔ ∀ f ∈ fs, s.routable f = true := by
  induction fs generalizing s with
  | nil => exact ⟨fun _ => nofun, fun _ => ⟨_, rfl⟩⟩
  | cons f fs ih =>
    have hOthers : ∀ s₁, Advances s s₁ →
        ((∀ f' ∈ fs, s₁.routable f' = true) ↔ ∀ f' ∈ fs, s.routable f' = true) :=
          fun s₁ hAdvances =>
      forall₂_congr fun f' _ => by rw [hAdvances.routable hReady]
    rw [List.forall_mem_cons]
    constructor
    · rintro ⟨r, h⟩
      rw [connectFilters, bind_ok_iff] at h
      obtain ⟨⟨q, s₁⟩, hResolve, h⟩ := h
      have hFirst := resolve_ok hResolve
      simp only at h
      split_ifs at h with hHas
      rw [bind_ok_iff] at h
      obtain ⟨rest, hRest, -⟩ := h
      rw [hasQueue_target (hReady.mono hFirst.advances) hFirst.target,
        hFirst.advances.routable hReady] at hHas
      exact ⟨hHas, (hOthers s₁ hFirst.advances).mp ((ih (hReady.mono hFirst.advances)).mp
        ⟨_, hRest⟩)⟩
    · rintro ⟨hHas, hRest⟩
      obtain ⟨⟨q, s₁⟩, hResolve⟩ := resolve_of_routable hReady hHas
      have hFirst := resolve_ok hResolve
      obtain ⟨⟨fs', s₂⟩, hLater⟩ :=
        (ih (hReady.mono hFirst.advances)).mpr ((hOthers s₁ hFirst.advances).mpr hRest)
      rw [← hFirst.advances.routable hReady,
        ← hasQueue_target (hReady.mono hFirst.advances) hFirst.target] at hHas
      refine ⟨({ f with queue := some q } :: fs', s₂), ?_⟩
      rw [connectFilters, bind_ok_iff]
      refine ⟨(q, s₁), hResolve, ?_⟩
      simp only [hHas, if_true]
      rw [bind_ok_iff]
      exact ⟨(fs', s₂), hLater, rfl⟩

theorem initModulesSecond_iff {libs : Libraries} {ms : List (Nat × ModuleType)} :
    initModulesSecond libs ms = .ok () ↔ ∀ m ∈ ms, libs.initSecond m.1 = true := by
  induction ms with
  | nil => simp [initModulesSecond]
  | cons m ms ih =>
    rw [initModulesSecond, List.forall_mem_cons, ← ih]
    cases hInit : libs.initSecond m.1 with
    | false => simp
    | true => simp

/-- The modules of a processor accept the second stage, and its filters can be connected. -/
def Accepts (libs : Libraries) (s : Server) (p : Processor) : Prop :=
  (∀ m ∈ p.modules.flatten, libs.initSecond m.1 = true) ∧ ∀ f ∈ p.outputFilters, s.routable f = true

theorem connect_iff {libs : Libraries} {k : Nat} {p : Processor} (hReady : Ready s)
    (hp : s.processors[k]? = some p) : (∃ s', connect libs k s = .ok s') ↔ Accepts libs s p := by
  unfold connect Accepts
  rw [hp, ← connectFilters_iff hReady, ← initModulesSecond_iff]
  constructor
  · rintro ⟨s', h⟩
    simp only [bind_ok_iff] at h
    obtain ⟨⟨⟩, hModules, r, hFilters, -⟩ := h
    exact ⟨hModules, r, hFilters⟩
  · rintro ⟨hModules, ⟨fs, s₁⟩, hFilters⟩
    simp only [bind_ok_iff]
    exact ⟨_, (), hModules, (fs, s₁), hFilters, rfl⟩

theorem connectAll_iff {libs : Libraries} {a n : Nat} (hReady : Ready s)
    (hLength : a + n ≤ s.processors.length) :
    (∃ s', connectAll libs (List.range' a n) s = .ok s') ↔
      ∀ j p, a ≤ j → j < a + n → s.processors[j]? = some p → Accepts libs s p := by
  induction n generalizing a s with
  | zero => exact ⟨fun _ j p hFrom hTo => absurd hTo (by omega), fun _ => ⟨_, rfl⟩⟩
  | succ n ih =>
    obtain ⟨p, hp⟩ : ∃ p, s.processors[a]? = some p := ⟨_, List.getElem?_eq_getElem (by omega)⟩
    -- after the first processor, the others are as they were, and so is what they refer to
    have hLater : ∀ s₁, connect libs a s = .ok s₁ →
        ((∃ s', connectAll libs (List.range' (a + 1) n) s₁ = .ok s') ↔
          ∀ j p', a + 1 ≤ j → j < a + 1 + n → s.processors[j]? = some p' → Accepts libs s p') := by
      intro s₁ hConnect
      obtain ⟨p₁, hAdvances, hProcessors, -⟩ := connect_ok hConnect hp
      rw [ih (hReady.mono hAdvances) (by rw [hAdvances.processors]; omega)]
      refine forall_congr' fun j => forall_congr' fun p' => forall_congr' fun hFrom => ?_
      rw [hProcessors, List.getElem?_set_ne (by omega)]
      refine forall_congr' fun _ => forall_congr' fun _ => and_congr_right fun _ => ?_
      exact forall₂_congr fun f _ => by rw [hAdvances.routable hReady]
    constructor
    · rintro ⟨s', h⟩ j p' hFrom hTo hp'
      rw [List.range'_succ, connectAll, bind_ok_iff] at h
      obtain ⟨s₁, hConnect, hRest⟩ := h
      by_cases hFirst : j = a
      · rw [hFirst, hp] at hp'
        rw [← Option.some.inj hp']
        exact (connect_iff hReady hp).mp ⟨s₁, hConnect⟩
      · exact (hLater s₁ hConnect).mp ⟨s', hRest⟩ j p' (by omega) (by omega) hp'
    · intro hAll
      obtain ⟨s₁, hConnect⟩ := (connect_iff hReady hp).mpr (hAll a p le_rfl (by omega) hp)
      obtain ⟨s', hRest⟩ :=
        (hLater s₁ hConnect).mpr fun j p' hFrom hTo => hAll j p' (by omega) (by omega)
      refine ⟨s', ?_⟩
      rw [List.range'_succ, connectAll, bind_ok_iff]
      exact ⟨s₁, hConnect, hRest⟩

-- ---------------------------------------------------------------------------
-- The sub-queues of an input queue
-- ---------------------------------------------------------------------------

theorem hasQueue_addQueue {x x' : SyncQueue Processing.Resource} {n maxItems maxSize : Int}
    (h : x.addQueue n maxItems maxSize = some x') :
    x'.cancel = x.cancel ∧ ∀ p, x'.hasQueue p = true ↔ x.hasQueue p = true ∨ n = p := by
  rw [SyncQueue.addQueue] at h
  split_ifs at h
  obtain rfl := Option.some.inj h
  refine ⟨rfl, fun p => ?_⟩
  simp only [Queue.mem_of_hasQueue, (Queue.sortQueues_perm _).mem_iff, List.mem_append,
    List.mem_singleton, or_and_right, exists_or, exists_eq_left]
  rfl

/-- The sub-queues have the priorities of the elements. -/
theorem addQueues_ok {es : List QueueElem} {x x' : SyncQueue Processing.Resource}
    (h : addQueues es x = .ok x') :
    x'.cancel = x.cancel ∧ ∀ p, x'.hasQueue p = true ↔
      x.hasQueue p = true ∨ ∃ e ∈ es, readInt .invalidPriority e.priority = .ok p := by
  induction es generalizing x with
  | nil =>
    obtain rfl := Except.ok.inj h
    simp
  | cons e es ih =>
    rw [addQueues, bind_ok_iff] at h
    obtain ⟨n, hPriority, h⟩ := h
    simp only [bind_ok_iff] at h
    obtain ⟨maxItems, -, maxSize, -, h⟩ := h
    split at h
    · cases h
    · rename_i x₁ hAdd
      obtain ⟨hCancel, hHas⟩ := hasQueue_addQueue hAdd
      obtain ⟨hCancel', hHas'⟩ := ih h
      refine ⟨hCancel'.trans hCancel, fun p => ?_⟩
      rw [hHas', hHas, or_assoc]
      simp only [List.mem_cons, exists_eq_or_imp, hPriority, Except.ok.injEq]

-- ---------------------------------------------------------------------------
-- What Init accepts
-- ---------------------------------------------------------------------------

variable {libs : Libraries} {batch : Bool} {e : ServerElem}

/-- A processor after `Init`, beside what it was after the first stage. -/
theorem init_processor (hInit : init libs batch e = .ok s') :
    ∃ s, Constructed (e.engines.flatMap (·.processors)) s ∧ Wired s 0 s.processors.length s' := by
  obtain ⟨s, hFirst, hSecond⟩ := init_ok_iff.mp hInit
  exact ⟨s, construction_ok hFirst, connectAll_ok (Nat.zero_add _).le hSecond⟩

variable {k : Nat} {p : Processor}

/-- What a processor was before the second stage, and what is true of it since. -/
theorem Wired.processor {s₀ : Server} (h : Wired s₀ 0 s₀.processors.length s)
    (hp : s.processors[k]? = some p) :
    ∃ p₀, s₀.processors[k]? = some p₀ ∧ Connected s p₀ p ∧
      (p.engineOutputQueue.isSome ↔ (s₀.output p₀.engine).isSome ∨
        ∃ j p₁, j ≤ k ∧ s₀.processors[j]? = some p₁ ∧ s₀.RefersTo p₁ p₀.engine) := by
  have hLt : k < s₀.processors.length :=
    h.advances.processors ▸ (List.getElem?_eq_some_iff.mp hp).1
  obtain ⟨p₀, hp₀⟩ : ∃ p₀, s₀.processors[k]? = some p₀ := ⟨_, List.getElem?_eq_getElem hLt⟩
  obtain ⟨p', hp', hConnected, hSome⟩ := h.connected k p₀ (Nat.zero_le k) (by omega) hp₀
  obtain rfl := Option.some.inj (hp'.symm.trans hp)
  refine ⟨p₀, hp₀, hConnected, hSome.trans (or_congr_right ?_)⟩
  exact exists_congr fun j => exists_congr fun p₁ => and_iff_right (Nat.zero_le j)

/-- The second stage leaves the references of a processor. -/
theorem Connected.refersTo {p₀ : Processor} {s₀ : Server} (h : Connected s p₀ p)
    (hAdvances : Advances s₀ s) (i : Nat) : s.RefersTo p i ↔ s₀.RefersTo p₀ i := by
  rw [RefersTo, RefersTo, hAdvances.getObject]
  have hRouted := h.routed
  generalize p₀.outputFilters = fs at hRouted
  generalize p.outputFilters = fs' at hRouted
  induction hRouted with
  | nil => rfl
  | cons hFirst _ ih =>
    obtain ⟨q, rfl, -⟩ := hFirst.same
    simp only [List.mem_cons, exists_eq_or_imp, ih]

/-- References from the processors before `Connect`, and from those after it. -/
theorem Wired.exists_refersTo {s₀ : Server} (h : Wired s₀ 0 s₀.processors.length s) (P : Nat → Prop)
    (i : Nat) :
    (∃ j p₁, P j ∧ s₀.processors[j]? = some p₁ ∧ s₀.RefersTo p₁ i) ↔
      ∃ j p₁, P j ∧ s.processors[j]? = some p₁ ∧ s.RefersTo p₁ i := by
  constructor
  · rintro ⟨j, p₁, hj, hp₁, hRef⟩
    have hLt := (List.getElem?_eq_some_iff.mp hp₁).1
    obtain ⟨p', hp', hConnected, -⟩ := h.connected j p₁ (Nat.zero_le j) (by omega) hp₁
    exact ⟨j, p', hj, hp', (hConnected.refersTo h.advances i).mpr hRef⟩
  · rintro ⟨j, p₁, hj, hp₁, hRef⟩
    obtain ⟨p₀, hp₀, hConnected, -⟩ := h.processor hp₁
    exact ⟨j, p₀, hj, hp₀, (hConnected.refersTo h.advances i).mp hRef⟩

/-- There is no output queue before the second stage. -/
theorem Constructed.output_eq_none {es : List ProcessorElem} (h : Constructed es s) (i : Nat) :
    s.output i = none := by
  rw [output]
  cases he : s.engines[i]? with
  | none => rfl
  | some engine => exact h.outputs engine (List.mem_of_getElem? he)

/-- Processor `A` before `B`, and only `B` refers to the engine `E`. `A` refers to `B`. -/
def lateReference : ServerElem :=
  ⟨[83], [⟨[69], [⟨[65], some [50], [⟨[77], some [], none, []⟩], [],
      [⟨some [66], none, none, none⟩]⟩,
    ⟨[66], some [49], [⟨[78], some [], none, []⟩], [⟨none, none, none⟩],
      [⟨some [69], none, none, none⟩]⟩], some [66]⟩], none, none, none⟩

/-- The first two modules that are constructed are INPUT modules, the third one is a SIMPLE
module. -/
def lateLibraries : Libraries :=
  ⟨fun _ => true, fun _ _ => true, fun a => if a < 5 then .input else .simple, fun _ => true,
    fun _ => true⟩

/-- What can be computed of the server says that there is one. -/
theorem exists_of_toOption {α : Type} (x : Except InitError α) (P : α → Bool)
    (h : (x.toOption).any P = true) : ∃ a, x = .ok a ∧ P a = true := by
  cases x with
  | error _ => cases h
  | ok a => exact ⟨a, rfl, h⟩

/-- The queues that the threads of a processor put resources into are there, with the sub-queue that
they name, and they stay there: no `PutItem` of `QueueResource` or of the deleted resources
aborts. -/
theorem init_routes (hInit : init libs batch e = .ok s) (hp : s.processors[k]? = some p) :
    (∀ b ndebug, (p.view s 0 b ndebug).checkModules = true) ∧
    (∀ f ∈ p.outputFilters, ∃ q x, f.queue = some q ∧ s.target f.processor = some q ∧
      s.queues[q]? = some x ∧ ∀ [Queue.Sized Processing.Resource], TakesPuts x f.priority) ∧
    ∀ q, p.engineOutputQueue = some q →
      ∃ x, s.queues[q]? = some x ∧ ∀ [Queue.Sized Processing.Resource], TakesPuts x 0 := by
  obtain ⟨s₀, hConstructed, hWired⟩ := init_processor hInit
  obtain ⟨p₀, hp₀, hConnected, -⟩ := hWired.processor hp
  have hReady : Ready s := hConstructed.ready.mono hWired.advances
  refine ⟨fun b ndebug => ?_, fun f hf => ?_, fun q hq => ?_⟩
  · obtain ⟨elem, -, hReads⟩ := forall₂_getElem? hConstructed.reads hp₀
    obtain ⟨x, hx, -⟩ := hReads.queue
    have hModules : p.modules = p₀.modules := by rw [hConnected.same]
    have hQueue : p.inputQueue = p₀.inputQueue := by rw [hConnected.same]
    refine (checkModules_congr hModules hConnected.routed.length_eq.symm ?_ 0).trans hReads.checked
    rw [hQueue, hx, hWired.advances.queue hx]
  · obtain ⟨j, hj⟩ := List.mem_iff_getElem?.mp hf
    obtain ⟨f₀, -, hRouted⟩ := forall₂_getElem? hConnected.routed hj
    obtain ⟨q, rfl, hTarget, hHas⟩ := hRouted.same
    cases hq : s.queues[q]? with
    | none => simp [hasQueue, hq] at hHas
    | some x =>
      rw [hasQueue_of_get hq] at hHas
      exact ⟨q, x, rfl, hTarget, hq, takesPuts_of_hasQueue hHas⟩
  · have hOut := hReady.outputs _ q (hConnected.output q hq)
    exact ⟨outputQueue, hOut, takesPuts_of_hasQueue hasQueue_outputQueue⟩

/-- Both processors of `lateReference`. -/
theorem init_routes_late :
    ∃ (s : Server), s.processors.length = 2 ∧ ∀ (k : Nat) (p : Processor),
    s.processors[k]? = some p →
      (∀ b ndebug, (p.view s 0 b ndebug).checkModules = true) ∧
      (∀ f ∈ p.outputFilters, ∃ q x, f.queue = some q ∧ s.target f.processor = some q ∧
        s.queues[q]? = some x ∧ ∀ [Queue.Sized Processing.Resource], TakesPuts x f.priority) ∧
      ∀ q, p.engineOutputQueue = some q →
        ∃ x, s.queues[q]? = some x ∧ ∀ [Queue.Sized Processing.Resource], TakesPuts x 0 := by
  obtain ⟨s, hInit, hTwo⟩ := exists_of_toOption (init lateLibraries true lateReference)
    (fun s => s.processors.length == 2) (by decide +kernel)
  exact ⟨s, beq_iff_eq.mp hTwo, fun k p hp => init_routes hInit hp⟩

end Server

end HectorCore.Startup
