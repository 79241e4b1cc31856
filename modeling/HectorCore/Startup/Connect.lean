import HectorCore.Startup.Server

/-!
# Connect — what the two stages of Init do

One lemma for each function of `Server::Init` that says what a server is afterwards: `Constructed`
for the first stage, `Wired` for the second one. The second stage only ever adds to a server
(`Advances`): the output queues of engines, and the queues of the filters that it has come to.
-/

namespace HectorCore.Startup

open Objects (indexed)
open Processing (ModuleType QueueRef)
open Queue (SyncQueue)

/-- A computation that goes on. -/
theorem bind_ok_iff {ε α β : Type} {x : Except ε α} {f : α → Except ε β} {b : β} :
    (x >>= f) = .ok b ↔ ∃ a, x = .ok a ∧ f a = .ok b := by
  constructor
  · intro h
    cases x with
    | error e => cases h
    | ok a => exact ⟨a, rfl, h⟩
  · rintro ⟨a, rfl, h⟩
    exact h

/-- The partner of an element. -/
theorem forall₂_getElem? {α β : Type} {R : α → β → Prop} {xs : List α} {ys : List β}
    (h : List.Forall₂ R xs ys) {k : Nat} {y : β} (hy : ys[k]? = some y) :
    ∃ x, xs[k]? = some x ∧ R x y := by
  induction h generalizing k with
  | nil => cases hy
  | @cons x y' xs ys hR hRest ih =>
    cases k with
    | zero => exact ⟨x, rfl, Option.some.inj hy ▸ hR⟩
    | succ k => exact ih hy

namespace Server

-- ---------------------------------------------------------------------------
-- References
-- ---------------------------------------------------------------------------

/-- The input queue of processor `k`. -/
def input (s : Server) (k : Nat) : Option QueueRef := (s.processors[k]?).map (·.inputQueue)

/-- The output queue of engine `i`. -/
def output (s : Server) (i : Nat) : Option QueueRef := (s.engines[i]?).bind (·.outputQueue)

/-- The queue behind a reference, in a server as it is. -/
def target (s : Server) (ref : Str) : Option QueueRef :=
  match s.getObject ref with
  | some (.processor k) => s.input k
  | some (.engine i) => s.output i
  | _ => none

/-- The output queues are what `CreateOutputQueue` makes. -/
def OutputsSound (s : Server) : Prop := ∀ i q, s.output i = some q → s.queues[q]? = some outputQueue

/-- What the second stage leaves alone. -/
structure Advances (s s' : Server) : Prop where
  getObject : s'.getObject = s.getObject
  input : s'.input = s.input
  engines : s'.engines.length = s.engines.length
  engineInput : ∀ i : Nat,
    (s'.engines[i]?).map (·.inputQueue) = (s.engines[i]?).map (·.inputQueue)
  processors : s'.processors.length = s.processors.length
  queues : s.queues <+: s'.queues
  kept : ∀ i q, s.output i = some q → s'.output i = some q
  sound : OutputsSound s → OutputsSound s'

variable {s s' s'' : Server} {ref : Str} {q : QueueRef} {priority : Int}

theorem Advances.refl (s : Server) : Advances s s :=
  ⟨rfl, rfl, rfl, fun _ => rfl, rfl, List.prefix_rfl, fun _ _ h => h, id⟩

/-- One reference after the other. -/
theorem Advances.trans (h : Advances s s') (h' : Advances s' s'') : Advances s s'' where
  getObject := h'.getObject.trans h.getObject
  input := h'.input.trans h.input
  engines := h'.engines.trans h.engines
  engineInput i := (h'.engineInput i).trans (h.engineInput i)
  processors := h'.processors.trans h.processors
  queues := h.queues.trans h'.queues
  kept i q hOut := h'.kept i q (h.kept i q hOut)
  sound hSound := h'.sound (h.sound hSound)

/-- A queue that is there stays. -/
theorem Advances.queue (h : Advances s s') {x : SyncQueue Processing.Resource}
    (hq : s.queues[q]? = some x) : s'.queues[q]? = some x := by
  obtain ⟨hLt, -⟩ := List.getElem?_eq_some_iff.mp hq
  obtain ⟨more, hMore⟩ := h.queues
  rw [← hMore, List.getElem?_append_left hLt, hq]

/-- A reference that leads to a queue goes on leading there. -/
theorem Advances.target (h : Advances s s') (hTarget : s.target ref = some q) :
    s'.target ref = some q := by
  unfold Server.target at hTarget ⊢
  rw [h.getObject, h.input]
  split at hTarget
  · exact hTarget
  · exact h.kept _ _ hTarget
  · exact hTarget

theorem Advances.hasQueue (h : Advances s s') (hHas : s.hasQueue q priority = true) :
    s'.hasQueue q priority = true := by
  unfold Server.hasQueue at hHas ⊢
  cases hq : s.queues[q]? with
  | none => simp [hq] at hHas
  | some x =>
    rw [h.queue hq]
    rwa [hq] at hHas

-- ---------------------------------------------------------------------------
-- Connect
-- ---------------------------------------------------------------------------

/-- A new output queue for an engine. -/
theorem advances_output {i : Nat} {e : ProcessingEngine} (he : s.engines[i]? = some e)
    (hNone : e.outputQueue = none) :
    Advances s
      { s with
        queues := s.queues ++ [outputQueue]
        engines := s.engines.set i { e with outputQueue := some s.queues.length } } := by
  have hLt : i < s.engines.length := (List.getElem?_eq_some_iff.mp he).1
  refine ⟨rfl, rfl, List.length_set, fun j => ?_, rfl, List.prefix_append _ _, fun j q hOut => ?_,
    fun hSound j q hOut => ?_⟩
  · by_cases hSame : j = i
    · rw [hSame, List.getElem?_set_self hLt, he]
      rfl
    · rw [List.getElem?_set_ne (Ne.symm hSame)]
  · have hOther : j ≠ i := by
      rintro rfl
      rw [output, he, Option.bind_some, hNone] at hOut
      cases hOut
    rw [output] at hOut ⊢
    rw [List.getElem?_set_ne hOther.symm]
    exact hOut
  · rw [output] at hOut
    by_cases hSame : j = i
    · rw [hSame, List.getElem?_set_self hLt, Option.bind_some] at hOut
      obtain rfl := Option.some.inj hOut
      exact List.getElem?_concat_length
    · rw [List.getElem?_set_ne (Ne.symm hSame)] at hOut
      have hOld := hSound j q hOut
      rwa [List.getElem?_append_left (List.getElem?_eq_some_iff.mp hOld).1]

/-- What `resolve` has done. The output queue of an engine is there afterwards if it was there, or
if the reference is to the engine. -/
structure Resolved (s : Server) (ref : Str) (q : QueueRef) (s' : Server) : Prop where
  advances : Advances s s'
  processors : s'.processors = s.processors
  target : s'.target ref = some q
  made : ∀ i, (s'.output i).isSome ↔ (s.output i).isSome ∨ s.getObject ref = some (.engine i)

/-- What a resolved reference has changed: at most, an engine has got its output queue. -/
theorem resolve_ok (h : s.resolve ref = .ok (q, s')) : Resolved s ref q s' := by
  unfold resolve at h
  split at h
  · rename_i k hKind
    split at h
    · rename_i p hp
      obtain ⟨rfl, rfl⟩ := Prod.mk.inj (Except.ok.inj h)
      refine ⟨.refl s, rfl, ?_, fun i => ?_⟩
      · simp [Server.target, hKind, input, hp]
      · simp [hKind]
    · cases h
  · rename_i i hKind
    split at h
    · rename_i e he
      split at h
      · rename_i q₀ hOut
        obtain ⟨rfl, rfl⟩ := Prod.mk.inj (Except.ok.inj h)
        have hOutput : s.output i = some q₀ := by rw [output, he, Option.bind_some, hOut]
        refine ⟨.refl s, rfl, ?_, fun j => ?_⟩
        · simp only [Server.target, hKind, hOutput]
        · refine ⟨Or.inl, fun hEither => hEither.elim id fun hSame => ?_⟩
          rw [hKind] at hSame
          obtain rfl := Kind.engine.inj (Option.some.inj hSame)
          rw [hOutput, Option.isSome_some]
      · rename_i hNone
        obtain ⟨rfl, rfl⟩ := Prod.mk.inj (Except.ok.inj h)
        have hLt : i < s.engines.length := (List.getElem?_eq_some_iff.mp he).1
        have hAdvances := advances_output he hNone
        refine ⟨hAdvances, rfl, ?_, fun j => ?_⟩
        · rw [Server.target, hAdvances.getObject, hKind]
          simp [output, List.getElem?_set_self hLt]
        · by_cases hSame : j = i
          · subst hSame
            simp [output, List.getElem?_set_self hLt, hKind]
          · simp [output, List.getElem?_set_ne (Ne.symm hSame), hKind, Ne.symm hSame]
    · cases h
  · cases h

/-- A filter that `Connect` has given its queue. -/
structure Routed (s : Server) (f f' : OutputFilter) : Prop where
  same : ∃ q, f' = { f with queue := some q } ∧ s.target f.processor = some q ∧
    s.hasQueue q f.priority = true

/-- A filter stays connected. -/
theorem Routed.mono {f f' : OutputFilter} (h : Routed s f f') (hAdvances : Advances s s') :
    Routed s' f f' := by
  obtain ⟨q, hSame, hTarget, hHas⟩ := h.same
  exact ⟨q, hSame, hAdvances.target hTarget, hAdvances.hasQueue hHas⟩

/-- What the loop of `Connect` has done. -/
structure FiltersConnected (s : Server) (fs fs' : List OutputFilter) (s' : Server) : Prop where
  advances : Advances s s'
  processors : s'.processors = s.processors
  routed : List.Forall₂ (Routed s') fs fs'
  made : ∀ i, (s'.output i).isSome ↔
    (s.output i).isSome ∨ ∃ f ∈ fs, s.getObject f.processor = some (.engine i)

/-- The loop over the filters. -/
theorem connectFilters_ok {fs fs' : List OutputFilter} (h : connectFilters fs s = .ok (fs', s')) :
    FiltersConnected s fs fs' s' := by
  induction fs generalizing s fs' with
  | nil =>
    obtain ⟨rfl, rfl⟩ := Prod.mk.inj (Except.ok.inj h)
    exact ⟨.refl s, rfl, .nil, fun i => by simp⟩
  | cons f fs ih =>
    rw [connectFilters, bind_ok_iff] at h
    obtain ⟨⟨q, s₁⟩, hResolve, h⟩ := h
    have hFirst := resolve_ok hResolve
    simp only at h
    split_ifs at h with hHas
    rw [bind_ok_iff] at h
    obtain ⟨⟨fs₁, s₂⟩, hRest, h⟩ := h
    obtain ⟨rfl, rfl⟩ := Prod.mk.inj (Except.ok.inj h)
    have hLater := ih hRest
    have hRouted : Routed s₁ f { f with queue := some q } := ⟨q, rfl, hFirst.target, hHas⟩
    refine ⟨hFirst.advances.trans hLater.advances, hLater.processors.trans hFirst.processors,
      .cons (hRouted.mono hLater.advances) hLater.routed, fun i => ?_⟩
    rw [hLater.made, hFirst.made, hFirst.advances.getObject, or_assoc]
    simp only [List.mem_cons, exists_eq_or_imp]

/-- One of the filters refers to engine `i`. -/
def RefersTo (s : Server) (p : Processor) (i : Nat) : Prop :=
  ∃ f ∈ p.outputFilters, s.getObject f.processor = some (.engine i)

/-- What became of a processor: its filters have their queues, and `engineOutputQueue` is what the
engine had when `Connect` came to its end. -/
structure Connected (s : Server) (p p' : Processor) : Prop where
  same : p' = { p with
    outputFilters := p'.outputFilters, engineOutputQueue := p'.engineOutputQueue }
  routed : List.Forall₂ (Routed s) p.outputFilters p'.outputFilters
  output : ∀ q, p'.engineOutputQueue = some q → s.output p.engine = some q

theorem Connected.mono {p p' : Processor} (h : Connected s p p') (hAdvances : Advances s s') :
    Connected s' p p' :=
  ⟨h.same, h.routed.imp fun _ _ hRouted => hRouted.mono hAdvances,
    fun q hq => hAdvances.kept _ q (h.output q hq)⟩

/-- What `Connect` leaves of the processor, and of the engines. -/
theorem connect_ok {libs : Libraries} {k : Nat} {p : Processor} (h : connect libs k s = .ok s')
    (hp : s.processors[k]? = some p) :
    ∃ p', Advances s s' ∧ s'.processors = s.processors.set k p' ∧ Connected s' p p' ∧
      p'.engineOutputQueue = s'.output p.engine ∧
      ∀ i, (s'.output i).isSome ↔ (s.output i).isSome ∨ s.RefersTo p i := by
  unfold connect at h
  rw [hp] at h
  simp only [bind_ok_iff] at h
  obtain ⟨-, -, ⟨fs, s₁⟩, hFilters, h⟩ := h
  have hDone := connectFilters_ok hFilters
  obtain rfl := Except.ok.inj h
  let p' : Processor := { p with outputFilters := fs, engineOutputQueue := s₁.output p.engine }
  have hInput : (s₁.setProcessor k p').input = s₁.input := by
    funext j
    by_cases hSame : j = k
    · subst hSame
      have hLt := (List.getElem?_eq_some_iff.mp hp).1
      simp only [input, setProcessor, hDone.processors, List.getElem?_set_self hLt, hp,
        Option.map_some]
      rfl
    · simp only [input, setProcessor, List.getElem?_set_ne (Ne.symm hSame)]
  have hSet : Advances s₁ (s₁.setProcessor k p') :=
    ⟨rfl, hInput, rfl, fun _ => rfl, List.length_set, List.prefix_rfl, fun _ _ hOut => hOut, id⟩
  refine ⟨p', hDone.advances.trans hSet, congrArg (·.set k p') hDone.processors, ?_,
    rfl, hDone.made⟩
  exact ⟨rfl, hDone.routed.imp fun _ _ hRouted => hRouted.mono hSet, fun q hq => hq⟩

/-- What the second stage has done to the processors from `a` on, `n` of them. -/
structure Wired (s : Server) (a n : Nat) (s' : Server) : Prop where
  advances : Advances s s'
  before : ∀ j < a, s'.processors[j]? = s.processors[j]?
  connected : ∀ j p, a ≤ j → j < a + n → s.processors[j]? = some p →
    ∃ p', s'.processors[j]? = some p' ∧ Connected s' p p' ∧
      (p'.engineOutputQueue.isSome ↔ (s.output p.engine).isSome ∨
        ∃ j' p₀, a ≤ j' ∧ j' ≤ j ∧ s.processors[j']? = some p₀ ∧ s.RefersTo p₀ p.engine)
  made : ∀ i, (s'.output i).isSome ↔ (s.output i).isSome ∨
    ∃ j p, a ≤ j ∧ j < a + n ∧ s.processors[j]? = some p ∧ s.RefersTo p i

/-- The loop over the processors, from any of them on. -/
theorem connectAll_ok {libs : Libraries} {a n : Nat} (hLength : a + n ≤ s.processors.length)
    (h : connectAll libs (List.range' a n) s = .ok s') : Wired s a n s' := by
  induction n generalizing a s with
  | zero =>
    obtain rfl := Except.ok.inj h
    refine ⟨.refl s, fun _ _ => rfl, fun j p hFrom hTo => absurd hTo (by omega), fun i => ?_⟩
    exact ⟨Or.inl, fun hEither => hEither.elim id fun ⟨_, _, _, hTo, _⟩ => absurd hTo (by omega)⟩
  | succ n ih =>
    rw [List.range'_succ, connectAll, bind_ok_iff] at h
    obtain ⟨s₁, hConnect, hRest⟩ := h
    obtain ⟨p, hp⟩ : ∃ p, s.processors[a]? = some p := ⟨_, List.getElem?_eq_getElem (by omega)⟩
    obtain ⟨p₁, hAdvances, hProcessors, hConnected, hOutput, hMade⟩ := connect_ok hConnect hp
    have hLength₁ := hAdvances.processors
    have hLater := ih (by omega) hRest
    -- the first processor is connected, and the others are as they were
    have hOther : ∀ j, j ≠ a → s₁.processors[j]? = s.processors[j]? := by
      intro j hj
      rw [hProcessors, List.getElem?_set_ne hj.symm]
    have hSelf : s₁.processors[a]? = some p₁ := by
      rw [hProcessors, List.getElem?_set_self (by omega)]
    have hRefers : s₁.RefersTo = s.RefersTo := by
      funext p' i
      rw [RefersTo, RefersTo, hAdvances.getObject]
    refine ⟨hAdvances.trans hLater.advances, ?_, ?_, ?_⟩
    · intro j hj
      rw [hLater.before j (by omega), hOther j (by omega)]
    · intro j p' hFrom hTo hp'
      -- it knows the output queues that it has made itself, or that were there
      by_cases hFirst : j = a
      · subst hFirst
        obtain rfl := Option.some.inj (hp'.symm.trans hp)
        refine ⟨p₁, (hLater.before j (by omega)).trans hSelf, hConnected.mono hLater.advances, ?_⟩
        rw [hOutput, hMade]
        refine or_congr_right ⟨fun hRef => ⟨j, p', le_refl j, le_refl j, hp, hRef⟩, ?_⟩
        rintro ⟨j', p₀, hFrom', hTo', hp₀, hRef⟩
        obtain rfl : j' = j := by omega
        rwa [Option.some.inj (hp₀.symm.trans hp)] at hRef
      · -- a later one knows in addition those that the first one has made
        obtain ⟨p'', hp'', hConnected'', hSome⟩ :=
          hLater.connected j p' (by omega) (by omega) ((hOther j hFirst).trans hp')
        refine ⟨p'', hp'', hConnected'', ?_⟩
        rw [hSome, hMade, hRefers, or_assoc]
        refine or_congr_right ⟨?_, ?_⟩
        · rintro (hRef | ⟨j', p₀, hFrom', hTo', hp₀, hRef⟩)
          · exact ⟨a, p, le_refl a, hFrom, hp, hRef⟩
          · exact ⟨j', p₀, by omega, hTo', (hOther j' (by omega)) ▸ hp₀, hRef⟩
        · rintro ⟨j', p₀, hFrom', hTo', hp₀, hRef⟩
          by_cases hj' : j' = a
          · subst hj'
            rw [Option.some.inj (hp₀.symm.trans hp)] at hRef
            exact Or.inl hRef
          · exact Or.inr ⟨j', p₀, by omega, hTo', (hOther j' hj').trans hp₀, hRef⟩
    · intro i
      -- an output queue is made by the first processor or by a later one
      rw [hLater.made, hMade, hRefers, or_assoc]
      refine or_congr_right ⟨?_, ?_⟩
      · rintro (hRef | ⟨j, p₀, hFrom, hTo, hp₀, hRef⟩)
        · exact ⟨a, p, le_refl a, by omega, hp, hRef⟩
        · exact ⟨j, p₀, by omega, by omega, (hOther j (by omega)) ▸ hp₀, hRef⟩
      · rintro ⟨j, p₀, hFrom, hTo, hp₀, hRef⟩
        by_cases hj : j = a
        · subst hj
          rw [Option.some.inj (hp₀.symm.trans hp)] at hRef
          exact Or.inl hRef
        · exact Or.inr ⟨j, p₀, by omega, by omega, (hOther j hj).trans hp₀, hRef⟩

-- ---------------------------------------------------------------------------
-- The first stage
-- ---------------------------------------------------------------------------

/-- What an object can be in a server with so many engines and processors. -/
def Bounded (engines processors : Nat) : Kind → Prop
  | .engine i => i < engines
  | .processor k => k < processors
  | _ => True

/-- New processors and engines come behind the old ones. -/
theorem Bounded.mono {m m' n n' : Nat} {kind : Kind} (h : Bounded m n kind) (hm : m ≤ m')
    (hn : n ≤ n') : Bounded m' n' kind := by
  cases kind with
  | server => trivial
  | engine i => exact Nat.lt_of_lt_of_le h hm
  | processor k => exact Nat.lt_of_lt_of_le h hn
  | module => trivial

/-- A processor is what its element says. -/
structure Reads (s : Server) (e : ProcessorElem) (p : Processor) : Prop where
  threads : readThreads e.threads = .ok p.nThreads
  queue : ∃ q, s.queues[p.inputQueue]? = some q ∧ addQueues e.queues SyncQueue.new = .ok q
  filters : readFilters e.nextProcessors = .ok p.outputFilters
  checked : (p.view s 0 false false).checkModules = true

/-- What is checked of the modules depends on the number of queues only. -/
theorem checkModules_congr {p p' : Processor} {batch ndebug : Bool}
    (hModules : p'.modules = p.modules)
    (hFilters : p'.outputFilters.length = p.outputFilters.length)
    (hQueue : s'.queues[p'.inputQueue]? = s.queues[p.inputQueue]?) (thread : Nat) :
    (p'.view s' thread batch ndebug).checkModules = (p.view s thread false false).checkModules := by
  have hOne : ∀ n i type, (p'.view s' thread batch ndebug).checkModule n i type =
      (p.view s thread false false).checkModule n i type := by
    intro n i type
    cases type <;>
      simp only [Processing.Processor.checkModule, Processor.view, hQueue,
        List.length_map, hFilters]
  unfold Processing.Processor.checkModules
  rw [show (p'.view s' thread batch ndebug).types = (p.view s thread false false).types from
    congrArg (fun ms => (ms.getD thread []).map Prod.snd) hModules]
  exact congrArg (List.all _) (funext fun ⟨type, i⟩ => hOne _ i type)

/-- Queues that are added later do not matter. -/
theorem Reads.mono {e : ProcessorElem} {p : Processor} (h : Reads s e p)
    (hQueues : s.queues <+: s'.queues) : Reads s' e p := by
  obtain ⟨q, hq, hAdd⟩ := h.queue
  obtain ⟨more, hMore⟩ := hQueues
  have hSame : s'.queues[p.inputQueue]? = s.queues[p.inputQueue]? := by
    rw [← hMore, List.getElem?_append_left (List.getElem?_eq_some_iff.mp hq).1]
  exact ⟨h.threads, ⟨q, hSame.trans hq, hAdd⟩, h.filters,
    (checkModules_congr rfl rfl hSame 0).trans h.checked⟩

/-- Only modules have been constructed. -/
structure OnlyModules (s s' : Server) : Prop where
  objects : ∃ n, s'.objects = s.objects ++ List.replicate n .module
  engines : s'.engines = s.engines
  processors : s'.processors = s.processors
  queues : s'.queues = s.queues

theorem OnlyModules.trans (h : OnlyModules s s') (h' : OnlyModules s' s'') : OnlyModules s s'' := by
  obtain ⟨n, hn⟩ := h.objects
  obtain ⟨n', hn'⟩ := h'.objects
  refine ⟨⟨n + n', ?_⟩, h'.engines.trans h.engines, h'.processors.trans h.processors,
    h'.queues.trans h.queues⟩
  rw [hn', hn, List.append_assoc, List.replicate_append_replicate]

/-- The modules of a processor are objects like others. -/
theorem onlyModules_constructModules (s : Server) (id : Str) (i n : Nat) :
    OnlyModules s (s.constructModules id i n) := by
  induction n generalizing s i with
  | zero => exact ⟨⟨0, (List.append_nil _).symm⟩, rfl, rfl, rfl⟩
  | succ n ih =>
    have hFirst : OnlyModules s (s.construct (indexed id (Int32.ofNat i)) .module) :=
      ⟨⟨1, rfl⟩, rfl, rfl, rfl⟩
    exact hFirst.trans (ih _ _)

/-- The modules add objects and nothing else. -/
theorem addModules_ok {libs : Libraries} {nThreads : Nat} {es : List ModuleElem}
    {modules modules' : List (List (Nat × ModuleType))}
    (h : addModules libs nThreads es s modules = .ok (s', modules')) : OnlyModules s s' := by
  induction es generalizing s modules with
  | nil =>
    obtain ⟨rfl, -⟩ := Prod.mk.inj (Except.ok.inj h)
    exact ⟨⟨0, (List.append_nil _).symm⟩, rfl, rfl, rfl⟩
  | cons e es ih =>
    rw [addModules, bind_ok_iff] at h
    obtain ⟨⟨s₁, modules₁⟩, hFirst, hRest⟩ := h
    simp only [addModule, bind_ok_iff] at hFirst
    obtain ⟨-, -, params, -, -, -, hDone⟩ := hFirst
    obtain ⟨rfl, -⟩ := Prod.mk.inj (Except.ok.inj hDone)
    exact (onlyModules_constructModules s e.id 0 nThreads).trans (ih hRest)

/-- What the first stage has made of the elements `es` of processors. -/
structure Built (s : Server) (es : List ProcessorElem) (s' : Server) : Prop where
  engines : s'.engines = s.engines
  queues : s.queues <+: s'.queues
  processors : ∃ ps, s'.processors = s.processors ++ ps ∧ List.Forall₂ (Reads s') es ps
  kinds : ∀ kind ∈ s'.objects, kind ∈ s.objects ∨ Bounded 0 s'.processors.length kind

/-- One processor of the config. -/
theorem initProcessor_ok {libs : Libraries} {engine : Nat} {e : ProcessorElem}
    (h : initProcessor libs engine e s = .ok s') : Built s [e] s' := by
  simp only [initProcessor, bind_ok_iff] at h
  obtain ⟨nThreads, hThreads, ⟨s₁, modules⟩, hModules, q, hQueues, fs, hFilters, h⟩ := h
  have hOnly := addModules_ok hModules
  simp only at h
  split_ifs at h with hCheck
  obtain rfl := Except.ok.inj h
  have hProcessors : s₁.processors = s.processors := hOnly.processors
  obtain ⟨n, hObjects⟩ := hOnly.objects
  refine ⟨hOnly.engines, ⟨[q], congrArg (· ++ [q]) hOnly.queues.symm⟩,
    ⟨[⟨engine, nThreads, modules, s₁.queues.length, fs, none⟩], ?_, ?_⟩, ?_⟩
  · exact congrArg (· ++ _) hProcessors
  · exact .cons ⟨hThreads, ⟨q, List.getElem?_concat_length, hQueues⟩, hFilters, hCheck⟩ .nil
  · intro kind hMem
    have hMem : kind ∈ s₁.objects := hMem
    rw [hObjects] at hMem
    rcases List.mem_append.mp hMem with hMem | hMem
    · rcases List.mem_append.mp hMem with hOld | hNew
      · exact Or.inl hOld
      · obtain rfl := List.mem_singleton.mp hNew
        right
        show s.processors.length < (s₁.processors ++ [_]).length
        rw [List.length_append, hProcessors]
        exact Nat.lt_succ_self _
    · exact Or.inr ((List.eq_of_mem_replicate hMem) ▸ trivial)

/-- Those of an engine, in the order of the config. -/
theorem initProcessors_ok {libs : Libraries} {engine : Nat} {es : List ProcessorElem}
    (h : initProcessors libs engine es s = .ok s') : Built s es s' := by
  induction es generalizing s with
  | nil =>
    obtain rfl := Except.ok.inj h
    exact ⟨rfl, List.prefix_rfl, ⟨[], (List.append_nil _).symm, .nil⟩, fun _ hMem => Or.inl hMem⟩
  | cons e es ih =>
    rw [initProcessors, bind_ok_iff] at h
    obtain ⟨s₁, hFirst, hRest⟩ := h
    have hOne := initProcessor_ok hFirst
    have hMore := ih hRest
    obtain ⟨ps, hps, hReads⟩ := hOne.processors
    obtain ⟨ps', hps', hReads'⟩ := hMore.processors
    refine ⟨hMore.engines.trans hOne.engines, hOne.queues.trans hMore.queues,
      ⟨ps ++ ps', ?_, ?_⟩, ?_⟩
    · rw [hps', hps, List.append_assoc]
    · exact List.rel_append (hReads.imp fun _ _ hRead => hRead.mono hMore.queues) hReads'
    · intro kind hMem
      rcases hMore.kinds kind hMem with hOld | hNew
      · refine (hOne.kinds kind hOld).imp_right fun hBound => hBound.mono le_rfl ?_
        rw [hps', List.length_append]
        exact Nat.le_add_right _ _
      · exact Or.inr hNew

/-- What the first stage has made of the elements `es` of all processors. -/
structure Constructed (es : List ProcessorElem) (s : Server) : Prop where
  reads : List.Forall₂ (Reads s) es s.processors
  outputs : ∀ e ∈ s.engines, e.outputQueue = none
  inputs : ∀ e ∈ s.engines, ∀ q, e.inputQueue = some q → ∃ p ∈ s.processors, p.inputQueue = q
  order : s.engines.flatMap (·.processors) = List.range s.processors.length
  kinds : ∀ kind ∈ s.objects, Bounded s.engines.length s.processors.length kind

/-- The input queue of an engine is that of a processor. -/
theorem findInput_ok {ref : Option Str} (h : s.findInput ref = .ok (some q)) :
    ∃ p ∈ s.processors, p.inputQueue = q := by
  unfold findInput at h
  split at h
  · cases h
  · split at h
    · split at h
      · rename_i p hp
        exact ⟨p, List.mem_of_getElem? hp, Option.some.inj (Except.ok.inj h)⟩
      · cases h
    · cases h

/-- One engine, behind those that are there. -/
theorem initEngine_ok {libs : Libraries} {e : EngineElem} {es : List ProcessorElem}
    (hBefore : Constructed es s) (h : initEngine libs e s = .ok s') :
    Constructed (es ++ e.processors) s' := by
  simp only [initEngine, bind_ok_iff] at h
  obtain ⟨s₁, hProcessors, input, hInput, h⟩ := h
  obtain rfl := Except.ok.inj h
  have hBuilt := initProcessors_ok hProcessors
  have hEngines : s₁.engines = s.engines := hBuilt.engines
  obtain ⟨ps, hps, hReads⟩ := hBuilt.processors
  have hps : s₁.processors = s.processors ++ ps := hps
  have hCount : s₁.processors.length = s.processors.length + ps.length := by
    rw [hps, List.length_append]
  refine ⟨?_, ?_, ?_, ?_, ?_⟩
  · have hAll : List.Forall₂ (Reads s₁) (es ++ e.processors) s₁.processors := by
      rw [hps]
      exact List.rel_append (hBefore.reads.imp fun _ _ hRead => hRead.mono hBuilt.queues) hReads
    exact hAll.imp fun _ _ hRead => hRead.mono List.prefix_rfl
  · intro e' hMem
    rcases List.mem_append.mp hMem with hOld | hNew
    · exact hBefore.outputs e' (hEngines ▸ hOld)
    · obtain rfl := List.mem_singleton.mp hNew
      rfl
  · intro e' hMem q hq
    rcases List.mem_append.mp hMem with hOld | hNew
    · obtain ⟨p, hp, hSame⟩ := hBefore.inputs e' (hEngines ▸ hOld) q hq
      exact ⟨p, hps ▸ List.mem_append_left _ hp, hSame⟩
    · obtain rfl := List.mem_singleton.mp hNew
      rw [show input = some q from hq] at hInput
      exact findInput_ok hInput
  · show (s₁.engines ++ [_]).flatMap _ = List.range s₁.processors.length
    rw [List.flatMap_append, hEngines, hBefore.order, List.flatMap_singleton, hCount,
      Nat.add_sub_cancel_left, List.range_eq_range', List.range_eq_range', ← List.range'_append_1,
      Nat.zero_add]
  · intro kind hMem
    show Bounded (s₁.engines ++ [_]).length s₁.processors.length kind
    rw [List.length_append, hEngines, List.length_singleton]
    rcases hBuilt.kinds kind hMem with hOld | hNew
    · rcases List.mem_append.mp hOld with hOld | hSelf
      · exact (hBefore.kinds kind hOld).mono (Nat.le_succ _) (by omega)
      · obtain rfl := List.mem_singleton.mp hSelf
        exact Nat.lt_succ_self _
    · exact hNew.mono (Nat.zero_le _) le_rfl

/-- All engines. -/
theorem initEngines_ok {libs : Libraries} {engines : List EngineElem} {es : List ProcessorElem}
    (hBefore : Constructed es s) (h : initEngines libs engines s = .ok s') :
    Constructed (es ++ engines.flatMap (·.processors)) s' := by
  induction engines generalizing s es with
  | nil =>
    obtain rfl := Except.ok.inj h
    rwa [List.flatMap_nil, List.append_nil]
  | cons e engines ih =>
    rw [initEngines, bind_ok_iff] at h
    obtain ⟨s₁, hFirst, hRest⟩ := h
    rw [List.flatMap_cons, ← List.append_assoc]
    exact ih (initEngine_ok hBefore hFirst) hRest

/-- What the first stage leaves. -/
theorem construction_ok {libs : Libraries} {batch : Bool} {e : ServerElem}
    (h : construction libs batch e = .ok s) :
    Constructed (e.engines.flatMap (·.processors)) s := by
  have hStart : Constructed [] (new.construct e.id .server) := by
    refine ⟨.nil, nofun, nofun, rfl, fun kind hMem => ?_⟩
    obtain rfl := List.mem_singleton.mp hMem
    trivial
  rw [construction, bind_ok_iff] at h
  obtain ⟨s₁, hEngines, h⟩ := h
  have hDone := initEngines_ok hStart hEngines
  split_ifs at h with hBatch
  · obtain rfl := Except.ok.inj h
    exact hDone
  · rw [bind_ok_iff] at h
    obtain ⟨-, -, h⟩ := h
    obtain rfl := Except.ok.inj h
    exact hDone

/-- `Init` is the first stage, and then the second one over all processors. -/
theorem init_ok_iff {libs : Libraries} {batch : Bool} {e : ServerElem} :
    init libs batch e = .ok s' ↔ ∃ s, construction libs batch e = .ok s ∧
      connectAll libs (List.range' 0 s.processors.length) s = .ok s' := by
  rw [init, bind_ok_iff]
  refine exists_congr fun s => and_congr_right fun hFirst => ?_
  rw [(construction_ok hFirst).order, List.range_eq_range']

end Server

end HectorCore.Startup
