import HectorCore.Processing.Trace
import HectorCore.Processing.Init
import HectorCore.Processing.Conservation

/-!
# Pipeline — a worker thread without MULTI modules

What the worker thread computes when the processor has no MULTI module: one resource after the
other, through the SIMPLE modules in their order, and then to the OUTPUT module or to
`QueueResource`.

* `pipeline` is that, without the loop of `ApplyModules`: the calls that are made on a resource,
  and its fate. `Orderly` says what the calls and the fate are.
* `plainIteration` is the iteration of a thread that serves one resource with it.

* `applyModules_plain` — the loop of `ApplyModules` is the pipeline;
* `fetched_of_ok`      — the deleted inputs before the one that is served;
* `worker_computes_pipeline` — every iteration of every run.
-/

namespace HectorCore.Processing

variable {σ : Type}

-- ---------------------------------------------------------------------------
-- The pipeline
-- ---------------------------------------------------------------------------

/-- A call of `ProcessSimple`. -/
structure SimpleCall where
  module : Nat
  given : Resource
  answer : Option Resource
  deriving DecidableEq

/-- What became of a resource behind the SIMPLE modules. -/
inductive Fate where
  | deleted (r : Resource)
  /-- A module returned NULL: "Resource lost". -/
  | lost
  | through (r : Resource)
  deriving DecidableEq

structure Journey (σ : Type) where
  calls : List SimpleCall
  fate : Fate
  world : σ

/-- A resource goes through SIMPLE modules. -/
def pipeline (w : World σ) : List Nat → Resource → σ → Journey σ
  | [], r, s => ⟨[], .through r, s⟩
  | i :: is, r, s =>
    if r.skip then ⟨[], if r.deleted then .deleted r else .through r, s⟩
    else
      match w.processSimple i r s with
      | (none, s) => ⟨[⟨i, r, none⟩], .lost, s⟩
      | (some r', s) =>
        if r'.deleted then ⟨[⟨i, r, some r'⟩], .deleted r', s⟩
        else
          let j := pipeline w is r' s
          { j with calls := ⟨i, r, some r'⟩ :: j.calls }

/-- What the last module answered decides the fate. -/
def Fate.of : Option Resource → Fate
  | none => .lost
  | some r => if r.deleted then .deleted r else .through r

/-- What the calls on a resource and its fate are: the modules are called in list order, the
first one on the resource, every other one on what the one before returned, none of them on a
resource with a flag. All of them are called unless one returns a resource with a flag, or
none. -/
structure Orderly (modules : List Nat) (r : Resource) (j : Journey σ) : Prop where
  order : j.calls.map (fun c => c.module) <+: modules
  first : ∀ c, j.calls.head? = some c → c.given = r
  linked : j.calls.IsChain fun c d => c.answer = some d.given
  unflagged : ∀ c ∈ j.calls, c.given.skip = false ∧ c.given.deleted = false
  fate : j.fate = Fate.of ((j.calls.getLast?.map fun c => c.answer).getD (some r))
  complete : ∀ r', j.fate = .through r' → r'.skip = false → j.calls.length = modules.length

/-- A resource with SKIP is not given to any further module. -/
theorem pipeline_skip (w : World σ) {r : Resource} (hSkip : r.skip = true)
    (hKept : r.deleted = false)
    (modules : List Nat) (s : σ) : pipeline w modules r s = ⟨[], .through r, s⟩ := by
  cases modules with
  | nil => rfl
  | cons i is => rw [pipeline, if_pos hSkip, hKept, if_neg Bool.false_ne_true]

/-- No module is called: there is none, or the resource has SKIP. -/
theorem orderly_of_no_call {modules : List Nat} {r : Resource} (s : σ) (hKept : r.deleted = false)
    (hDone : modules = [] ∨ r.skip = true) : Orderly modules r ⟨[], .through r, s⟩ := by
  refine ⟨List.nil_prefix, ?_, .nil, ?_, ?_, ?_⟩
  · intro c hc
    exact absurd hc (by simp)
  · intro c hc
    exact absurd hc List.not_mem_nil
  · show Fate.through r = if r.deleted then _ else _
    rw [hKept, if_neg Bool.false_ne_true]
  · rintro r' ⟨⟩ hNo
    rcases hDone with rfl | hSkip
    · rfl
    · rw [hSkip] at hNo
      exact absurd hNo (by decide)

/-- The first module is the last one that is called. -/
theorem orderly_of_one_call {i : Nat} {is : List Nat} {r : Resource}
    {answer : Option Resource} (s : σ)
    (hNo : r.skip = false) (hKept : r.deleted = false)
    (hEnds : ∀ r', Fate.of answer ≠ .through r') :
    Orderly (i :: is) r ⟨[⟨i, r, answer⟩], Fate.of answer, s⟩ := by
  refine ⟨?_, ?_, .singleton _, ?_, rfl, fun r' hThrough => absurd hThrough (hEnds r')⟩
  · exact List.cons_prefix_cons.mpr ⟨rfl, List.nil_prefix⟩
  · rintro c ⟨⟩
    rfl
  · intro c hc
    rw [List.mem_singleton.mp hc]
    exact ⟨hNo, hKept⟩

/-- The rest of the modules, on what the first one returned. -/
theorem Orderly.cons {i : Nat} {is : List Nat} {r r' : Resource} {j : Journey σ}
    (h : Orderly is r' j) (hNo : r.skip = false) (hKept : r.deleted = false) :
    Orderly (i :: is) r { j with calls := ⟨i, r, some r'⟩ :: j.calls } := by
  refine ⟨?_, ?_, ?_, ?_, ?_, ?_⟩
  · exact List.cons_prefix_cons.mpr ⟨rfl, h.order⟩
  · rintro c ⟨⟩
    rfl
  · show List.IsChain _ (_ :: _)
    rw [List.isChain_cons]
    refine ⟨fun d hd => ?_, h.linked⟩
    exact congrArg some (h.first d hd).symm
  · intro c hc
    rcases List.mem_cons.mp hc with rfl | hc
    · exact ⟨hNo, hKept⟩
    · exact h.unflagged c hc
  · refine h.fate.trans ?_
    dsimp only
    cases j.calls with
    | nil => rfl
    | cons c cs =>
      rw [List.getLast?_cons_cons, List.getLast?_eq_some_getLast (List.cons_ne_nil c cs)]
      rfl
  · intro r'' hThrough hSkip
    exact congrArg (· + 1) (h.complete r'' hThrough hSkip)

theorem pipeline_orderly (w : World σ) : ∀ (modules : List Nat) (r : Resource) (s : σ),
    r.deleted = false → Orderly modules r (pipeline w modules r s) := by
  intro modules
  induction modules with
  | nil =>
    intro r s hKept
    exact orderly_of_no_call s hKept (.inl rfl)
  | cons i is ih =>
    intro r s hKept
    by_cases hSkip : r.skip = true
    · rw [pipeline_skip w hSkip hKept]
      exact orderly_of_no_call s hKept (.inr hSkip)
    · have hNo : r.skip = false := Bool.eq_false_iff.mpr hSkip
      rw [pipeline, if_neg hSkip]
      rcases hCall : w.processSimple i r s with ⟨_ | r', s'⟩
      · exact orderly_of_one_call s' hNo hKept fun r' => by simp [Fate.of]
      · dsimp only
        by_cases hDeleted : r'.deleted = true
        · have hFate : Fate.of (some r') = .deleted r' := if_pos hDeleted
          rw [if_pos hDeleted, ← hFate]
          exact orderly_of_one_call s' hNo hKept fun r'' => by rw [hFate]; simp
        · rw [if_neg hDeleted]
          exact (ih r' s' (Bool.eq_false_iff.mpr hDeleted)).cons hNo hKept

-- ---------------------------------------------------------------------------
-- The inputs
-- ---------------------------------------------------------------------------

/-- What the first `n` calls of `ProcessInput(true)` return. -/
def inputs (w : World σ) (module : Nat) : Nat → σ → List (Option Resource) × σ
  | 0, s => ([], s)
  | n + 1, s =>
    let (r, s) := w.processInput module true s
    let (rs, s) := inputs w module n s
    (r :: rs, s)

/-- The thread after it has fetched `discarded`, all of them deleted, and then `got`: the next
input is fetched as long as the last one is deleted. -/
structure Fetched (w : World σ) (module : Nat) (t : Thread σ) (discarded : List Resource)
    (got : Option Resource) (t' : Thread σ) : Prop where
  calls : inputs w module (discarded.length + 1) t.world = (discarded.map some ++ [got], t'.world)
  deleted : ∀ d ∈ discarded, d.deleted = true
  kept : ∀ r, got = some r → r.deleted = false
  thread : t' = { t with
    world := t'.world
    deletedResources := t.deletedResources ++ discarded
    log := t.log ++ (discarded ++ got.toList).map .fetched }

theorem fetched_of_ok (w : World σ) (module : Nat) : ∀ (fuel : Nat) (t t' : Thread σ)
    (got : Option Resource), fetchInput w module true fuel t = .ok (got, t') →
    ∃ discarded, Fetched w module t discarded got t' := by
  intro fuel
  induction fuel with
  | zero =>
    intro t t' got h
    exact absurd h (by simp [fetchInput])
  | succ fuel ih =>
    intro t t' got h
    rw [fetchInput, Thread.call] at h
    rcases hInput : w.processInput module true t.world with ⟨_ | r, s⟩
    · rw [hInput] at h
      obtain ⟨rfl, rfl⟩ := Prod.mk.inj (Except.ok.inj h)
      refine ⟨[], ?_, ?_, ?_, ?_⟩
      · simp [inputs, hInput]
      · intro d hd
        exact absurd hd List.not_mem_nil
      · intro r hr
        exact absurd hr (by simp)
      · simp
    · rw [hInput] at h
      dsimp only at h
      by_cases hDeleted : r.deleted = true
      · rw [if_pos hDeleted] at h
        obtain ⟨discarded, hRest⟩ := ih _ t' got h
        refine ⟨r :: discarded, ?_, ?_, hRest.kept, ?_⟩
        · have hCalls := hRest.calls
          simp only [Thread.pushDeleted, Thread.emit] at hCalls
          rw [List.length_cons, inputs, hInput]
          dsimp only
          rw [hCalls]
          rfl
        · intro d hd
          rcases List.mem_cons.mp hd with rfl | hd
          · exact hDeleted
          · exact hRest.deleted d hd
        · have hThread := hRest.thread
          simp only [Thread.pushDeleted, Thread.emit, List.append_assoc, List.singleton_append]
            at hThread
          exact hThread
      · rw [if_neg hDeleted] at h
        obtain ⟨rfl, rfl⟩ := Prod.mk.inj (Except.ok.inj h)
        refine ⟨[], ?_, ?_, ?_, ?_⟩
        · simp [inputs, hInput, Thread.emit]
        · intro d hd
          exact absurd hd List.not_mem_nil
        · rintro _ ⟨⟩
          exact Bool.eq_false_iff.mpr hDeleted
        · simp [Thread.emit]

-- ---------------------------------------------------------------------------
-- ApplyModules
-- ---------------------------------------------------------------------------

/-- The positions of the SIMPLE modules. -/
def simples (ms : List (ModuleType × Nat)) : List Nat :=
  (ms.filter fun m => m.1 = .simple).map fun m => m.2

/-- The position of the OUTPUT module. -/
def outputModule (ms : List (ModuleType × Nat)) : Option Nat :=
  (ms.find? fun m => m.1 = .output).map fun m => m.2

/-- The thread after the calls of a journey. -/
def Thread.follow (t : Thread σ) (j : Journey σ) : Thread σ :=
  { t with world := j.world, log := t.log ++ j.calls.map fun c => .simple c.module c.given }

/-- The OUTPUT module gets the resource; what it returns is released. -/
def consume (w : World σ) (i : Nat) (r : Resource) (t : Thread σ) : Thread σ :=
  (((t.call (w.processOutput i r)).2.emit (.consumed r)).emit (.updateResourceCount (-1)))

/-- What is returned to `RunThread`: a resource that has gone through, unless the OUTPUT module
takes it. -/
def leave (w : World σ) (output : Option Nat) : Fate → Thread σ → Option Resource × Thread σ
  | .deleted r, t => (none, t.pushDeleted r)
  | .lost, t => (none, t)
  | .through r, t =>
    match output with
    | none => (some r, t)
    | some i => (none, consume w i r t)

/-- The modules behind an INPUT module: no other INPUT module, no MULTI module, and the OUTPUT
module is the last one. -/
structure Plain (ms : List (ModuleType × Nat)) : Prop where
  types : ∀ m ∈ ms, m.1 ≠ .multi ∧ m.1 ≠ .input
  last : ms.Pairwise fun m _ => m.1 ≠ .output

theorem follow_nil (t : Thread σ) (fate : Fate) : t.follow ⟨[], fate, t.world⟩ = t := by
  simp [Thread.follow]

/-- **The loop of `ApplyModules` is the pipeline.** -/
theorem applyModules_plain (w : World σ) (p : Processor) (fuel : Nat) (sleep : Bool) :
    ∀ {ms : List (ModuleType × Nat)} (r : Resource) (t : Thread σ), Plain ms →
      applyModules w p fuel sleep ms (some r) t =
        .ok ((leave w (outputModule ms) (pipeline w (simples ms) r t.world).fate
            (t.follow (pipeline w (simples ms) r t.world))).1, false,
          (leave w (outputModule ms) (pipeline w (simples ms) r t.world).fate
            (t.follow (pipeline w (simples ms) r t.world))).2) := by
  intro ms
  induction ms with
  | nil =>
    intro r t _
    rw [applyModules]
    show _ = Except.ok (_, _, t.follow ⟨[], .through r, t.world⟩)
    rw [follow_nil]
    rfl
  | cons m ms ih =>
    intro r t hPlain
    obtain ⟨type, i⟩ := m
    have hRest : Plain ms :=
      ⟨fun m hm => hPlain.types m (List.mem_cons_of_mem _ hm),
      (List.pairwise_cons.mp hPlain.last).2⟩
    obtain ⟨hMulti, hInput⟩ := hPlain.types (type, i) List.mem_cons_self
    cases type with
    | multi => exact absurd rfl hMulti
    | input => exact absurd rfl hInput
    | invalid => exact ih r t hRest
    | output =>
      -- the OUTPUT module is the last one
      have hEnd : ms = [] := by
        cases ms with
        | nil => rfl
        | cons m ms => exact absurd rfl ((List.pairwise_cons.mp hPlain.last).1 m List.mem_cons_self)
      subst hEnd
      rw [applyModules]
      show applyModules w p fuel sleep [] none (consume w i r t) =
        Except.ok (_, _, consume w i r (t.follow ⟨[], .through r, t.world⟩))
      rw [follow_nil]
      rfl
    | simple =>
      have hSimples : simples ((.simple, i) :: ms) = i :: simples ms := rfl
      have hOutput : outputModule ((.simple, i) :: ms) = outputModule ms := rfl
      rw [applyModules, hSimples, hOutput]
      by_cases hSkip : r.skip = true
      · -- SKIP passes the module over
        rw [if_pos hSkip]
        dsimp only
        by_cases hDeleted : r.deleted = true
        · rw [if_pos hDeleted, pipeline, if_pos hSkip, if_pos hDeleted, follow_nil]
          rfl
        · have hKept : r.deleted = false := Bool.eq_false_iff.mpr hDeleted
          rw [if_neg hDeleted, ih r t hRest, pipeline_skip w hSkip hKept,
            pipeline_skip w hSkip hKept]
      · -- the module is called; the journey has one call more
        rw [if_neg hSkip, pipeline, if_neg hSkip]
        have hAsk : (t.emit (.simple i r)).call (w.processSimple i r) =
            ((w.processSimple i r t.world).1,
              { t.emit (.simple i r) with world := (w.processSimple i r t.world).2 }) := rfl
        rw [hAsk]
        rcases w.processSimple i r t.world with ⟨_ | r', s'⟩
        · rfl
        · dsimp only
          by_cases hDeleted : r'.deleted = true
          · rw [if_pos hDeleted, if_pos hDeleted]
            rfl
          · rw [if_neg hDeleted, if_neg hDeleted, ih r' _ hRest]
            have hLog : ∀ j : Journey σ, Thread.follow { t.emit (.simple i r) with world := s' } j =
                t.follow { j with calls := ⟨i, r, some r'⟩ :: j.calls } := by
              intro j
              simp [Thread.follow, Thread.emit]
            rw [hLog]

-- ---------------------------------------------------------------------------
-- The iteration
-- ---------------------------------------------------------------------------

/-- A resource that has gone through is given to the OUTPUT module, once, or else to
`QueueResource`, once. -/
def deliver (w : World σ) (p : Processor) (r : Resource) (t : Thread σ) : Flow × Thread σ :=
  match outputModule (p.modulesFrom 0) with
  | some i => (.next, consume w i r t)
  | none =>
    match queueResource w p r true none t with
    | (false, _, t) => (.returned, t)
    | (true, _, t) => (.next, { t with outputFilterIndex := 0 })

/-- One resource: the pipeline, and then its fate. -/
def serve (w : World σ) (p : Processor) (r : Resource) (t : Thread σ) : Flow × Thread σ :=
  let j := pipeline w (simples (p.modulesFrom 0)) r t.world
  match j.fate with
  | .deleted r => (.next, (t.follow j).pushDeleted r)
  | .lost => (.next, t.follow j)
  | .through r => deliver w p r (t.follow j)

/-- One resource from the input queue, or one that is not deleted from the INPUT module. -/
def serveNext (w : World σ) (p : Processor) (fuel : Nat) (t : Thread σ) :
    Except Failure (Flow × Thread σ) :=
  match p.types.head? with
  | none => .error .crashed
  | some first =>
    match readResource w p first 0 t with
    | ((flow, none), t) => .ok (flow, t)
    | ((_, some ⟨some r, _⟩), t) => .ok (serve w p r t)
    | ((_, some ⟨none, _⟩), t) =>
      match fetchInput w 0 true fuel t with
      | .error e => .error e
      | .ok (none, t) => .ok (.returned, t)
      | .ok (some r, t) => .ok (serve w p r (t.emit (.updateResourceCount 1)))

/-- The iteration of a thread that serves one resource at a time; none as long as deleted ones
wait for the engine's output queue. -/
def plainIteration (w : World σ) (p : Processor) (fuel : Nat) (t : Thread σ) :
    Except Failure (Flow × Thread σ) :=
  match if t.readMax ≤ 0 then .ok (.next, t) else serveNext w p fuel t with
  | .error e => .error e
  | .ok (.returned, t) => .ok (.returned, t)
  | .ok (.next, t) =>
    .ok (.next, flushDeleted w p t.deletedResources { t with block := true, readMax := 1 })

/-- The thread waits for its input, and reads at most one resource. -/
structure ReadsOne (t : Thread σ) : Prop where
  block : t.block = true
  readMax : t.readMax ≤ 1

theorem readsOne_start (p : Processor) (s : σ) : ReadsOne (Thread.start p s) :=
  ⟨rfl, Int.le_refl 1⟩

theorem readsOne_flushDeleted (w : World σ) (p : Processor) : ∀ (rs : List Resource) (t : Thread σ),
    ReadsOne t → ReadsOne (flushDeleted w p rs t) := by
  intro rs
  induction rs with
  | nil =>
    intro t h
    exact ⟨h.block, h.readMax⟩
  | cons r rs ih =>
    intro t h
    rw [flushDeleted]
    cases p.engineOutputQueue with
    | none => exact ih _ ⟨h.block, h.readMax⟩
    | some queue =>
      show ReadsOne (if (w.putItem queue 0 r false t.world).1 then _ else _)
      split
      · exact ih _ ⟨h.block, h.readMax⟩
      · exact ⟨h.block, (by decide : (0 : Int) ≤ 1)⟩

theorem readsOne_plainIteration {w : World σ} {p : Processor} {fuel : Nat} {t t' : Thread σ}
    (h : plainIteration w p fuel t = .ok (.next, t')) : ReadsOne t' := by
  rw [plainIteration] at h
  split at h
  · exact absurd h (by simp)
  · exact absurd h (by simp)
  · obtain ⟨-, rfl⟩ := Prod.mk.inj (Except.ok.inj h)
    exact readsOne_flushDeleted w p _ _ ⟨rfl, Int.le_refl 1⟩

section NoMulti

variable {w : World σ} {p : Processor} {fuel : Nat}

theorem modulesFrom_getElem? {index k : Nat} {m : ModuleType × Nat}
    (h : (p.modulesFrom index)[k]? = some m) :
    m.2 = index + k ∧ p.types[index + k]? = some m.1 := by
  rw [Processor.modulesFrom, List.getElem?_drop, List.getElem?_zipIdx] at h
  obtain ⟨type, hType, rfl⟩ := Option.map_eq_some_iff.mp h
  exact ⟨Nat.zero_add _, hType⟩

/-- An accepted list has no INPUT module but the first. -/
theorem modulesFrom_no_input (hAccepted : p.checkModules = true) {index : Nat}
    (hInput : index = 0 → p.types.head? ≠ some .input) :
    ∀ m ∈ p.modulesFrom index, m.1 ≠ .input := by
  intro m hMem hIn
  obtain ⟨k, hk⟩ := List.mem_iff_getElem?.mp hMem
  obtain ⟨-, hType⟩ := modulesFrom_getElem? hk
  rw [hIn] at hType
  have hFirst : index + k = 0 := by
    by_contra hNe
    exact Processor.checkModules_iff.mp hAccepted _ _ hType (.inl hNe)
  refine hInput (by omega) ?_
  rw [List.head?_eq_getElem?, ← hFirst]
  exact hType

/-- An accepted list has no OUTPUT module but the last. -/
theorem modulesFrom_output_last (hAccepted : p.checkModules = true) (index : Nat) :
    (p.modulesFrom index).Pairwise fun m _ => m.1 ≠ .output := by
  rw [List.pairwise_iff_getElem]
  intro i j hi hj hLt hOutput
  obtain ⟨-, hType⟩ := modulesFrom_getElem? (List.getElem?_eq_getElem hi)
  obtain ⟨-, hLater⟩ := modulesFrom_getElem? (List.getElem?_eq_getElem hj)
  obtain ⟨hLength, -⟩ := List.getElem?_eq_some_iff.mp hLater
  rw [hOutput] at hType
  refine Processor.checkModules_iff.mp hAccepted _ _ hType (.inl ?_)
  omega

/-- Without an INPUT module in front, all modules of an accepted list are plain; behind one, the
others are. -/
theorem plain_of_accepted (hAccepted : p.checkModules = true) (hNoMulti : .multi ∉ p.types)
    {index : Nat} (hInput : index = 0 → p.types.head? ≠ some .input) :
    Plain (p.modulesFrom index) := by
  refine ⟨?_, ?_⟩
  · intro m hMem
    refine ⟨fun hMulti => ?_, modulesFrom_no_input hAccepted hInput m hMem⟩
    obtain ⟨k, hk⟩ := List.mem_iff_getElem?.mp hMem
    obtain ⟨-, hType⟩ := modulesFrom_getElem? hk
    exact hNoMulti (hMulti ▸ List.mem_of_getElem? hType)
  · exact modulesFrom_output_last hAccepted index

theorem modulesFrom_cons {index : Nat} {type : ModuleType} (h : p.types[index]? = some type) :
    p.modulesFrom index = (type, index) :: p.modulesFrom (index + 1) := by
  have hHere : p.types.zipIdx[index]? = some (type, index) := by
    rw [List.getElem?_zipIdx, h, Option.map_some, Nat.zero_add]
  obtain ⟨hLt, hAt⟩ := List.getElem?_eq_some_iff.mp hHere
  rw [Processor.modulesFrom, Processor.modulesFrom, List.drop_eq_getElem_cons hLt, hAt]

theorem nextMultiModuleIndex_none (hNoMulti : .multi ∉ p.types) (index : Nat) :
    p.nextMultiModuleIndex index = none := by
  rw [Processor.nextMultiModuleIndex, Option.map_eq_none_iff, List.findIdx?_eq_none_iff]
  intro type hType
  refine decide_eq_false fun hMulti => hNoMulti ?_
  rw [← hMulti]
  exact List.mem_of_mem_drop hType

/-- What the thread has in hand: nothing for an INPUT module, otherwise a resource. -/
theorem readResource_got {first : ModuleType} {t t' : Thread σ} {flow : Flow} {got : Read}
    (h : readResource w p first 0 t = ((flow, some got), t')) :
    (first = .input ∧ got = ⟨none, 0⟩ ∧ t'.block = t.block) ∨
      (first ≠ .input ∧ ∃ r, got = ⟨some r, 1⟩) := by
  by_cases hFirst : first = .input
  · refine .inl ⟨hFirst, ?_⟩
    subst hFirst
    simp only [readResource, ne_eq, not_true_eq_false, if_false] at h
    obtain ⟨paused, t₁, hPause⟩ : ∃ paused t₁, t.call w.pauseInput = (paused, t₁) := ⟨_, _, rfl⟩
    have hSame : t₁.block = t.block := by rw [← (Prod.mk.inj hPause).2]
    rw [hPause] at h
    cases paused with
    | false =>
      obtain ⟨hGot, rfl⟩ := Prod.mk.inj h
      exact ⟨(Option.some.inj (Prod.mk.inj hGot).2).symm, hSame⟩
    | true =>
      by_cases hBlock : t₁.block = true
      · obtain ⟨goOn, t₂, hAwait⟩ : ∃ goOn t₂, t₁.call w.awaitInput = (goOn, t₂) := ⟨_, _, rfl⟩
        have hSame' : t₂.block = t₁.block := by rw [← (Prod.mk.inj hAwait).2]
        simp only [if_true, hBlock, hAwait] at h
        cases goOn with
        | true =>
          obtain ⟨hGot, rfl⟩ := Prod.mk.inj h
          exact ⟨(Option.some.inj (Prod.mk.inj hGot).2).symm, hSame'.trans hSame⟩
        | false => exact absurd h (by simp)
      · simp only [if_true, hBlock] at h
        exact absurd h (by simp)
  · refine .inr ⟨hFirst, ?_⟩
    simp only [readResource, ne_eq, hFirst, not_false_eq_true, if_true] at h
    split at h
    · exact absurd h (by simp)
    · obtain ⟨hGot, -⟩ := Prod.mk.inj h
      exact ⟨_, (Option.some.inj (Prod.mk.inj hGot).2).symm⟩

/-- A pass of the reading loop that serves a resource `r` behind the modules `ms`. -/
theorem pass_serve {t t₁ t₂ : Thread σ} {first : ModuleType} {flow : Flow} {got : Read}
    {ms : List (ModuleType × Nat)} {r : Resource} (sleep : Bool) (hReadMax : t.readMax = 1)
    (hHead : p.types.head? = some first)
    (hRead : readResource w p first 0 t = ((flow, some got), t₁)) (hPlain : Plain ms)
    (hSimples : simples ms = simples (p.modulesFrom 0))
    (hOutput : outputModule ms = outputModule (p.modulesFrom 0))
    (hApply : applyModules w p fuel (t₁.block && got.resourcesRead == 0) (p.modulesFrom 0)
      got.resource t₁ = applyModules w p fuel sleep ms (some r) t₂) :
    readLoop w p fuel none 1 0 t = .ok (serve w p r t₂) := by
  rw [readLoop, if_neg (by omega), hHead]
  dsimp only
  rw [hRead]
  dsimp only
  rw [hApply, applyModules_plain w p fuel sleep r t₂ hPlain, hSimples, hOutput, serve]
  cases (pipeline w (simples (p.modulesFrom 0)) r t₂.world).fate with
  | deleted r' => simp [leave]
  | lost => simp [leave]
  | through r' =>
    cases hOut : outputModule (p.modulesFrom 0) with
    | some i => simp [leave, deliver, hOut]
    | none =>
      simp only [leave, deliver, hOut]
      rcases queueResource w p r' true none (t₂.follow _) with ⟨_ | _, _, t₃⟩
      · rfl
      · rfl

/-- **A turn of the reading loop.** -/
theorem readLoop_plain (hAccepted : p.checkModules = true) (hNoMulti : .multi ∉ p.types)
    {t : Thread σ} (hBlock : t.block = true) (hReadMax : t.readMax = 1) :
    readLoop w p fuel none 1 0 t = serveNext w p fuel t := by
  cases hHead : p.types.head? with
  | none => rw [readLoop, if_neg (by omega), serveNext, hHead]
  | some first =>
    rw [serveNext, hHead]
    dsimp only
    rcases hRead : readResource w p first 0 t with ⟨⟨flow, _ | got⟩, t₁⟩
    · rw [readLoop, if_neg (by omega), hHead]
      dsimp only
      rw [hRead]
    · obtain ⟨rfl, rfl, hSame⟩ | ⟨hInput, r, rfl⟩ := readResource_got hRead
      · -- an INPUT module, and nothing in hand
        have hPlain : Plain (p.modulesFrom 1) := plain_of_accepted hAccepted hNoMulti (by omega)
        have hModules : p.modulesFrom 0 = (.input, 0) :: p.modulesFrom 1 :=
          modulesFrom_cons (List.head?_eq_getElem? ▸ hHead)
        have hSleep : (t₁.block && (0 : Int) == 0) = true := by
          rw [hSame, hBlock]
          rfl
        dsimp only
        cases hFetch : fetchInput w 0 true fuel t₁ with
        | error e =>
          rw [readLoop, if_neg (by omega), hHead]
          dsimp only
          rw [hRead]
          dsimp only
          rw [hSleep, hModules, applyModules, hFetch]
          rfl
        | ok x =>
          obtain ⟨_ | r, t₂⟩ := x
          · obtain ⟨discarded, hFetched⟩ := fetched_of_ok w 0 fuel t₁ t₂ none hFetch
            have hWaits : t₂.block = true := by rw [hFetched.thread, hSame, hBlock]
            rw [readLoop, if_neg (by omega), hHead]
            dsimp only
            rw [hRead]
            dsimp only
            rw [hSleep, hModules, applyModules, hFetch]
            simp [hWaits]
          · refine pass_serve true hReadMax hHead hRead hPlain ?_ ?_ ?_
            · rw [hModules]
              rfl
            · rw [hModules]
              rfl
            · dsimp only
              rw [hSleep, hModules, applyModules, hFetch]
              rfl
      · have hPlain : Plain (p.modulesFrom 0) :=
          plain_of_accepted hAccepted hNoMulti fun _ hFirst =>
            hInput (Option.some.inj (hHead.symm.trans hFirst))
        exact pass_serve _ hReadMax hHead hRead hPlain rfl rfl rfl

/-- One iteration. -/
theorem iteration_plain (hAccepted : p.checkModules = true) (hNoMulti : .multi ∉ p.types)
    {t : Thread σ} (h : ReadsOne t) : iteration w p fuel t = plainIteration w p fuel t := by
  have hRead : readLoop w p fuel none t.readMax.toNat 0 t =
      if t.readMax ≤ 0 then .ok (.next, t) else serveNext w p fuel t := by
    by_cases hZero : t.readMax ≤ 0
    · rw [if_pos hZero, Int.toNat_of_nonpos hZero]
      rfl
    · have hOne : t.readMax = 1 := Int.le_antisymm h.readMax (by omega)
      rw [if_neg hZero, hOne]
      exact readLoop_plain hAccepted hNoMulti h.block hOne
  rw [iteration, nextMultiModuleIndex_none hNoMulti, hRead, plainIteration]
  generalize (if t.readMax ≤ 0 then Except.ok (Flow.next, t) else serveNext w p fuel t) = served
  rcases served with e | ⟨_ | _, t₁⟩
  · rfl
  · simp [multiLoop]
  · rfl

/-- **A whole run** of the thread reads one resource at a time. -/
theorem readsOne_runThread (hAccepted : p.checkModules = true) (hNoMulti : .multi ∉ p.types) :
    ∀ (n : Nat) (t t' : Thread σ), ReadsOne t → runThread w p fuel n t = some t' → ReadsOne t' := by
  intro n
  induction n with
  | zero =>
    intro t t' h hRun
    rw [← Option.some.inj hRun]
    exact h
  | succ n ih =>
    intro t t' h hRun
    rw [runThread] at hRun
    obtain ⟨goOn, t₁, hCall⟩ : ∃ goOn t₁, t.call w.isRunning = (goOn, t₁) := ⟨_, _, rfl⟩
    have hHere : ReadsOne t₁ := by
      rw [← (Prod.mk.inj hCall).2]
      exact ⟨h.block, h.readMax⟩
    rw [hCall] at hRun
    cases goOn with
    | false => exact absurd hRun (by simp)
    | true =>
      dsimp only at hRun
      rcases hIter : iteration w p fuel t₁ with e | ⟨_ | _, t₂⟩
      · rw [hIter] at hRun
        exact absurd hRun (by simp)
      · rw [hIter] at hRun
        rw [iteration_plain hAccepted hNoMulti hHere] at hIter
        exact ih t₂ t' (readsOne_plainIteration hIter) hRun
      · rw [hIter] at hRun
        exact absurd hRun (by simp)

end NoMulti

/-- **Without MULTI modules a worker thread computes the plain pipeline**: at every point of
every run, the next iteration serves one resource with it. The calls on a resource and its fate
are orderly, and the inputs that are discarded on the way to it are the deleted ones. -/
theorem worker_computes_pipeline (w : World σ) (p : Processor) (fuel : Nat) (s : σ) (t : Thread σ)
    (hAccepted : p.checkModules = true) (hNoMulti : .multi ∉ p.types)
    (hBegins : Begins w p fuel s t) :
    iteration w p fuel t = plainIteration w p fuel t ∧
    (∀ r s, r.deleted = false →
      Orderly (simples (p.modulesFrom 0)) r (pipeline w (simples (p.modulesFrom 0)) r s)) ∧
    ∀ t got t', fetchInput w 0 true fuel t = .ok (got, t') →
      ∃ discarded, Fetched w 0 t discarded got t' := by
  obtain ⟨n, t₀, hRun, hRunning⟩ := hBegins
  have hStart := readsOne_runThread hAccepted hNoMulti n _ t₀ (readsOne_start p s) hRun
  have hReads : ReadsOne t := by
    rw [← (Prod.mk.inj hRunning).2]
    exact ⟨hStart.block, hStart.readMax⟩
  refine ⟨iteration_plain hAccepted hNoMulti hReads, ?_, ?_⟩
  · intro r s hKept
    exact pipeline_orderly w _ r s hKept
  · intro t got t' hFetch
    exact fetched_of_ok w 0 fuel t t' got hFetch

/-- Two SIMPLE modules between an input queue and an output queue. -/
def twoSimples : Processor :=
  { types := [.simple, .simple]
    outputFilters :=
      [{ filter := 0, emptyFilter := true, priority := 0, copy := false, queue := 2 }]
    queuesCount := 1, inputQueue := 1, engineInputQueue := none, engineOutputQueue := none
    batch := false, ndebug := false }

/-- The resources are numbered, and the first module answers what `first` says; everything is
accepted. -/
def numbered (first : Resource → Option Resource) : World Nat where
  isRunning s := (true, s)
  getItem _ s := (some ⟨s, s, 0, false, false⟩, s + 1)
  pauseInput s := (false, s)
  awaitInput s := (true, s)
  processInput _ _ s := (none, s)
  processOutput _ r s := (some r, s)
  processSimple i r s := (if i = 0 then first r else some r, s)
  processMulti _ mi s := (⟨mi.inputResources, mi.outputResources, mi.inside, [], 1, 0, false⟩, s)
  putItem _ _ _ _ s := (true, s)
  clone r s := (r, s)

/-- The first module sets SKIP on every resource: the second one is not called in the first
iteration, and the second iteration is a plain one. -/
theorem worker_computes_pipeline_skipping :
    ∃ t, Begins (numbered fun r => some { r with skip := true }) twoSimples 1 0 t ∧
      iteration (numbered fun r => some { r with skip := true }) twoSimples 1 t =
        plainIteration (numbered fun r => some { r with skip := true }) twoSimples 1 t ∧
      t.log.countP (· matches .simple 0 _) = 1 ∧ t.log.countP (· matches .simple 1 _) = 0 := by
  have hBegins : ∃ t, Begins (numbered fun r => some { r with skip := true }) twoSimples 1 0 t ∧
      t.log.countP (· matches .simple 0 _) = 1 ∧ t.log.countP (· matches .simple 1 _) = 0 :=
    ⟨_, ⟨1, _, rfl, rfl⟩, by decide, by decide⟩
  obtain ⟨t, hBegins, hFirst, hSecond⟩ := hBegins
  exact ⟨t, hBegins, (worker_computes_pipeline _ twoSimples 1 0 t (by decide)
    (by decide) hBegins).1,
    hFirst, hSecond⟩

/-- The first module returns NULL: the resource was read, and is neither among the deleted ones
nor handed to a queue, the OUTPUT module or the registry. -/
theorem lost_resource_goes_nowhere :
    ∃ t, iteration (numbered fun _ => none) twoSimples 1 (Thread.start twoSimples 0) =
      .ok (.next, t) ∧
      t.log = [.dequeued 1 ⟨0, 0, 0, false, false⟩, .simple 0 ⟨0, 0, 0, false, false⟩] ∧
      t.deletedResources = [] ∧ t.log.flatMap Event.handed = [] := by
  exact ⟨_, rfl, by decide, by decide, by decide⟩

end HectorCore.Processing
