import HectorCore.Processing.Processor
import Mathlib.Tactic.Tauto

/-!
# Processor — the module check of Init

`Processor::Init` ends with a loop that looks at one module at a time. `WellFormed` says what a
pipeline needs: a first and a last module that fit the queues, and INPUT and OUTPUT in no other
place.

* `checkModules_iff`       — what the loop accepts: no module that `Refuses` names;
* `wellFormed_accepted`    — every well-formed pipeline is accepted;
* `wellFormed_safe`        — a well-formed processor finds its first module, never asks an input
  queue without sub-queues for a resource and never looks for an output filter that is not there;
* `init_check_right_iff`   — when the loop accepts exactly the well-formed pipelines. A list without
  modules, a single INPUT or OUTPUT module without any queue, and modules of no valid type pass.

That a piece of the thread's code does not use something is said by replacing it: the code does
the same with any other `GetItem`, or any other filters.
-/

namespace HectorCore.Processing

namespace Processor

/-- The pipelines that a processor is meant to run. -/
structure WellFormed (p : Processor) : Prop where
  nonempty : p.types ≠ []
  inputFirst : ∀ i : Nat, p.types[i]? = some .input → i = 0
  outputLast : ∀ i : Nat, p.types[i]? = some .output → i + 1 = p.types.length
  valid : .invalid ∉ p.types
  first : p.types.head? = some .input ↔ p.queuesCount = 0
  last : p.types.getLast? = some .output ↔ p.outputFilters = []

/-- The loop stops at module `i` of this type. -/
def Refuses (p : Processor) (i : Nat) : ModuleType → Prop
  | .input => i ≠ 0 ∨ p.queuesCount ≠ 0
  | .output => i + 1 ≠ p.types.length ∨ p.outputFilters ≠ []
  | .simple | .multi =>
    (i = 0 ∧ p.queuesCount = 0) ∨ (i + 1 = p.types.length ∧ p.outputFilters = [])
  | .invalid => False

/-- A single INPUT or OUTPUT module, and no queue on either side. -/
def Lone (p : Processor) : Prop :=
  (p.types = [.input] ∨ p.types = [.output]) ∧ p.queuesCount = 0 ∧ p.outputFilters = []

theorem checkModule_eq_true {p : Processor} {i : Nat} {type : ModuleType}
    (hi : i < p.types.length) :
    p.checkModule p.types.length i type = true ↔ ¬ p.Refuses i type := by
  have hLast : i = p.types.length - 1 ↔ i + 1 = p.types.length := by omega
  cases type with
  | input => simp [checkModule, Refuses]
  | output => simp [checkModule, Refuses, hLast]
  | simple =>
    simp only [checkModule, Refuses, Bool.and_eq_true, Bool.not_eq_true', Bool.and_eq_false_iff,
      beq_eq_false_iff_ne, ne_eq, hLast, List.length_eq_zero_iff]
    tauto
  | multi =>
    simp only [checkModule, Refuses, Bool.and_eq_true, Bool.not_eq_true', Bool.and_eq_false_iff,
      beq_eq_false_iff_ne, ne_eq, hLast, List.length_eq_zero_iff]
    tauto
  | invalid => simp [checkModule, Refuses]

/-- What the loop accepts. -/
theorem checkModules_iff {p : Processor} :
    p.checkModules = true ↔ ∀ i type, p.types[i]? = some type → ¬ p.Refuses i type := by
  rw [checkModules, List.all_eq_true]
  constructor
  · intro h i type hType
    obtain ⟨hi, -⟩ := List.getElem?_eq_some_iff.mp hType
    exact (checkModule_eq_true hi).mp (h (type, i) (List.mem_zipIdx_iff_getElem?.mpr hType))
  · rintro h ⟨type, i⟩ hMem
    have hType : p.types[i]? = some type := List.mem_zipIdx_iff_getElem?.mp hMem
    obtain ⟨hi, -⟩ := List.getElem?_eq_some_iff.mp hType
    exact (checkModule_eq_true hi).mpr (h i type hType)

/-- Every well-formed pipeline is accepted. -/
theorem wellFormed_accepted {p : Processor} (h : p.WellFormed) : p.checkModules = true := by
  rw [checkModules_iff]
  intro i type hType hRefuses
  have hHead : i = 0 → p.types.head? = some type := by
    rintro rfl
    rw [List.head?_eq_getElem?, hType]
  have hBack : i + 1 = p.types.length → p.types.getLast? = some type := by
    intro hi
    rw [List.getLast?_eq_getElem?, ← hi, Nat.add_sub_cancel, hType]
  have hInner : ∀ type', type' ≠ .input → type' ≠ .output → p.types[i]? = some type' →
      ¬ ((i = 0 ∧ p.queuesCount = 0) ∨ (i + 1 = p.types.length ∧ p.outputFilters = [])) := by
    rintro type' hIn hOut hType' (⟨hi, hNone⟩ | ⟨hi, hNone⟩)
    · have hFirst := (hHead hi).symm.trans (h.first.mpr hNone)
      rw [Option.some.inj (hType'.symm.trans hType)] at hIn
      exact hIn (Option.some.inj hFirst)
    · have hLast := (hBack hi).symm.trans (h.last.mpr hNone)
      rw [Option.some.inj (hType'.symm.trans hType)] at hOut
      exact hOut (Option.some.inj hLast)
  cases type with
  | input =>
    have hi := h.inputFirst i hType
    exact hRefuses.elim (fun hNe => hNe hi) (fun hNe => hNe (h.first.mp (hHead hi)))
  | output =>
    have hi := h.outputLast i hType
    exact hRefuses.elim (fun hNe => hNe hi) (fun hNe => hNe (h.last.mp (hBack hi)))
  | simple => exact hInner .simple (by decide) (by decide) hType hRefuses
  | multi => exact hInner .multi (by decide) (by decide) hType hRefuses
  | invalid => exact hRefuses

/-- What is accepted is well-formed, but for the cases that the loop does not see. -/
theorem wellFormed_of_accepted {p : Processor} (hCheck : p.checkModules = true)
    (hNonempty : p.types ≠ []) (hValid : .invalid ∉ p.types) (hNotLone : ¬ p.Lone) :
    p.WellFormed := by
  rw [checkModules_iff] at hCheck
  have hInput : ∀ i, p.types[i]? = some .input → i = 0 ∧ p.queuesCount = 0 := by
    intro i hType
    have hNot := hCheck i .input hType
    rw [Refuses, not_or, not_not, not_not] at hNot
    exact hNot
  have hOutput : ∀ i, p.types[i]? = some .output → i + 1 = p.types.length ∧
    p.outputFilters = [] := by
    intro i hType
    have hNot := hCheck i .output hType
    rw [Refuses, not_or, not_not, not_not] at hNot
    exact hNot
  have hLength : 0 < p.types.length := List.length_pos_of_ne_nil hNonempty
  refine ⟨hNonempty, fun i hType => (hInput i hType).1, fun i hType => (hOutput i hType).1, hValid,
    ?_, ?_⟩
  · rw [List.head?_eq_getElem?]
    refine ⟨fun hType => (hInput 0 hType).2, fun hNone => ?_⟩
    obtain ⟨type, hType⟩ : ∃ type, p.types[0]? = some type := ⟨_, List.getElem?_eq_getElem hLength⟩
    cases type with
    | input => exact hType
    | output =>
      -- an OUTPUT module in the first place is the last one too
      obtain ⟨hOne, hFilters⟩ := hOutput 0 hType
      obtain ⟨type, hSingle⟩ := List.length_eq_one_iff.mp hOne.symm
      rw [hSingle] at hType
      exact absurd ⟨Or.inr (by rw [hSingle]; exact congrArg (fun t => [t]) (Option.some.inj hType)),
        hNone, hFilters⟩ hNotLone
    | simple => exact absurd (Or.inl ⟨rfl, hNone⟩) (hCheck 0 .simple hType)
    | multi => exact absurd (Or.inl ⟨rfl, hNone⟩) (hCheck 0 .multi hType)
    | invalid => exact absurd (List.mem_of_getElem? hType) hValid
  · rw [List.getLast?_eq_getElem?]
    have hBack : p.types.length - 1 + 1 = p.types.length := by omega
    refine ⟨fun hType => (hOutput _ hType).2, fun hNone => ?_⟩
    obtain ⟨type, hType⟩ : ∃ type, p.types[p.types.length - 1]? = some type :=
      ⟨_, List.getElem?_eq_getElem (by omega)⟩
    cases type with
    | output => exact hType
    | input =>
      obtain ⟨hOne, hQueues⟩ := hInput _ hType
      obtain ⟨type, hSingle⟩ := List.length_eq_one_iff.mp (show p.types.length = 1 by omega)
      rw [hSingle] at hType
      exact absurd ⟨Or.inl (by rw [hSingle]; exact congrArg (fun t => [t]) (Option.some.inj hType)),
        hQueues, hNone⟩ hNotLone
    | simple => exact absurd (Or.inr ⟨hBack, hNone⟩) (hCheck _ .simple hType)
    | multi => exact absurd (Or.inr ⟨hBack, hNone⟩) (hCheck _ .multi hType)
    | invalid => exact absurd (List.mem_of_getElem? hType) hValid

end Processor

-- ---------------------------------------------------------------------------
-- What the thread uses
-- ---------------------------------------------------------------------------

variable {σ : Type}

/-- The same environment with another input queue. -/
def World.withGetItem (w : World σ) (getItem : Bool → σ → Option Resource × σ) : World σ :=
  { w with getItem }

/-- The same processor with other output filters. -/
def Processor.withOutputFilters (p : Processor) (outputFilters : List OutputFilter) : Processor :=
  { p with outputFilters }

section Uses

variable (w : World σ) (p : Processor) (g : Bool → σ → Option Resource × σ) (fs : List OutputFilter)
  (fuel : Nat)

theorem fetchInput_withGetItem (i : Nat) (sleep : Bool) (t : Thread σ) :
    fetchInput (w.withGetItem g) i sleep fuel t = fetchInput w i sleep fuel t := by
  induction fuel generalizing t with
  | zero => rfl
  | succ fuel ih =>
    rw [fetchInput, fetchInput]
    simp only [World.withGetItem] at ih ⊢
    simp only [ih]

/-- `ApplyModules` reads no queue and no filter. -/
theorem applyModules_with (sleep : Bool) (ms : List (ModuleType × Nat)) (o : Option Resource)
    (t : Thread σ) :
    applyModules (w.withGetItem g) (p.withOutputFilters fs) fuel sleep ms o t =
      applyModules w p fuel sleep ms o t := by
  induction ms generalizing o t with
  | nil => rfl
  | cons m ms ih =>
    obtain ⟨type, i⟩ := m
    cases type with
    | invalid =>
      rw [applyModules, applyModules]
      exact ih o t
    | input =>
      rw [applyModules, applyModules, fetchInput_withGetItem]
      simp only [ih]
      rfl
    | output =>
      cases o with
      | none => rfl
      | some r =>
        rw [applyModules, applyModules]
        simp only [ih]
        rfl
    | simple =>
      cases o with
      | none => rfl
      | some r =>
        rw [applyModules, applyModules]
        simp only [ih]
        rfl
    | multi => rfl

theorem queueFilters_withGetItem (r : Resource) (wait : Bool) (filters : List (OutputFilter × Nat))
    (t : Thread σ) :
    queueFilters (w.withGetItem g) p r wait filters t = queueFilters w p r wait filters t := by
  induction filters generalizing t with
  | nil => rfl
  | cons f filters ih =>
    rw [queueFilters, queueFilters]
    simp only [ih]
    rfl

theorem queueResource_withGetItem (r : Resource) (wait : Bool) (filterIndex : Option Nat)
    (t : Thread σ) :
    queueResource (w.withGetItem g) p r wait filterIndex t =
      queueResource w p r wait filterIndex t := by
  rw [queueResource, queueResource, queueFilters_withGetItem]

theorem queueOutput_withGetItem (r : Resource) (queued : Nat) (t : Thread σ) :
    queueOutput (w.withGetItem g) p r queued t = queueOutput w p r queued t := by
  simp only [queueOutput, queueResource_withGetItem]

theorem flushDeleted_with (rs : List Resource) (t : Thread σ) :
    flushDeleted (w.withGetItem g) (p.withOutputFilters fs) rs t = flushDeleted w p rs t := by
  induction rs generalizing t with
  | nil => rfl
  | cons r rs ih =>
    rw [flushDeleted, flushDeleted]
    simp only [ih]
    rfl

/-- The modules from `index` on give no resource back. -/
def Absorbs (index : Nat) : Prop :=
  ∀ sleep o t r stop t', applyModules w p fuel sleep (p.modulesFrom index) o t ≠
    .ok (some r, stop, t')

/-- `QueueResource` is called for the outputs of the last MULTI module only, and if something comes
through the modules behind it. -/
theorem outputLoop_with (k : Nat) (next : Option Nat)
    (hOut : next = none → fs = p.outputFilters ∨ Absorbs w p fuel (k + 1))
    (rs : List Resource) (queued : Nat) (t : Thread σ) :
    outputLoop (w.withGetItem g) (p.withOutputFilters fs) fuel k next rs queued t =
      outputLoop w p fuel k next rs queued t := by
  induction rs generalizing queued t with
  | nil => rfl
  | cons r rs ih =>
    rw [outputLoop, outputLoop, applyModules_with,
      show (p.withOutputFilters fs).modulesFrom = p.modulesFrom from rfl]
    by_cases hDeleted : r.deleted = true
    · rw [if_pos hDeleted, if_pos hDeleted]
      exact ih queued _
    · rw [if_neg hDeleted, if_neg hDeleted]
      cases hApply : applyModules w p fuel false (p.modulesFrom (k + 1)) (some r) t with
      | error e => rfl
      | ok result =>
        obtain ⟨o, stop, t'⟩ := result
        cases o with
        | none => exact ih queued t'
        | some r' =>
          cases next with
          | some k' => exact ih queued _
          | none =>
            rcases hOut rfl with rfl | hAbsorbs
            · rw [show p.withOutputFilters p.outputFilters = p from rfl] at ih ⊢
              simp only [queueOutput_withGetItem, ih]
            · exact absurd hApply (hAbsorbs _ _ _ _ _ _)

theorem nextMultiModuleIndex_multi {p : Processor} {index k : Nat}
    (h : p.nextMultiModuleIndex index = some k) : p.types[k]? = some .multi := by
  obtain ⟨j, hj, rfl⟩ := Option.map_eq_some_iff.mp h
  obtain ⟨hLt, hMulti, -⟩ := List.findIdx?_eq_some_iff_getElem.mp hj
  rw [← List.getElem?_drop, List.getElem?_eq_getElem hLt, of_decide_eq_true hMulti]

/-- `while (multiIndex >= 0)`, from a MULTI module on. -/
theorem multiLoop_with
    (hOut : ∀ k, p.types[k]? = some .multi → p.nextMultiModuleIndex (k + 1) = none →
      fs = p.outputFilters ∨ Absorbs w p fuel (k + 1))
    (passes : Nat) (index : Option Nat) (hIndex : ∀ k, index = some k → p.types[k]? = some .multi)
    (round : Round) (t : Thread σ) :
    multiLoop (w.withGetItem g) (p.withOutputFilters fs) fuel passes index round t =
      multiLoop w p fuel passes index round t := by
  induction passes generalizing index round t with
  | zero => rfl
  | succ passes ih =>
    cases index with
    | none => rfl
    | some k =>
      have hRest := ih (p.nextMultiModuleIndex (k + 1)) fun _ => nextMultiModuleIndex_multi
      rw [multiLoop, multiLoop]
      simp only [hRest,
        outputLoop_with w p g fs fuel k (p.nextMultiModuleIndex (k + 1)) (hOut k (hIndex k rfl)),
        show ∀ mi, callMulti (w.withGetItem g) (p.withOutputFilters fs) k mi t =
          callMulti w p k mi t from fun _ => rfl,
        show ∀ i, (p.withOutputFilters fs).nextMultiModuleIndex i = p.nextMultiModuleIndex i
          from fun _ => rfl]
      rfl

theorem readResource_with {first : ModuleType} (hIn : g = w.getItem ∨ first = .input) (read : Int)
    (t : Thread σ) :
    readResource (w.withGetItem g) (p.withOutputFilters fs) first read t =
      readResource w p first read t := by
  rcases hIn with rfl | rfl
  · rfl
  · simp only [readResource, ne_eq, not_true, if_false]
    rfl

/-- `while (resourcesRead < readMax)` -/
theorem readLoop_with (hIn : g = w.getItem ∨ p.types.head? = some .input) (index : Option Nat)
    (hOut : index = none → fs = p.outputFilters ∨ Absorbs w p fuel 0) (passes : Nat) (read : Int)
    (t : Thread σ) :
    readLoop (w.withGetItem g) (p.withOutputFilters fs) fuel index passes read t =
      readLoop w p fuel index passes read t := by
  induction passes generalizing read t with
  | zero => rfl
  | succ passes ih =>
    rw [readLoop, readLoop, show (p.withOutputFilters fs).types = p.types from rfl,
      show (p.withOutputFilters fs).modulesFrom = p.modulesFrom from rfl]
    by_cases hRead : t.readMax ≤ read
    · rw [if_pos hRead, if_pos hRead]
    · rw [if_neg hRead, if_neg hRead]
      cases hHead : p.types.head? with
      | none => rfl
      | some first =>
        have hFirst : g = w.getItem ∨ first = .input :=
          hIn.imp id fun hInput => Option.some.inj (hHead.symm.trans hInput)
        simp only [readResource_with w p g fs hFirst read t, applyModules_with]
        generalize readResource w p first read t = step
        obtain ⟨⟨flow, got⟩, t₁⟩ := step
        cases got with
        | none => rfl
        | some got =>
          dsimp only
          cases hApply : applyModules w p fuel (t₁.block && got.resourcesRead == 0)
              (p.modulesFrom 0) got.resource t₁ with
          | error e => rfl
          | ok result =>
            obtain ⟨o, stop, t₂⟩ := result
            cases o with
            | none => rfl
            | some r =>
              cases index with
              | some k => exact ih _ _
              | none =>
                rcases hOut rfl with rfl | hAbsorbs
                · rw [show p.withOutputFilters p.outputFilters = p from rfl] at ih ⊢
                  simp only [queueResource_withGetItem, ih]
                · exact absurd hApply (hAbsorbs _ _ _ _ _ _)

/-- One iteration uses the input queue only if the first module is not an INPUT module, and the
output filters only if something can come through the modules behind the last MULTI module. -/
theorem iteration_with (hIn : g = w.getItem ∨ p.types.head? = some .input)
    (hOut : ∀ index, p.nextMultiModuleIndex index = none →
      (index = 0 ∨ ∃ k, index = k + 1 ∧ p.types[k]? = some .multi) →
      fs = p.outputFilters ∨ Absorbs w p fuel index) (t : Thread σ) :
    iteration (w.withGetItem g) (p.withOutputFilters fs) fuel t = iteration w p fuel t := by
  have hRead := readLoop_with w p g fs fuel hIn (p.nextMultiModuleIndex 0)
    fun hNone => hOut 0 hNone (Or.inl rfl)
  have hMulti := multiLoop_with w p g fs fuel
    (fun k hk hNone => hOut (k + 1) hNone (Or.inr ⟨k, rfl, hk⟩)) (p.types.length + 1)
    (p.nextMultiModuleIndex 0) fun _ => nextMultiModuleIndex_multi
  simp only [iteration, show (p.withOutputFilters fs).types = p.types from rfl,
    show ∀ i, (p.withOutputFilters fs).nextMultiModuleIndex i = p.nextMultiModuleIndex i
      from fun _ => rfl, hRead, hMulti, flushDeleted_with]

end Uses

-- ---------------------------------------------------------------------------
-- Well-formed processors
-- ---------------------------------------------------------------------------

/-- Nothing comes through an OUTPUT module. -/
theorem applyModules_output_last {w : World σ} {p : Processor} {fuel : Nat} {sleep : Bool}
    {ms : List (ModuleType × Nat)} {o : Option Resource} {t t' : Thread σ} {r : Resource}
    {stop : Bool}
    (hNoMulti : ∀ m ∈ ms, m.1 ≠ .multi) (hLast : ∃ i, ms.getLast? = some (.output, i)) :
    applyModules w p fuel sleep ms o t ≠ .ok (some r, stop, t') := by
  induction ms generalizing o t with
  | nil =>
    obtain ⟨i, hNone⟩ := hLast
    exact absurd hNone (by simp)
  | cons m ms ih =>
    obtain ⟨type, i⟩ := m
    have hTail : ms ≠ [] → ∃ i, ms.getLast? = some (.output, i) := by
      intro hNe
      obtain ⟨j, hj⟩ := hLast
      exact ⟨j, by rw [← hj, List.getLast?_cons_of_ne_nil hNe]⟩
    have hRest : ms ≠ [] → ∀ {o : Option Resource} {t : Thread σ},
        applyModules w p fuel sleep ms o t ≠ .ok (some r, stop, t') :=
      fun hNe => ih (fun m hm => hNoMulti m (List.mem_cons_of_mem _ hm)) (hTail hNe)
    have hOnly : ms = [] → type = .output := by
      rintro rfl
      obtain ⟨j, hj⟩ := hLast
      exact congrArg Prod.fst (Option.some.inj hj)
    cases type with
    | multi => exact absurd rfl (hNoMulti _ List.mem_cons_self)
    | invalid =>
      rw [applyModules]
      exact hRest (fun hNil => absurd (hOnly hNil) (by decide))
    | input =>
      have hNe : ms ≠ [] := fun hNil => absurd (hOnly hNil) (by decide)
      rw [applyModules]
      split_ifs
      · simp
      · cases fetchInput w i sleep fuel t with
        | error e => simp
        | ok result =>
          obtain ⟨o, t₁⟩ := result
          cases o with
          | none => simp
          | some r₁ => exact hRest hNe
    | output =>
      cases o with
      | none => simp [applyModules]
      | some r₁ =>
        rw [applyModules]
        by_cases hNil : ms = []
        · subst hNil
          simp [applyModules]
        · exact hRest hNil
    | simple =>
      have hNe : ms ≠ [] := fun hNil => absurd (hOnly hNil) (by decide)
      cases o with
      | none => simp [applyModules]
      | some r₁ =>
        rw [applyModules]
        generalize (if r₁.skip then (some r₁, t)
          else (t.emit (.simple i r₁)).call (w.processSimple i r₁)) = step
        obtain ⟨o, t₁⟩ := step
        cases o with
        | none => simp
        | some r₂ =>
          show (if r₂.deleted then _ else _) ≠ _
          split_ifs
          · simp
          · exact hRest hNe

namespace Processor

variable {p : Processor}

theorem no_multi_from {index : Nat} (h : p.nextMultiModuleIndex index = none) :
    ∀ m ∈ p.modulesFrom index, m.1 ≠ .multi := by
  intro m hm hMulti
  rw [nextMultiModuleIndex, Option.map_eq_none_iff, List.findIdx?_eq_none_iff] at h
  have hMem : m.1 ∈ (p.modulesFrom index).map Prod.fst := List.mem_map_of_mem hm
  rw [modulesFrom, List.map_drop, List.zipIdx_map_fst] at hMem
  exact absurd hMulti (of_decide_eq_false (h m.1 hMem))

theorem modulesFrom_getLast? {index : Nat} (hLast : p.types.getLast? = some .output)
    (hIndex : index < p.types.length) :
    ∃ i, (p.modulesFrom index).getLast? = some (.output, i) := by
  refine ⟨p.types.length - 1, ?_⟩
  rw [modulesFrom, List.getLast?_drop, List.length_zipIdx, if_neg (by omega), List.getLast?_zipIdx,
    hLast]
  simp

/-- What the check is for: the first module is there, nobody asks an input queue without
sub-queues, and nobody looks for a filter where there is none. -/
structure Safe (p : Processor) : Prop where
  indexed : p.types ≠ []
  input : p.queuesCount = 0 → ∀ (σ : Type) (w : World σ) (getItem : Bool → σ → Option Resource × σ)
    (fuel : Nat) (t : Thread σ), iteration (w.withGetItem getItem) p fuel t = iteration w p fuel t
  output : p.outputFilters = [] → ∀ (σ : Type) (w : World σ) (outputFilters : List OutputFilter)
    (fuel : Nat) (t : Thread σ),
    iteration w (p.withOutputFilters outputFilters) fuel t = iteration w p fuel t

theorem wellFormed_safe (h : p.WellFormed) : p.Safe := by
  refine ⟨h.nonempty, ?_, ?_⟩
  · intro hNone σ w getItem fuel t
    exact iteration_with w p getItem p.outputFilters fuel (Or.inr (h.first.mpr hNone))
      (fun _ _ _ => Or.inl rfl) t
  · intro hNone σ w outputFilters fuel t
    have hLast := h.last.mpr hNone
    refine iteration_with w p w.getItem outputFilters fuel (Or.inl rfl) ?_ t
    intro index hMulti hWhere
    refine Or.inr fun sleep o t r stop t' => ?_
    refine applyModules_output_last (no_multi_from hMulti) (modulesFrom_getLast? hLast ?_)
    rcases hWhere with rfl | ⟨k, rfl, hk⟩
    · exact List.length_pos_of_ne_nil h.nonempty
    · -- the last module is an OUTPUT module, and this one is not
      obtain ⟨hLt, -⟩ := List.getElem?_eq_some_iff.mp hk
      by_contra hEnd
      have hSame : p.types.length - 1 = k := by omega
      rw [List.getLast?_eq_getElem?, hSame, hk] at hLast
      exact absurd hLast (by decide)

/--
**When the module check is right.** For every list of module types, number of input queues and list
of output filters: the check accepts exactly if the pipeline is well-formed, and what it accepts
is safe to run, if and only if the list is not empty, it is not a single INPUT or OUTPUT module
without any queue, and if there is a module of no valid type then some other module is refused.
-/
theorem init_check_right_iff (p : Processor) :
    ((p.checkModules = true ↔ p.WellFormed) ∧ (p.checkModules = true → p.Safe)) ↔
      p.types ≠ [] ∧ ¬ p.Lone ∧
        (.invalid ∈ p.types → ∃ i type, p.types[i]? = some type ∧ p.Refuses i type) := by
  constructor
  · rintro ⟨hCheck, -⟩
    have hBad : ¬ p.WellFormed → ∃ i type, p.types[i]? = some type ∧ p.Refuses i type := by
      intro hNot
      by_contra hNone
      push Not at hNone
      exact hNot (hCheck.mp (checkModules_iff.mpr hNone))
    refine ⟨?_, ?_, fun hInvalid => hBad fun hWell => hWell.valid hInvalid⟩
    · intro hEmpty
      obtain ⟨i, type, hType, -⟩ := hBad fun hWell => hWell.nonempty hEmpty
      rw [hEmpty] at hType
      cases hType
    · rintro ⟨hInput | hOutput, hQueues, hFilters⟩
      · obtain ⟨i, type, hType, hRefuses⟩ := hBad fun hWell =>
          absurd (hWell.last.mpr hFilters) (by rw [hInput]; decide)
        rw [hInput, List.getElem?_singleton] at hType
        split_ifs at hType with hi
        obtain rfl := Option.some.inj hType
        exact hRefuses.elim (fun hNe => hNe hi) fun hNe => hNe hQueues
      · obtain ⟨i, type, hType, hRefuses⟩ := hBad fun hWell =>
          absurd (hWell.first.mpr hQueues) (by rw [hOutput]; decide)
        rw [hOutput, List.getElem?_singleton] at hType
        split_ifs at hType with hi
        obtain rfl := Option.some.inj hType
        refine hRefuses.elim (fun hNe => hNe ?_) fun hNe => hNe hFilters
        rw [hi, hOutput]
        rfl
  · rintro ⟨hNonempty, hNotLone, hInvalid⟩
    have hAccepted : p.checkModules = true → p.WellFormed := by
      intro hCheck
      refine wellFormed_of_accepted hCheck hNonempty (fun hMem => ?_) hNotLone
      obtain ⟨i, type, hType, hRefuses⟩ := hInvalid hMem
      exact checkModules_iff.mp hCheck i type hType hRefuses
    exact ⟨⟨hAccepted, wellFormed_accepted⟩, fun hCheck => wellFormed_safe (hAccepted hCheck)⟩

/-- A processor with these modules, and no queue on either side. -/
def unconnected (types : List ModuleType) : Processor :=
  { types, outputFilters := [], queuesCount := 0, inputQueue := 0, engineInputQueue := none
    engineOutputQueue := none, batch := false, ndebug := true }

/-- A processor without modules is accepted, and its thread indexes the empty list at once; an
INPUT module alone is accepted too, with nowhere to put what it reads. -/
theorem unconnected_accepted :
    ((unconnected []).checkModules = true ∧ ¬ (unconnected []).WellFormed ∧
      ∀ (w : World Nat) (fuel : Nat), iteration w (unconnected []) fuel
        (Thread.start (unconnected []) 0) = .error .crashed) ∧
    (unconnected [.input]).checkModules = true ∧ ¬ (unconnected [.input]).WellFormed := by
  refine ⟨⟨rfl, fun hWell => hWell.nonempty rfl, fun w fuel => rfl⟩, rfl, fun hWell => ?_⟩
  exact absurd (hWell.last.mpr rfl) (by decide)

end Processor

end HectorCore.Processing
