import HectorCore.Processing.Builds
import HectorCore.Processing.Outcomes

/-!
# Assertions — when the worker loop aborts

`RunThread` and `ApplyModules` assert three things: nothing is in hand before an INPUT module,
a MULTI module that changed the number of resources added some, and `multiIndex == -1` where
outputs of a MULTI module remain after the loop that queues them.

The first holds for every processor that `Init` accepts. The second depends on what the module
reports. The third stands inside `while (multiIndex >= 0)`: it fails whenever it is reached.

With `NDEBUG` the assertions are compiled out and the loop goes on. The traced environment of
that build shows every call of `ProcessMulti` of an iteration, also of one that aborts in a
debug build, and the condition is about these calls:

* `Underreports` — fewer resources after the call than before it, as the module reports;
* `Trouble`      — that, or the outputs of the last MULTI module are congested;
* `multiLoop_compare`, `iteration_compare` — the two builds, side by side;
* `assertions_hold_iff` — a run is free of failed assertions just when no call is in `Trouble`.
-/

namespace HectorCore.Processing

variable {σ : Type}

-- ---------------------------------------------------------------------------
-- What the modules answer
-- ---------------------------------------------------------------------------

/-- The module reports fewer resources than it did before the call, and the difference is not
in its queues. -/
def MultiAnswer.Underreports (a : MultiAnswer) (mi : ModuleInfo) : Prop :=
  a.inputResources.length + a.outputResources.length + a.processingResources <
    (mi.inputResources.length + mi.outputResources.length + mi.processingResources : Int)

instance (a : MultiAnswer) (mi : ModuleInfo) : Decidable (a.Underreports mi) :=
  inferInstanceAs (Decidable (_ < _))

/-- MULTI modules do not drop resources. -/
def NeverDrops (w : World σ) : Prop :=
  ∀ k mi s, let a := (w.processMulti k mi s).1
    mi.inputResources.length + mi.outputResources.length + mi.inside.length ≤
      a.inputResources.length + a.outputResources.length + a.inside.length

/-- A module that drops nothing underreports only if it does not report what it holds. -/
theorem NeverDrops.not_underreports {w : World σ} (hKeeps : NeverDrops w) {k : Nat}
    {mi : ModuleInfo} {s : σ} (hBefore : mi.processingResources = mi.inside.length)
    (hReports : (w.processMulti k mi s).1.processingResources =
      (w.processMulti k mi s).1.inside.length) :
    ¬ (w.processMulti k mi s).1.Underreports mi := by
  have hKept := hKeeps k mi s
  dsimp only at hKept
  unfold MultiAnswer.Underreports
  omega

/-- The module has said that it is busy. -/
def ModuleCall.isBusy : ModuleCall σ → Bool
  | .multi _ _ a _ => a.busy
  | _ => false

/-- The answer of a MULTI module that stands in the record is its own. -/
def World.Answers (w : World σ) : ModuleCall σ → Prop
  | .multi k mi a s => ∃ s₀, w.processMulti k mi s₀ = (a, s)
  | _ => True

/-- What the calls of an iteration make of the assertions, in a thread that begins it with
`pending`: a module underreports, or the outputs of the last MULTI module are congested. The
thread may block as long as no module is busy. -/
def Trouble (w : World σ) (p : Processor) (block : Bool) (pending : Option Resource)
    (calls : List (ModuleCall σ)) : Prop :=
  ∃ k mi a s, .multi k mi a s ∈ calls ∧
    (a.Underreports mi ∨ (p.nextMultiModuleIndex (k + 1) = none ∧
      Congested a.outputResources
        (w.outcomes p k (block && calls.all (!·.isBusy)) pending false a.outputResources s)))

-- ---------------------------------------------------------------------------
-- The two builds, side by side
-- ---------------------------------------------------------------------------

section Compare

variable {w : World σ} {p : Processor} {fuel : Nat}

theorem answers_of_quiet {calls : List (ModuleCall σ)} (hQuiet : ∀ c ∈ calls, c.isMulti = false) :
    ∀ c ∈ calls, w.Answers c := by
  intro c hc
  have hNot := hQuiet c hc
  cases c with
  | read r => trivial
  | simple i r answer => trivial
  | multi k mi a s => exact absurd hNot (by simp [ModuleCall.isMulti])

/-- Without a call of `ProcessMulti` there is no trouble. -/
theorem not_trouble_of_quiet {block : Bool} {pending : Option Resource}
    {calls : List (ModuleCall σ)} (hQuiet : ∀ c ∈ calls, c.isMulti = false) :
    ¬ Trouble w p block pending calls := by
  rintro ⟨k, mi, a, s, hMem, -⟩
  exact absurd (hQuiet _ hMem) (by simp [ModuleCall.isMulti])

theorem isBusy_of_quiet {calls : List (ModuleCall σ)} (hQuiet : ∀ c ∈ calls, c.isMulti = false) :
    calls.all (!·.isBusy) = true := by
  rw [List.all_eq_true]
  intro c hc
  have hNot := hQuiet c hc
  cases c with
  | read r => rfl
  | simple i r answer => rfl
  | multi k mi a s => exact absurd hNot (by simp [ModuleCall.isMulti])

/-- The first call of `ProcessMulti`, what follows until the next one, and the rest. -/
theorem trouble_multi_iff {k : Nat} {mi : ModuleInfo} {a : MultiAnswer} {s : σ} {block : Bool}
    {pending : Option Resource} {calls rest : List (ModuleCall σ)}
    (hQuiet : ∀ c ∈ calls, c.isMulti = false)
    (hLast : p.nextMultiModuleIndex (k + 1) = none → rest = []) :
    Trouble w p block pending (.multi k mi a s :: (calls ++ rest)) ↔
      a.Underreports mi ∨
      (p.nextMultiModuleIndex (k + 1) = none ∧ Congested a.outputResources
        (w.outcomes p k (block && !a.busy) pending false a.outputResources s)) ∨
      Trouble w p (block && !a.busy) pending rest := by
  have hBlock : (block && (ModuleCall.multi k mi a s :: (calls ++ rest)).all (!·.isBusy)) =
      (block && !a.busy && rest.all (!·.isBusy)) := by
    rw [List.all_cons, List.all_append, isBusy_of_quiet hQuiet, Bool.true_and, Bool.and_assoc]
    rfl
  unfold Trouble
  rw [hBlock]
  constructor
  · rintro ⟨k', mi', a', s', hMem, hTrouble⟩
    rcases List.mem_cons.mp hMem with hHere | hLater
    · obtain ⟨rfl, rfl, rfl, rfl⟩ : k' = k ∧ mi' = mi ∧ a' = a ∧ s' = s := by simpa using hHere
      refine hTrouble.imp_right fun ⟨hNone, hCongested⟩ => .inl ⟨hNone, ?_⟩
      rw [hLast hNone] at hCongested
      rwa [List.all_nil, Bool.and_true] at hCongested
    · rcases List.mem_append.mp hLater with hCalls | hRest
      · exact absurd (hQuiet _ hCalls) (by simp [ModuleCall.isMulti])
      · exact .inr (.inr ⟨k', mi', a', s', hRest, hTrouble⟩)
  · rintro (hUnder | ⟨hNone, hCongested⟩ | ⟨k', mi', a', s', hRest, hTrouble⟩)
    · exact ⟨k, mi, a, s, List.mem_cons_self, .inl hUnder⟩
    · refine ⟨k, mi, a, s, List.mem_cons_self, .inr ⟨hNone, ?_⟩⟩
      rwa [hLast hNone, List.all_nil, Bool.and_true]
    · exact ⟨k', mi', a', s', List.mem_cons_of_mem _ (List.mem_append_right _ hRest), hTrouble⟩

/-- `ProcessMulti` and the assertion about `delta`. -/
theorem callMulti_compare (hDebug : p.ndebug = false) (k : Nat) (mi : ModuleInfo)
    (t : Thread (Traced σ)) :
    ∃ a s t₁, w.processMulti k mi t.world.state = (a, s) ∧
      callMulti w.traced p.release k mi t = .ok (a, t₁) ∧
      callMulti w.traced p k mi t = (if a.Underreports mi then .error .aborted else .ok (a, t₁)) ∧
      t₁.block = (t.block && !a.busy) ∧ t₁.mis.length = t.mis.length ∧
      t₁.outputFilterIndex = t.outputFilterIndex ∧
      t₁.outputFilterResource = t.outputFilterResource ∧
      t₁.world = ⟨s, t.world.calls ++ [.multi k mi a s]⟩ := by
  rcases hMulti : w.processMulti k mi t.world.state with ⟨a, s⟩
  have hCall : t.call (w.traced.processMulti k mi) =
      (a, { t with world := ⟨s, t.world.calls ++ [.multi k mi a s]⟩ }) := by
    simp only [Thread.call, World.traced, hMulti]
  have hUnder : (0 : Int) < (mi.inputResources.length + mi.outputResources.length +
      mi.processingResources : Int) -
      (a.inputResources.length + a.outputResources.length + a.processingResources) ↔
      a.Underreports mi := by
    unfold MultiAnswer.Underreports
    omega
  simp only [callMulti, hCall, hDebug, Processor.release, Bool.true_eq_false, and_false, and_true,
    if_false, hUnder]
  refine ⟨a, s, _, rfl, rfl, rfl, ?_⟩
  split
  · exact ⟨rfl, List.length_set, rfl, rfl, rfl⟩
  · exact ⟨rfl, List.length_set, rfl, rfl, rfl⟩

/-- Behind the last MULTI module there are only SIMPLE modules and the OUTPUT module. -/
theorem plain_behind_last (hCheck : p.checkModules = true) {k : Nat}
    (hNone : p.nextMultiModuleIndex (k + 1) = none) : Plain (p.modulesFrom (k + 1)) := by
  refine ⟨fun m hm => ⟨?_, ?_⟩, modulesFrom_output_last hCheck (k + 1)⟩
  · intro hMulti
    obtain ⟨i, hi⟩ := List.mem_iff_getElem?.mp hm
    obtain ⟨-, hType⟩ := modulesFrom_getElem? hi
    rw [Processor.nextMultiModuleIndex, Option.map_eq_none_iff, List.findIdx?_eq_none_iff] at hNone
    have hNot := hNone m.1 (List.mem_of_getElem? (i := i) (by rw [List.getElem?_drop]; exact hType))
    rw [hMulti] at hNot
    exact absurd hNot (by decide)
  · exact modulesFrom_no_input hCheck (fun hZero => absurd hZero (Nat.succ_ne_zero k)) m hm

variable (fuel) in
/-- **The outputs of a MULTI module**, whichever it is. Outputs remain for which the thread was not
waiting just when the module is the last one and they are congested. -/
theorem outputLoop_compare (hCheck : p.checkModules = true) (k : Nat) (outs : List Resource)
    {t : Thread (Traced σ)} (hIndex : t.outputFilterIndex = 0) :
    ∃ rest queued t',
      outputLoop w.traced p fuel k (p.nextMultiModuleIndex (k + 1)) outs 0 t =
        .ok (rest, queued, t') ∧
      Between t t' ∧
      (p.nextMultiModuleIndex (k + 1) ≠ none →
        rest = [] ∧ t'.outputFilterResource = t.outputFilterResource) ∧
      (p.nextMultiModuleIndex (k + 1) = none ∧
          Congested outs (w.outcomes p k t.block t.outputFilterResource false outs t.world.state) ↔
        rest ≠ [] ∧ (t'.block && queued == 0) = false) := by
  cases hNext : p.nextMultiModuleIndex (k + 1) with
  | some k' =>
    obtain ⟨queued, t', hLoop, hSame⟩ := outputLoop_handsOn (w := w) fuel hCheck outs 0 t
    exact ⟨[], queued, t', hLoop, hSame.toBetween, fun _ => ⟨rfl, hSame.pending⟩, by simp⟩
  | none =>
    obtain ⟨rest, queued, t', hLoop, hBetween, hIff⟩ := outputLoop_outcomes (w := w) fuel
      (plain_behind_last hCheck hNext) outs 0 hIndex
    refine ⟨rest, queued, t', hLoop, hBetween, fun h => absurd rfl h, ?_⟩
    rw [hBetween.block]
    exact ⟨fun h => hIff.mp h.2, fun h => ⟨rfl, hIff.mpr h⟩⟩

/-- Nothing is left to do behind the last MULTI module. -/
theorem multiLoop_none (w : World σ) (p : Processor) (fuel passes : Nat) (round : Round)
    (t : Thread σ) : multiLoop w p fuel passes none round t = .ok (.next, round, t) := by
  cases passes <;> rfl

/-- The values of the round after a pass. -/
def Round.after (round : Round) (a : MultiAnswer) (queued : Nat) : Round :=
  { round with
    minN := min round.minN (a.expectingResources - a.inputResources.length)
    resourcesQueued := queued }

/-- One pass of the loop, over module `k`: it is called, its outputs go on until `rest` is left,
and the thread is in the state `t'`. -/
structure MultiPass (w : World σ) (p : Processor) (fuel k : Nat) (t : Thread (Traced σ))
    (mi : ModuleInfo) (a : MultiAnswer) (s : σ) (news : List (ModuleCall σ)) (rest : List Resource)
    (queued : Nat) (t' : Thread (Traced σ)) : Prop where
  asked : w.processMulti k mi t.world.state = (a, s)
  block : t'.block = (t.block && !a.busy)
  length : t'.mis.length = t.mis.length
  index : t'.outputFilterIndex = 0
  calls : t'.world.calls = t.world.calls ++ .multi k mi a s :: news
  quiet : ∀ c ∈ news, c.isMulti = false
  other : p.nextMultiModuleIndex (k + 1) ≠ none →
    rest = [] ∧ t'.outputFilterResource = t.outputFilterResource
  stuck : (p.nextMultiModuleIndex (k + 1) = none ∧ Congested a.outputResources
      (w.outcomes p k (t.block && !a.busy) t.outputFilterResource false a.outputResources s)) ↔
    rest ≠ [] ∧ (t'.block && queued == 0) = false
  release : ∀ round passes, multiLoop w.traced p.release fuel (passes + 1) (some k) round t =
    if rest = [] then
      multiLoop w.traced p.release fuel passes (p.nextMultiModuleIndex (k + 1))
        (round.after a queued) t'
    else if t'.block && queued == 0 then .ok (.returned, round.after a queued, t')
    else multiLoop w.traced p.release fuel passes (p.nextMultiModuleIndex (k + 1))
      { round.after a queued with queueFull := true } t'
  debug : ∀ round passes, multiLoop w.traced p fuel (passes + 1) (some k) round t =
    if a.Underreports mi then .error .aborted
    else if rest = [] then
      multiLoop w.traced p fuel passes (p.nextMultiModuleIndex (k + 1)) (round.after a queued) t'
    else if t'.block && queued == 0 then .ok (.returned, round.after a queued, t')
    else .error .aborted

variable (fuel) in
theorem multiLoop_pass (hCheck : p.checkModules = true) (hDebug : p.ndebug = false) {k : Nat}
    {t : Thread (Traced σ)} (hLt : k < t.mis.length) (hIndex : t.outputFilterIndex = 0) :
    ∃ mi a s calls rest queued t', MultiPass w p fuel k t mi a s calls rest queued t' := by
  obtain ⟨mi, hModule⟩ : ∃ mi, t.mis[k]? = some mi := ⟨_, List.getElem?_eq_getElem hLt⟩
  obtain ⟨a, s, t₁, hAsked, hRelease, hCall, hBlock, hLength, hIndex₁, hPending, hWorld⟩ :=
    callMulti_compare (w := w) hDebug k mi t
  obtain ⟨rest, queued, t₂, hLoop, hBetween, hOther, hStuck⟩ := outputLoop_compare (w := w)
    fuel hCheck k a.outputResources (hIndex₁.trans hIndex)
  obtain ⟨calls, hCalls, hQuiet⟩ := hBetween.calls
  rw [hWorld] at hCalls hStuck
  rw [hBlock, hPending] at hStuck
  refine ⟨mi, a, s, calls, rest, queued, { t₂ with
    mis := t₂.mis.modify k fun mi => { mi with outputResources := rest } }, ?_⟩
  refine ⟨hAsked, hBetween.block.trans hBlock, ?_, hBetween.index (hIndex₁.trans hIndex), ?_,
    hQuiet, ?_, hStuck, fun round passes => ?_, fun round passes => ?_⟩
  · rw [List.length_modify, hBetween.length, hLength]
  · rw [hCalls, List.append_assoc]
    rfl
  · exact fun hNone => (hOther hNone).imp_right fun hSame => hSame.trans hPending
  · have hLoop' := (outputLoop_release (w := w.traced) fuel hCheck k
      (p.nextMultiModuleIndex (k + 1)) a.outputResources 0 t₁).trans hLoop
    have hNext : p.release.nextMultiModuleIndex (k + 1) = p.nextMultiModuleIndex (k + 1) := rfl
    have hBuild : p.release.ndebug ≠ false := Bool.noConfusion
    simp only [multiLoop, hModule, hRelease, hNext, hLoop', if_neg hBuild]
    rfl
  · simp only [multiLoop, hModule, hCall]
    by_cases hUnder : a.Underreports mi
    · rw [if_pos hUnder, if_pos hUnder]
    · rw [if_neg hUnder, if_neg hUnder]
      simp only [hLoop, hDebug, if_true]
      rfl

variable (fuel) in
/-- **The loop over the MULTI modules.** The release build comes to its end; the debug build does
the same unless there is trouble among the calls, and then it aborts. -/
theorem multiLoop_compare (hCheck : p.checkModules = true) (hDebug : p.ndebug = false)
    (passes : Nat) (index : Option Nat) (round : Round) (t : Thread (Traced σ))
    (hLt : ∀ k, index = some k → k < p.types.length) (hLength : t.mis.length = p.types.length)
    (hIndex : t.outputFilterIndex = 0) :
    ∃ flow round' t' news,
      multiLoop w.traced p.release fuel passes index round t = .ok (flow, round', t') ∧
      t'.world.calls = t.world.calls ++ news ∧ (∀ c ∈ news, w.Answers c) ∧
      t'.outputFilterIndex = 0 ∧ t'.mis.length = p.types.length ∧ (index = none → news = []) ∧
      (Trouble w p t.block t.outputFilterResource news →
        multiLoop w.traced p fuel passes index round t = .error .aborted) ∧
      (¬ Trouble w p t.block t.outputFilterResource news →
        multiLoop w.traced p fuel passes index round t = .ok (flow, round', t')) := by
  have hNothing : ∀ block pending, ¬ Trouble w p block pending [] := fun block pending =>
    not_trouble_of_quiet (by simp)
  induction passes generalizing index round t with
  | zero =>
    exact ⟨.next, round, t, [], rfl, (List.append_nil _).symm, by simp, hIndex, hLength,
      fun _ => rfl, fun h => absurd h (hNothing _ _), fun _ => rfl⟩
  | succ passes ih =>
    cases index with
    | none =>
      exact ⟨.next, round, t, [], rfl, (List.append_nil _).symm, by simp, hIndex, hLength,
        fun _ => rfl, fun h => absurd h (hNothing _ _), fun _ => rfl⟩
    | some k =>
      obtain ⟨mi, a, s, calls, rest, queued, t₁, hPass⟩ := multiLoop_pass (w := w) fuel
        hCheck hDebug (hLength ▸ hLt k rfl) hIndex
      by_cases hRest : rest = []
      · -- on to the next module
        obtain ⟨flow, round', t', news, hRelease, hCalls, hAnswers, hIndex', hLength', hNone,
          hAbort, hSame⟩ :=
          ih (p.nextMultiModuleIndex (k + 1)) (round.after a queued) t₁
            (fun k' hk => (nextMultiModuleIndex_spec hk).2) (hPass.length.trans hLength) hPass.index
        have hLater : Trouble w p t₁.block t₁.outputFilterResource news ↔
            Trouble w p (t.block && !a.busy) t.outputFilterResource news := by
          by_cases hLast : p.nextMultiModuleIndex (k + 1) = none
          · rw [hNone hLast]
            exact iff_of_false (hNothing _ _) (hNothing _ _)
          · rw [hPass.block, (hPass.other hLast).2]
        have hIff :
            Trouble w p t.block t.outputFilterResource (.multi k mi a s :: (calls ++ news)) ↔
            a.Underreports mi ∨ Trouble w p t₁.block t₁.outputFilterResource news := by
          rw [trouble_multi_iff hPass.quiet hNone, hPass.stuck, hLater]
          simp only [hRest, ne_eq, not_true_eq_false, false_and, false_or]
        refine ⟨flow, round', t', .multi k mi a s :: (calls ++ news), ?_, ?_, ?_, hIndex', hLength',
          by simp, fun hTrouble => ?_, fun hFine => ?_⟩
        · rw [hPass.release, if_pos hRest, hRelease]
        · rw [hCalls, hPass.calls, List.append_assoc, List.cons_append]
        · exact List.forall_mem_cons.mpr ⟨⟨_, hPass.asked⟩,
            List.forall_mem_append.mpr ⟨answers_of_quiet hPass.quiet, hAnswers⟩⟩
        · rw [hPass.debug, if_pos hRest]
          rcases hIff.mp hTrouble with hUnder | hTrouble'
          · rw [if_pos hUnder]
          · rw [hAbort hTrouble', ite_self]
        · rw [hIff, not_or] at hFine
          rw [hPass.debug, if_neg hFine.1, if_pos hRest, hSame hFine.2]
      · -- outputs are left: this is the last module
        have hLast : p.nextMultiModuleIndex (k + 1) = none := by
          by_contra hNext
          exact hRest (hPass.other hNext).1
        have hIff : Trouble w p t.block t.outputFilterResource (.multi k mi a s :: calls) ↔
            a.Underreports mi ∨ (t₁.block && queued == 0) = false := by
          rw [← List.append_nil calls, trouble_multi_iff hPass.quiet fun _ => rfl, hPass.stuck]
          simp only [hRest, ne_eq, not_false_eq_true, true_and, hNothing, or_false]
        obtain ⟨flow, round', hRelease⟩ : ∃ flow round',
            multiLoop w.traced p.release fuel (passes + 1) (some k) round t =
              .ok (flow, round', t₁) ∧
            ((t₁.block && queued == 0) = true →
              flow = .returned ∧ round' = round.after a queued) := by
          rw [hPass.release, if_neg hRest, hLast, multiLoop_none]
          split
          · exact ⟨_, _, rfl, fun _ => ⟨rfl, rfl⟩⟩
          · rename_i hGoesOn
            exact ⟨_, _, rfl, fun hWaits => absurd hWaits hGoesOn⟩
        refine ⟨flow, round', t₁, .multi k mi a s :: calls, hRelease.1, hPass.calls,
          List.forall_mem_cons.mpr ⟨⟨_, hPass.asked⟩, answers_of_quiet hPass.quiet⟩, hPass.index,
          hPass.length.trans hLength, by simp, fun hTrouble => ?_, fun hFine => ?_⟩
        · rw [hPass.debug, if_neg hRest]
          rcases hIff.mp hTrouble with hUnder | hGoesOn
          · rw [if_pos hUnder]
          · rw [hGoesOn, if_neg Bool.false_ne_true, ite_self]
        · rw [hIff, not_or, Bool.not_eq_false] at hFine
          obtain ⟨rfl, rfl⟩ := hRelease.2 hFine.2
          rw [hPass.debug, if_neg hFine.1, if_neg hRest, if_pos hFine.2]

-- ---------------------------------------------------------------------------
-- Iterations and runs
-- ---------------------------------------------------------------------------

/-- What happens before the first call of `ProcessMulti` and after the last one does not matter. -/
theorem trouble_between {block : Bool} {pending : Option Resource} {before news after :
    List (ModuleCall σ)} (hBefore : ∀ c ∈ before, c.isMulti = false)
    (hAfter : ∀ c ∈ after, c.isMulti = false) :
    Trouble w p block pending (before ++ (news ++ after)) ↔ Trouble w p block pending news := by
  have hMem : ∀ k mi a s, ModuleCall.multi k mi a s ∈ before ++ (news ++ after) ↔
      ModuleCall.multi k mi a s ∈ news := by
    intro k mi a s
    rw [List.mem_append, List.mem_append]
    constructor
    · rintro (hIn | hIn | hIn)
      · exact absurd (hBefore _ hIn) (by simp [ModuleCall.isMulti])
      · exact hIn
      · exact absurd (hAfter _ hIn) (by simp [ModuleCall.isMulti])
    · exact fun hIn => .inr (.inl hIn)
  simp only [Trouble, hMem, List.all_append, isBusy_of_quiet hBefore, isBusy_of_quiet hAfter,
    Bool.true_and, Bool.and_true]

/-- What every iteration begins with. -/
structure Steady (p : Processor) (t : Thread (Traced σ)) : Prop where
  length : t.mis.length = p.types.length
  index : t.outputFilterIndex = 0

theorem Between.steady {t t' : Thread (Traced σ)} (h : Between t t') (hSteady : Steady p t) :
    Steady p t' :=
  ⟨h.length.trans hSteady.length, h.index hSteady.index⟩

/-- An iteration of the release build that ends, and the same iteration in the debug build. -/
structure Compared (w : World σ) (p : Processor) (fuel : Nat) (t : Thread (Traced σ)) (flow : Flow)
    (t' : Thread (Traced σ)) (news : List (ModuleCall σ)) : Prop where
  release : iteration w.traced p.release fuel t = .ok (flow, t')
  steady : Steady p t'
  calls : t'.world.calls = t.world.calls ++ news
  answers : ∀ c ∈ news, w.Answers c
  aborts : Trouble w p true t.outputFilterResource news →
    iteration w.traced p fuel t = .error .aborted
  same : ¬ Trouble w p true t.outputFilterResource news →
    iteration w.traced p fuel t = .ok (flow, t')

variable (fuel) in
/-- **An iteration.** Unless it fails for another reason in both builds, the debug build aborts in
trouble, and does the same as the release build otherwise. -/
theorem iteration_compare (hCheck : p.checkModules = true) (hDebug : p.ndebug = false)
    {t : Thread (Traced σ)} (hSteady : Steady p t) :
    (∃ e, e ≠ .aborted ∧ iteration w.traced p fuel t = .error e ∧
      iteration w.traced p.release fuel t = .error e) ∨
    ∃ flow t' news, Compared w p fuel t flow t' news := by
  have hRelease := readLoop_release (w := w.traced) fuel hCheck (p.nextMultiModuleIndex 0)
    t.readMax.toNat 0 t
  have hNext : p.release.nextMultiModuleIndex 0 = p.nextMultiModuleIndex 0 := rfl
  have hTypes : p.release.types = p.types := rfl
  cases hRead : readLoop w.traced p fuel (p.nextMultiModuleIndex 0) t.readMax.toNat 0 t with
  | error e =>
    rw [hRead] at hRelease
    refine .inl ⟨e, readLoop_not_aborted hRelease, ?_, ?_⟩
    · simp only [iteration, hRead]
    · simp only [iteration, hNext, hRelease]
  | ok got =>
    obtain ⟨flow, t₁⟩ := got
    rw [hRead] at hRelease
    have hSame := readLoop_untouched hRead
    obtain ⟨before, hBefore, hQuiet⟩ := hSame.calls
    right
    cases flow with
    | returned =>
      refine ⟨.returned, t₁, before, ?_, hSame.steady hSteady, hBefore, answers_of_quiet hQuiet,
        fun h => absurd h (not_trouble_of_quiet hQuiet), fun _ => ?_⟩
      · simp only [iteration, hNext, hRelease]
      · simp only [iteration, hRead]
    | next =>
      obtain ⟨round, hRound⟩ : ∃ round : Round, round =
        { minN := if (p.nextMultiModuleIndex 0).isSome then 1000000 else 1, queueFull := false,
          resourcesQueued := 0 } := ⟨_, rfl⟩
      have hSteady₁ := hSame.steady hSteady
      obtain ⟨flow, round', t₂, news, hMulti, hCalls, hAnswers, hIndex, hLength, -, hAborts,
          hSameLoop⟩ :=
        multiLoop_compare (w := w) fuel hCheck hDebug (p.types.length + 1)
          (p.nextMultiModuleIndex 0) round { t₁ with block := true }
          (fun k hk => (nextMultiModuleIndex_spec hk).2)
          hSteady₁.length hSteady₁.index
      dsimp only at hCalls
      rw [hBefore, List.append_assoc] at hCalls
      -- trouble is judged on the calls between the reading loop and the flushing
      have hIff : ∀ after : List (ModuleCall σ), (∀ c ∈ after, c.isMulti = false) →
          (Trouble w p true t.outputFilterResource (before ++ (news ++ after)) ↔
            Trouble w p true t₁.outputFilterResource news) := by
        intro after hAfter
        rw [hSame.pending]
        exact trouble_between hQuiet hAfter
      cases flow with
      | returned =>
        replace hIff := hIff [] (by simp)
        rw [List.append_nil] at hIff
        refine ⟨.returned, t₂, before ++ news, ?_, ⟨hLength, hIndex⟩, hCalls,
          List.forall_mem_append.mpr ⟨answers_of_quiet hQuiet, hAnswers⟩, fun hTrouble => ?_,
          fun hFine => ?_⟩
        · simp only [iteration, hNext, hTypes, hRelease, ← hRound, hMulti]
        · simp only [iteration, hRead, ← hRound, hAborts (hIff.mp hTrouble)]
        · simp only [iteration, hRead, ← hRound, hSameLoop (mt hIff.mpr hFine)]
      | next =>
        obtain ⟨t₃, ht₃⟩ : ∃ t₃, t₃ = flushDeleted w.traced p t₂.deletedResources { t₂ with
          readMax := if round'.queueFull ∧ (round'.resourcesQueued : Int) < round'.minN
            then (round'.resourcesQueued : Int) else round'.minN } := ⟨_, rfl⟩
        have hFlush : Untouched t₂ t₃ := by
          rw [ht₃]
          refine Untouched.trans ?_ (flushDeleted_untouched _ _)
          exact .of_eq rfl rfl rfl rfl rfl
        obtain ⟨after, hAfter, hQuietAfter⟩ := hFlush.calls
        replace hIff := hIff after hQuietAfter
        refine ⟨.next, t₃, before ++ (news ++ after), ?_,
          hFlush.toBetween.steady ⟨hLength, hIndex⟩, ?_,
          List.forall_mem_append.mpr ⟨answers_of_quiet hQuiet,
            List.forall_mem_append.mpr ⟨hAnswers, answers_of_quiet hQuietAfter⟩⟩,
          fun hTrouble => ?_, fun hFine => ?_⟩
        · simp only [iteration, hNext, hTypes, hRelease, ← hRound, hMulti, flushDeleted_release,
            ← ht₃]
        · rw [hAfter, hCalls]
          simp only [List.append_assoc]
        · simp only [iteration, hRead, ← hRound, hAborts (hIff.mp hTrouble)]
        · simp only [iteration, hRead, ← hRound, hSameLoop (mt hIff.mpr hFine), ← ht₃]

theorem steady_start (p : Processor) (s : σ) : Steady p (Thread.start p (Traced.new s)) :=
  ⟨List.length_map _, rfl⟩

theorem Steady.isRunning {t t' : Thread (Traced σ)} {goOn : Bool} (h : Steady p t)
    (hCall : t.call w.traced.isRunning = (goOn, t')) : Steady p t' := by
  rw [← (Prod.mk.inj hCall).2]
  exact ⟨h.length, h.index⟩

/-- **A run** of the debug build that gets there. -/
theorem runThread_steady (hCheck : p.checkModules = true) (hDebug : p.ndebug = false) {n : Nat}
    {t t' : Thread (Traced σ)} (hSteady : Steady p t)
    (hRun : runThread w.traced p fuel n t = some t') : Steady p t' := by
  induction n generalizing t with
  | zero =>
    rw [← Option.some.inj hRun]
    exact hSteady
  | succ n ih =>
    rw [runThread] at hRun
    split at hRun
    · exact absurd hRun (by simp)
    rename_i t₁ hCall
    have hSteady₁ := hSteady.isRunning hCall
    rcases iteration_compare (w := w) fuel hCheck hDebug hSteady₁ with
      ⟨e, -, hError, -⟩ | ⟨flow, t₂, news, hCompared⟩
    · rw [hError] at hRun
      exact absurd hRun (by simp)
    · by_cases hTrouble : Trouble w p true t₁.outputFilterResource news
      · rw [hCompared.aborts hTrouble] at hRun
        exact absurd hRun (by simp)
      · rw [hCompared.same hTrouble] at hRun
        cases flow with
        | returned => exact absurd hRun (by simp)
        | next => exact ih hCompared.steady hRun

theorem begins_steady (hCheck : p.checkModules = true) (hDebug : p.ndebug = false) {s : σ}
    {t : Thread (Traced σ)} (hBegins : Begins w.traced p fuel (Traced.new s) t) : Steady p t := by
  obtain ⟨n, t₀, hRun, hCall⟩ := hBegins
  exact (runThread_steady hCheck hDebug (steady_start p s) hRun).isRunning hCall

/-- The calls of an iteration. -/
theorem Compared.drop {t t' : Thread (Traced σ)} {flow : Flow} {news : List (ModuleCall σ)}
    (h : Compared w p fuel t flow t' news) :
    t'.world.calls.drop t.world.calls.length = news := by
  rw [h.calls, List.drop_left]

end Compare

/-- **No assertion of the worker loop fails, exactly when no iteration is in trouble**, in any run
of any processor that `Init` accepts. What the modules are asked and what they answer is what the
build without assertions sees in the same iteration. -/
theorem assertions_hold_iff (w : World σ) (p : Processor) (fuel : Nat) (s : σ)
    (hCheck : p.checkModules = true) (hDebug : p.ndebug = false) :
    (∀ t, Begins w.traced p fuel (Traced.new s) t → iteration w.traced p fuel t ≠ .error .aborted) ↔
      ∀ t flow t', Begins w.traced p fuel (Traced.new s) t →
        iteration w.traced p.release fuel t = .ok (flow, t') →
        ¬ Trouble w p true t.outputFilterResource (t'.world.calls.drop t.world.calls.length) := by
  constructor
  · intro hHolds t flow t' hBegins hRelease hTrouble
    rcases iteration_compare (w := w) fuel hCheck hDebug (begins_steady hCheck hDebug hBegins) with
      ⟨e, -, -, hError⟩ | ⟨flow', t'', news, hCompared⟩
    · rw [hError] at hRelease
      exact absurd hRelease (by simp)
    · obtain ⟨rfl, rfl⟩ : flow' = flow ∧ t'' = t' := by
        simpa using hCompared.release.symm.trans hRelease
      rw [hCompared.drop] at hTrouble
      exact hHolds t hBegins (hCompared.aborts hTrouble)
  · intro hFine t hBegins hAborts
    rcases iteration_compare (w := w) fuel hCheck hDebug (begins_steady hCheck hDebug hBegins) with
      ⟨e, hOther, hError, -⟩ | ⟨flow, t', news, hCompared⟩
    · exact hOther (Except.error.inj (hError.symm.trans hAborts))
    · have hNo := hFine t flow t' hBegins hCompared.release
      rw [hCompared.drop] at hNo
      rw [hCompared.same hNo] at hAborts
      exact absurd hAborts (by simp)

/-- MULTI modules that emit one resource at a time and do not underreport never get into trouble. -/
theorem not_trouble_of_single {w : World σ} {p : Processor} {fuel : Nat} {t t' : Thread (Traced σ)}
    {flow : Flow} (hCheck : p.checkModules = true) (hDebug : p.ndebug = false)
    (hSteady : Steady p t)
    (hRelease : iteration w.traced p.release fuel t = .ok (flow, t'))
    (hReports : ∀ k mi s, ¬ (w.processMulti k mi s).1.Underreports mi)
    (hSingle : ∀ k mi s, (w.processMulti k mi s).1.outputResources.length ≤ 1) :
    ¬ Trouble w p true t.outputFilterResource (t'.world.calls.drop t.world.calls.length) := by
  rcases iteration_compare (w := w) fuel hCheck hDebug hSteady with
    ⟨e, -, -, hError⟩ | ⟨flow', t'', news, hCompared⟩
  · rw [hError] at hRelease
    exact absurd hRelease (by simp)
  obtain ⟨rfl, rfl⟩ : flow' = flow ∧ t'' = t' := by
    simpa using hCompared.release.symm.trans hRelease
  rw [hCompared.drop]
  rintro ⟨k, mi, a, s, hMem, hTrouble⟩
  obtain ⟨s₀, hAnswer⟩ := hCompared.answers _ hMem
  have hNo := hReports k mi s₀
  have hOne := hSingle k mi s₀
  rw [hAnswer] at hNo hOne
  dsimp only at hNo hOne
  rcases hTrouble with hUnder | ⟨-, hRefused, hLeft⟩
  · exact hNo hUnder
  · have hPos := List.length_pos_of_mem hRefused
    omega

-- ---------------------------------------------------------------------------
-- A MULTI module before a full queue
-- ---------------------------------------------------------------------------

/-- One MULTI module between two queues, in a debug build. -/
def burstProcessor : Processor :=
  { types := [.multi], outputFilters := [⟨0, true, 0, false, 9⟩], queuesCount := 1
    inputQueue := 0, engineInputQueue := none, engineOutputQueue := some 9, batch := false
    ndebug := false }

/-- The queue is full: it accepts only what it may wait for. The MULTI module is always busy; it
adds a resource to those it got, emits at most `n` of them and keeps the others. -/
def burstWorld (n : Nat) : World Nat where
  isRunning s := (true, s)
  getItem _ s := (some ⟨s, s, 0, false, false⟩, s + 1)
  pauseInput s := (false, s)
  awaitInput s := (true, s)
  processInput _ _ s := (none, s)
  processOutput _ r s := (some r, s)
  processSimple _ r s := (some r, s)
  processMulti _ mi s :=
    let rs := mi.outputResources ++ mi.inputResources ++ [⟨s, s, 0, false, false⟩]
    (⟨[], rs.take n, mi.inside ++ rs.drop n, [⟨s, s, 0, false, false⟩], 1,
      mi.processingResources + (rs.drop n).length, true⟩, s + 1)
  putItem _ _ _ wait s := (wait, s)
  clone r s := (r, s)

theorem burstWorld_neverDrops (n : Nat) : NeverDrops (burstWorld n) := by
  intro k mi s
  simp only [burstWorld, List.length_append, List.length_take, List.length_drop, List.length_nil,
    List.length_singleton]
  omega

theorem burstWorld_reports (n k : Nat) (mi : ModuleInfo) (s : Nat) :
    ¬ ((burstWorld n).processMulti k mi s).1.Underreports mi := by
  simp only [MultiAnswer.Underreports, burstWorld, List.length_append, List.length_take,
    List.length_drop, List.length_nil, List.length_singleton]
  omega

/-- One output at a time, and each of them is refused: the thread goes on. -/
theorem assertions_hold_iff_one_output :
    burstProcessor.checkModules = true ∧
    ∀ t, Begins (burstWorld 1).traced burstProcessor 1 (Traced.new 0) t →
      iteration (burstWorld 1).traced burstProcessor 1 t ≠ .error .aborted := by
  refine ⟨by decide, (assertions_hold_iff (burstWorld 1) burstProcessor 1 0 (by decide) rfl).mpr ?_⟩
  intro t flow t' hBegins hRelease
  refine not_trouble_of_single (by decide) rfl (begins_steady (by decide) rfl hBegins) hRelease
    (burstWorld_reports 1) ?_
  intro k mi s
  exact List.length_take_le 1 _

/-- Two outputs and a queue that is full: the thread aborts in its first iteration. -/
theorem full_queue_aborts :
    burstProcessor.checkModules = true ∧ burstProcessor.ndebug = false ∧
    NeverDrops (burstWorld 2) ∧
    ∃ t, Begins (burstWorld 2) burstProcessor 1 0 t ∧
      iteration (burstWorld 2) burstProcessor 1 t = .error .aborted := by
  refine ⟨by decide, rfl, burstWorld_neverDrops 2, _, ⟨0, _, rfl, rfl⟩, ?_⟩
  rfl

/-- A MULTI module that keeps what it gets and reports nothing. -/
def parkingWorld : World Nat where
  __ := burstWorld 0
  processMulti _ mi s :=
    (⟨[], [], mi.inside ++ mi.inputResources ++ mi.outputResources, [], 1, 0, true⟩, s)

/-- It drops nothing, and the assertion about the number of resources fails. -/
theorem parked_resource_aborts :
    NeverDrops parkingWorld ∧
    ∃ t, Begins parkingWorld burstProcessor 1 0 t ∧
      iteration parkingWorld burstProcessor 1 t = .error .aborted := by
  refine ⟨?_, _, ⟨0, _, rfl, rfl⟩, rfl⟩
  intro k mi s
  simp only [parkingWorld, List.length_append, List.length_nil]
  omega

end HectorCore.Processing
