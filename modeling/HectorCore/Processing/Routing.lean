import HectorCore.Processing.Processor

/-!
# Routing — what a resumed `QueueResource` delivers

`QueueResource` is written to be resumed: a caller that gets `false` calls again with the
same `filterIndex` variable, which should say where to go on. The caller here is
`queueUntilQueued`, which repeats the call until it returns `true`.

The environment is a sequence of answers: the `i`-th `PutItem` since the start is accepted
when `answers i` is `true`.

* `queueFilters_answering` — what one pass over the filters delivers: the targets up to the
  first refusal;
* `queueUntilQueued_delivered` — what the repeated calls deliver: the accepted targets of
  every refused call, and then all targets once more;
* `routing_exactly_once_iff` — so each target is served exactly once just when every refusal
  comes before the first acceptance.
-/

namespace HectorCore.Processing

-- ---------------------------------------------------------------------------
-- What should be delivered
-- ---------------------------------------------------------------------------

/-- A resource handed on: a clone or the original through the filter at `pos`, or the
original given back to the registry. -/
inductive Delivery where
  | clone (pos : Nat) (queue : QueueRef)
  | original (pos : Nat) (queue : QueueRef)
  | release
  deriving DecidableEq

def Event.delivery : Event → Option Delivery
  | .routed pos queue _ => some (.original pos queue)
  | .routedCopy pos queue _ _ => some (.clone pos queue)
  | .released _ => some .release
  | _ => none

/-- Everything handed on so far, in order. -/
def delivered (log : List Event) : List Delivery := log.filterMap Event.delivery

/-- The filters that a resource of this status is meant for: the matching copy filters
before the first matching filter that is not one, and that filter. -/
def targets (status : Int) : List (OutputFilter × Nat) → List (OutputFilter × Nat)
  | [] => []
  | (f, pos) :: fs =>
    if f.accepts status then
      if f.copy then (f, pos) :: targets status fs else [(f, pos)]
    else targets status fs

/-- The delivery through one target. -/
def targetDelivery : OutputFilter × Nat → Delivery
  | (f, pos) => if f.copy then .clone pos f.queue else .original pos f.queue

/-- One delivery for each target, and a release if none of them takes the original. -/
def expected (status : Int) (fs : List (OutputFilter × Nat)) : List Delivery :=
  (targets status fs).map targetDelivery ++
    if (targets status fs).all (·.1.copy) then [.release] else []

-- ---------------------------------------------------------------------------
-- The caller and its environment
-- ---------------------------------------------------------------------------

/-- An environment that answers the `i`-th `PutItem` with `answers i`; its state is the
number of calls so far. `QueueResource` asks for nothing but `PutItem` and `Clone`. -/
def answering (answers : Nat → Bool) (copyOf : Nat → Resource → Resource) : World Nat where
  isRunning n := (true, n)
  getItem _ n := (none, n)
  pauseInput n := (false, n)
  awaitInput n := (true, n)
  processInput _ _ n := (none, n)
  processOutput _ r n := (some r, n)
  processSimple _ r n := (some r, n)
  processMulti _ mi n := (⟨mi.inputResources, mi.outputResources, mi.inside, [], 0,
    mi.processingResources, false⟩, n)
  putItem _ _ _ _ n := (answers n, n + 1)
  clone r n := (copyOf n r, n)

/-- Call `QueueResource` again and again, each time with the `filterIndex` the last call
left, until it returns `true`; one call for each `timeout` of the list. -/
def queueUntilQueued {σ : Type} (w : World σ) (p : Processor) (r : Resource) :
    List Bool → Option Nat → Thread σ → Option (Thread σ)
  | [], _, _ => none
  | wait :: waits, filterIndex, t =>
    match queueResource w p r wait filterIndex t with
    | (true, _, t) => some t
    | (false, filterIndex, t) => queueUntilQueued w p r waits filterIndex t

-- ---------------------------------------------------------------------------
-- One call
-- ---------------------------------------------------------------------------

variable {answers : Nat → Bool} {copyOf : Nat → Resource → Resource}
variable {p : Processor} {r : Resource}

@[simp] theorem answering_putItem (q : QueueRef) (priority : Int) (wait : Bool) (n : Nat) :
    (answering answers copyOf).putItem q priority r wait n = (answers n, n + 1) := rfl

@[simp] theorem answering_clone (n : Nat) :
    (answering answers copyOf).clone r n = (copyOf n r, n) := rfl

@[simp] theorem delivered_append (log log' : List Event) :
    delivered (log ++ log') = delivered log ++ delivered log' := by
  simp [delivered]

/-- From call `n` on, the first `a` of the `m` targets accept and the next one refuses. -/
def RefusedAt (answers : Nat → Bool) (n m a : Nat) : Prop :=
  a < m ∧ (∀ i < a, answers (n + i) = true) ∧ answers (n + a) = false

/-- From call `n` on, all of the `m` targets accept. -/
def AllAccept (answers : Nat → Bool) (n m : Nat) : Prop :=
  ∀ i < m, answers (n + i) = true

theorem RefusedAt.succ {n m a : Nat} (hFirst : answers n = true)
    (hRefused : RefusedAt answers (n + 1) m a) : RefusedAt answers n (m + 1) (a + 1) := by
  obtain ⟨hLt, hBefore, hAt⟩ := hRefused
  refine ⟨by omega, ?_, ?_⟩
  · intro i hi
    rcases i with _ | i
    · exact hFirst
    · rw [show n + (i + 1) = n + 1 + i by omega]
      exact hBefore i (by omega)
  · rw [show n + (a + 1) = n + 1 + a by omega]
    exact hAt

theorem AllAccept.succ {n m : Nat} (hFirst : answers n = true)
    (hRest : AllAccept answers (n + 1) m) : AllAccept answers n (m + 1) := by
  intro i hi
  rcases i with _ | i
  · exact hFirst
  · rw [show n + (i + 1) = n + 1 + i by omega]
    exact hRest i (by omega)

/-- One pass over the filters: either it stops at the first refusal, with the targets before
it served, or it serves all targets. -/
theorem queueFilters_answering (wait : Bool) :
    ∀ (fs : List (OutputFilter × Nat)) (t : Thread Nat),
      let result := queueFilters (answering answers copyOf) p r wait fs t
      let ts := targets r.status fs
      (∃ a, RefusedAt answers t.world ts.length a ∧ result.1 = .refused ∧
        result.2.world = t.world + a + 1 ∧
        delivered result.2.log = delivered t.log ++ (ts.take a).map targetDelivery) ∨
      (AllAccept answers t.world ts.length ∧
        result.1 = (if ts.all (·.1.copy) then .unmatched else .appended) ∧
        result.2.world = t.world + ts.length ∧
        delivered result.2.log = delivered t.log ++ ts.map targetDelivery) := by
  intro fs
  induction fs with
  | nil =>
    intro t
    refine Or.inr ⟨fun i hi => absurd hi (Nat.not_lt_zero i), rfl, rfl, ?_⟩
    simp [queueFilters, targets]
  | cons entry fs ih =>
    obtain ⟨f, pos⟩ := entry
    intro t result ts
    by_cases hMatch : f.accepts r.status = true
    swap
    · -- a filter that does not match is passed over
      have hResult : result = queueFilters (answering answers copyOf) p r wait fs t := by
        simp [result, queueFilters, hMatch]
      have hTargets : ts = targets r.status fs := by simp [ts, targets, hMatch]
      rw [hResult, hTargets]
      exact ih t
    by_cases hCopy : f.copy = true
    · have hTargets : ts = (f, pos) :: targets r.status fs := by simp [ts, targets, hMatch, hCopy]
      cases hAnswer : answers t.world with
      | false =>
        refine Or.inl ⟨0, ⟨by simp [hTargets], by simp, hAnswer⟩, ?_⟩
        simp [result, queueFilters, hMatch, hCopy, Thread.call, Thread.emit, hAnswer,
          delivered, Event.delivery]
      | true =>
        -- the clone is accepted, and the pass goes on with one more call counted
        obtain ⟨t', hResult, hWorld, hLog⟩ : ∃ t' : Thread Nat,
            result = queueFilters (answering answers copyOf) p r wait fs t' ∧
            t'.world = t.world + 1 ∧
            delivered t'.log = delivered t.log ++ [targetDelivery (f, pos)] := by
          let copied := { t with world := t.world + 1 }
          refine ⟨(copied.emit (.routedCopy pos f.queue r (copyOf t.world r))).emit
            (.updateResourceCount 1), ?_, rfl, ?_⟩
          · simp [copied, result, queueFilters, hMatch, hCopy, Thread.call, hAnswer]
          · simp [copied, Thread.emit, delivered, Event.delivery, targetDelivery, hCopy]
        have hRest := ih t'
        simp only [← hResult, hWorld, hLog] at hRest
        simp only [hTargets, List.length_cons]
        rcases hRest with ⟨a, hRefused, hEnd, hNext, hDelivered⟩ | ⟨hAll, hEnd, hNext, hDelivered⟩
        · refine Or.inl ⟨a + 1, hRefused.succ hAnswer, hEnd, by omega, ?_⟩
          rw [hDelivered]
          simp
        · refine Or.inr ⟨hAll.succ hAnswer, ?_, by omega, ?_⟩
          · rw [hEnd, List.all_cons, hCopy, Bool.true_and]
          · rw [hDelivered]
            simp
    · have hTargets : ts = [(f, pos)] := by simp [ts, targets, hMatch, hCopy]
      cases hAnswer : answers t.world with
      | false =>
        refine Or.inl ⟨0, ⟨by simp [hTargets], by simp, hAnswer⟩, ?_⟩
        simp [result, queueFilters, hMatch, hCopy, Thread.call, Thread.emit, hAnswer,
          delivered, Event.delivery]
      | true =>
        refine Or.inr ⟨?_, ?_⟩
        · intro i hi
          rw [hTargets, List.length_singleton] at hi
          rw [show i = 0 by omega]
          exact hAnswer
        · rw [hTargets]
          -- the count of the engine changes or not, the deliveries are the same
          by_cases hOut : p.engineOutputQueue = some f.queue <;>
            simp [result, queueFilters, hMatch, hCopy, Thread.call, Thread.emit, hAnswer,
              delivered, Event.delivery, targetDelivery, hOut]

/-- One call: it is refused, leaves the index as it was and has served the targets before
the refusal; or it has served them all. -/
theorem queueResource_answering (wait : Bool) (t : Thread Nat) :
    let result := queueResource (answering answers copyOf) p r wait (some 0) t
    let ts := targets r.status p.outputFilters.zipIdx
    (∃ a, RefusedAt answers t.world ts.length a ∧ result.1 = false ∧ result.2.1 = some 0 ∧
      result.2.2.world = t.world + a + 1 ∧
      delivered result.2.2.log = delivered t.log ++ (ts.take a).map targetDelivery) ∨
    (AllAccept answers t.world ts.length ∧ result.1 = true ∧
      delivered result.2.2.log =
        delivered t.log ++ expected r.status p.outputFilters.zipIdx) := by
  intro result ts
  obtain ⟨e, t', hPass⟩ : ∃ e t', queueFilters (answering answers copyOf) p r wait
      (p.outputFilters.zipIdx.drop ((some 0).getD 0)) t = (e, t') := ⟨_, _, rfl⟩
  have hCases := @queueFilters_answering answers copyOf p r wait p.outputFilters.zipIdx t
  rw [show p.outputFilters.zipIdx = p.outputFilters.zipIdx.drop ((some 0).getD 0) by simp,
    hPass] at hCases
  simp only [Option.getD_some, List.drop_zero] at hCases
  rcases hCases with ⟨a, hRefused, hEnd, hNext, hDelivered⟩ | ⟨hAll, hEnd, -, hDelivered⟩
  · have hResult : result = (false, some 0, t') := by
      simp only [result, queueResource, hPass, hEnd]
    rw [hResult]
    exact Or.inl ⟨a, hRefused, rfl, rfl, hNext, hDelivered⟩
  · refine Or.inr ⟨hAll, ?_⟩
    rw [expected]
    -- only a resource that no target took is released
    by_cases hCopies : ts.all (·.1.copy) = true
    · rw [if_pos hCopies] at hEnd ⊢
      have hResult : result =
          (true, some 0, (t'.emit (.released r)).emit (.updateResourceCount (-1))) := by
        simp only [result, queueResource, hPass, hEnd]
      rw [hResult]
      refine ⟨rfl, ?_⟩
      simp only [Thread.emit, delivered_append, hDelivered]
      simp [delivered, Event.delivery]
    · rw [if_neg hCopies] at hEnd ⊢
      have hResult : result = (true, some 0, t') := by
        simp only [result, queueResource, hPass, hEnd]
      rw [hResult, List.append_nil]
      exact ⟨rfl, hDelivered⟩

-- ---------------------------------------------------------------------------
-- Repeated calls
-- ---------------------------------------------------------------------------

/-- From call `n` on, some puts are refused and then all of the `m` targets accept. -/
def RefusalsFirst (answers : Nat → Bool) (n m : Nat) : Prop :=
  ∃ k, (∀ i < k, answers (n + i) = false) ∧ AllAccept answers (n + k) m

/-- After a refusal at the first target the rest of the answers decide. -/
theorem refusalsFirst_of_refused_at_zero {n m : Nat} (hRefused : RefusedAt answers n m 0) :
    RefusalsFirst answers n m ↔ RefusalsFirst answers (n + 1) m := by
  obtain ⟨hLt, -, hAt⟩ := hRefused
  constructor
  · rintro ⟨k, hBefore, hAll⟩
    rcases k with _ | k
    · -- the first answer would be both a refusal and an acceptance
      have hAccept := hAll 0 hLt
      rw [Nat.add_zero] at hAccept hAt
      rw [hAt] at hAccept
      exact absurd hAccept Bool.false_ne_true
    · refine ⟨k, fun i hi => ?_, ?_⟩
      · rw [show n + 1 + i = n + (i + 1) by omega]
        exact hBefore (i + 1) (by omega)
      · rwa [show n + 1 + k = n + (k + 1) by omega]
  · rintro ⟨k, hBefore, hAll⟩
    refine ⟨k + 1, fun i hi => ?_, ?_⟩
    · rcases i with _ | i
      · exact hAt
      · rw [show n + (i + 1) = n + 1 + i by omega]
        exact hBefore i (by omega)
    · rwa [show n + (k + 1) = n + 1 + k by omega]

/-- A refusal after an acceptance cannot be repaired. -/
theorem not_refusalsFirst_of_refused_later {n m a : Nat}
    (hRefused : RefusedAt answers n m (a + 1)) : ¬ RefusalsFirst answers n m := by
  obtain ⟨hLt, hBefore, hAt⟩ := hRefused
  rintro ⟨k, hFirst, hAll⟩
  rcases k with _ | k
  · have hAccept := hAll (a + 1) hLt
    rw [Nat.add_zero, hAt] at hAccept
    exact absurd hAccept Bool.false_ne_true
  · have hRefuse := hFirst 0 (by omega)
    rw [hBefore 0 (by omega)] at hRefuse
    exact absurd hRefuse.symm Bool.false_ne_true

/-- The repeated calls deliver every target once, after what the refused calls had already
delivered; these delivered nothing just when the refusals came first. -/
theorem queueUntilQueued_delivered {t' : Thread Nat} :
    ∀ (waits : List Bool) (t : Thread Nat),
      queueUntilQueued (answering answers copyOf) p r waits (some 0) t = some t' →
      ∃ extra, delivered t'.log =
          delivered t.log ++ (extra ++ expected r.status p.outputFilters.zipIdx) ∧
        (extra = [] ↔
          RefusalsFirst answers t.world (targets r.status p.outputFilters.zipIdx).length) := by
  intro waits
  induction waits with
  | nil =>
    intro t h
    exact by simp [queueUntilQueued] at h
  | cons wait waits ih =>
    intro t h
    obtain ⟨ok, index, t₁, hCall⟩ : ∃ ok index t₁, queueResource (answering answers copyOf) p r wait
        (some 0) t = (ok, index, t₁) := ⟨_, _, _, rfl⟩
    have hCases := @queueResource_answering answers copyOf p r wait t
    simp only [hCall] at hCases
    simp only [queueUntilQueued, hCall] at h
    rcases hCases with ⟨a, hRefused, rfl, rfl, hWorld, hDelivered⟩ | ⟨hAll, rfl, hDelivered⟩
    · obtain ⟨extra, hLog, hIff⟩ := ih t₁ h
      refine ⟨((targets r.status p.outputFilters.zipIdx).take a).map targetDelivery ++
        extra, ?_, ?_⟩
      · rw [hLog, hDelivered]
        simp only [List.append_assoc]
      -- the call delivered something iff it was not refused at the first target
      · rcases a with _ | a
        · rw [hWorld] at hIff
          rw [refusalsFirst_of_refused_at_zero hRefused]
          simpa using hIff
        · have hNonempty : ((targets r.status p.outputFilters.zipIdx).take (a + 1)).map
              targetDelivery ≠ [] := by
            have hLt := hRefused.1
            intro hNil
            have hLength := congrArg List.length hNil
            simp only [List.length_map, List.length_take, List.length_nil] at hLength
            omega
          have hNot := not_refusalsFirst_of_refused_later hRefused
          exact iff_of_false (fun hNil => hNonempty (List.append_eq_nil_iff.mp hNil).1) hNot
    · rw [Option.some.injEq] at h
      subst h
      refine ⟨[], hDelivered, ?_⟩
      simp only [true_iff]
      exact ⟨0, by simp, by simpa using hAll⟩

/-- **Routing under back-pressure, exactly.** For every processor, resource and sequence of
answers: if the repeated calls end, then they delivered exactly one clone or original to each
target (and released the resource if no target takes it) if and only if the queues refused
some puts and then accepted all targets in a row. A refusal after an accepted clone makes the
next call start again at the first filter, because `filterIndex` was never advanced. -/
theorem routing_exactly_once_iff (answers : Nat → Bool) (copyOf : Nat → Resource → Resource)
    (p : Processor) (r : Resource) (waits : List Bool) (t : Thread Nat)
    (hDone : queueUntilQueued (answering answers copyOf) p r waits (some 0)
      (Thread.start p 0) = some t) :
    (delivered t.log).Perm (expected r.status p.outputFilters.zipIdx) ↔
      RefusalsFirst answers 0 (targets r.status p.outputFilters.zipIdx).length := by
  obtain ⟨extra, hLog, hIff⟩ := queueUntilQueued_delivered waits (Thread.start p 0) hDone
  have hStart : delivered (Thread.start p (0 : Nat)).log = [] := rfl
  rw [hStart, List.nil_append] at hLog
  rw [hLog]
  refine Iff.trans ⟨fun hPerm => ?_, ?_⟩ hIff
  · have hLength := hPerm.length_eq
    rw [List.length_append] at hLength
    exact List.eq_nil_of_length_eq_zero (by omega)
  · rintro rfl
    exact List.Perm.refl _

-- ---------------------------------------------------------------------------
-- A refusal between two targets
-- ---------------------------------------------------------------------------

/-- A processor with a copy filter to queue 1 and a filter to queue 2, both for every status. -/
def copyAndPass : Processor :=
  { types := [.simple]
    outputFilters := [⟨0, true, 0, true, 1⟩, ⟨0, true, 0, false, 2⟩]
    queuesCount := 1, inputQueue := 0, engineInputQueue := none, engineOutputQueue := none
    batch := false, ndebug := true }

/-- Clones get the number of the call as their address. -/
def numberedCopy (n : Nat) (r : Resource) : Resource := { r with ptr := n }

/-- The first put is refused, and then each filter gets what it should. -/
theorem routing_exactly_once_iff_refused_first :
    ∃ t, queueUntilQueued (answering (fun i => decide (0 < i)) numberedCopy) copyAndPass
        ⟨7, 1, 0, false, false⟩ [false, false] (some 0) (Thread.start copyAndPass 0) = some t ∧
      (delivered t.log).Perm (expected 0 copyAndPass.outputFilters.zipIdx) := by
  refine ⟨_, rfl, (routing_exactly_once_iff (fun i => decide (0 < i)) numberedCopy copyAndPass
    ⟨7, 1, 0, false, false⟩ [false, false] _ rfl).mpr ?_⟩
  refine ⟨1, fun i hi => ?_, fun i _ => ?_⟩
  · exact decide_eq_false (by omega)
  · exact decide_eq_true (by omega)

/-- Queue 1 accepts the clone, queue 2 refuses, both accept the second time: queue 1 has been
given two clones of one resource. -/
theorem routing_duplicates_clone :
    ∃ t, queueUntilQueued (answering (fun i => decide (i ≠ 1)) numberedCopy) copyAndPass
        ⟨7, 1, 0, false, false⟩ [false, false] (some 0) (Thread.start copyAndPass 0) = some t ∧
      (delivered t.log).count (.clone 0 1) = 2 ∧
      ¬ (delivered t.log).Perm (expected 0 copyAndPass.outputFilters.zipIdx) := by
  refine ⟨_, rfl, ?_⟩
  decide

end HectorCore.Processing
