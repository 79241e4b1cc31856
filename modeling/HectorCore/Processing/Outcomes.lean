import HectorCore.Processing.Between
import HectorCore.Processing.Conservation
import HectorCore.Processing.Pipeline

/-!
# Outcomes — what becomes of the outputs of a MULTI module

An output of the last MULTI module goes through the SIMPLE modules behind it and then to the
OUTPUT module or to the queues. `Outcome` says which, from what the modules and queues answer:

* `World.takes`    — the queues behind the filters take a resource;
* `World.offer`    — a resource comes to them behind the pending one;
* `World.outcomes` — the outputs of one call, up to the first one that is refused;
* `Congested`      — that one was refused without waiting, and others are behind it.

`outputLoop_outcomes` is the loop of `RunThread` over them.
-/

namespace HectorCore.Processing

variable {σ : Type}

-- ---------------------------------------------------------------------------
-- What the queues answer
-- ---------------------------------------------------------------------------

/-- Whether the queues behind the filters take a resource; one that no filter matches is
released. -/
def World.takes (w : World σ) (r : Resource) (wait : Bool) : List OutputFilter → σ → Bool × σ
  | [], s => (true, s)
  | f :: fs, s =>
    if f.accepts r.status then
      if f.copy then
        let (copy, s) := w.clone r s
        let (accepted, s) := w.putItem f.queue f.priority copy wait s
        if accepted then w.takes r wait fs s else (false, s)
      else w.putItem f.queue f.priority r wait s
    else w.takes r wait fs s

/-- What becomes of an output of the last MULTI module: it is deleted, lost or consumed, the
queues take it, or they refuse it or the resource that was pending. -/
inductive Outcome where
  | gone
  | taken
  | refused (waited : Bool)
  deriving DecidableEq, Repr

/-- A resource comes to the queues, behind the one that is pending. -/
def World.offer (w : World σ) (p : Processor) (pending : Option Resource) (wait : Bool)
    (r : Resource) (s : σ) : Outcome × σ :=
  match pending with
  | none =>
    match w.takes r wait p.outputFilters s with
    | (true, s) => (.taken, s)
    | (false, s) => (.refused wait, s)
  | some q =>
    match w.takes q wait p.outputFilters s with
    | (false, s) => (.refused wait, s)
    | (true, s) =>
      match w.takes r false p.outputFilters s with
      | (true, s) => (.taken, s)
      | (false, s) => (.refused false, s)

/-- An output of module `k` goes through the modules behind it and to the queues. -/
def World.outcome (w : World σ) (p : Processor) (k : Nat) (pending : Option Resource)
    (wait : Bool) (r : Resource) (s : σ) : Outcome × σ :=
  if r.deleted then (.gone, s)
  else
    let j := pipeline w (simples (p.modulesFrom (k + 1))) r s
    match j.fate, outputModule (p.modulesFrom (k + 1)) with
    | .through r', none => w.offer p pending wait r' j.world
    | .through r', some i => (.gone, (w.processOutput i r' j.world).2)
    | _, _ => (.gone, j.world)

/-- The outputs of a call, up to the first one that is refused. A thread that may `block` waits
until one has been taken. -/
def World.outcomes (w : World σ) (p : Processor) (k : Nat) (block : Bool) :
    Option Resource → Bool → List Resource → σ → List Outcome
  | _, _, [], _ => []
  | pending, taken, r :: rest, s =>
    match w.outcome p k pending (block && !taken) r s with
    | (.gone, s) => .gone :: w.outcomes p k block pending taken rest s
    | (.taken, s) => .taken :: w.outcomes p k block none true rest s
    | (.refused waited, _) => [.refused waited]

/-- One that the thread was not waiting for is refused, and it is not the last one. -/
def Congested (outs : List Resource) (outcomes : List Outcome) : Prop :=
  .refused false ∈ outcomes ∧ outcomes.length < outs.length

-- ---------------------------------------------------------------------------
-- The loop over the outputs
-- ---------------------------------------------------------------------------

section Outputs

variable {w : World σ} {p : Processor} {fuel : Nat}

variable (fuel) in
/-- Behind the first module `ApplyModules` always comes to an end. -/
theorem applyModules_ok {w : World σ} (sleep : Bool) {ms : List (ModuleType × Nat)}
    (hNoInput : ∀ m ∈ ms, m.1 ≠ .input) (hLast : ms.Pairwise fun m _ => m.1 ≠ .output)
    (r : Resource) (t : Thread σ) :
    ∃ o stop t', applyModules w p fuel sleep ms (some r) t = .ok (o, stop, t') := by
  induction ms generalizing r t with
  | nil => exact ⟨_, _, _, rfl⟩
  | cons m ms ih =>
    obtain ⟨hHere, hRest⟩ := List.pairwise_cons.mp hLast
    have ih := ih (fun m hm => hNoInput m (List.mem_cons_of_mem _ hm)) hRest
    obtain ⟨type, i⟩ := m
    cases type with
    | input => exact absurd rfl (hNoInput (.input, i) List.mem_cons_self)
    | multi => exact ⟨_, _, _, rfl⟩
    | invalid => exact ih r t
    | output =>
      cases ms with
      | nil => exact ⟨_, _, _, rfl⟩
      | cons m ms => exact absurd rfl (hHere m List.mem_cons_self)
    | simple =>
      rw [applyModules]
      dsimp only
      split
      · exact ⟨_, _, _, rfl⟩
      · split
        · exact ⟨_, _, _, rfl⟩
        · exact ih _ _

/-- What becomes of a resource does not depend on the record of the calls. -/
theorem pipeline_traced (modules : List Nat) (r : Resource) (s : Traced σ) :
    (pipeline w.traced modules r s).fate = (pipeline w modules r s.state).fate ∧
      (pipeline w.traced modules r s).world.state = (pipeline w modules r s.state).world := by
  induction modules generalizing r s with
  | nil => exact ⟨rfl, rfl⟩
  | cons i is ih =>
    have hAsk : w.traced.processSimple i r s = ((w.processSimple i r s.state).1,
        ⟨(w.processSimple i r s.state).2,
          s.calls ++ [.simple i r (w.processSimple i r s.state).1]⟩) := rfl
    rw [pipeline, pipeline, hAsk]
    split
    · exact ⟨rfl, rfl⟩
    rcases w.processSimple i r s.state with ⟨_ | r', s'⟩
    · exact ⟨rfl, rfl⟩
    · dsimp only
      split
      · exact ⟨rfl, rfl⟩
      · exact ih r' _

/-- The loop over the filters is `takes`. -/
theorem queueFilters_takes {r : Resource} (wait : Bool) (fs : List OutputFilter) (n : Nat)
    (t : Thread (Traced σ)) :
    ((queueFilters w.traced p r wait (fs.zipIdx n) t).1 = .refused ↔
        (w.takes r wait fs t.world.state).1 = false) ∧
      (queueFilters w.traced p r wait (fs.zipIdx n) t).2.world.state =
        (w.takes r wait fs t.world.state).2 := by
  induction fs generalizing n t with
  | nil => exact ⟨by simp [queueFilters, World.takes], rfl⟩
  | cons f fs ih =>
    have hAsk : ∀ (c : Resource) (t : Thread (Traced σ)) {accepted : Bool} {s' : σ},
        w.putItem f.queue f.priority c wait t.world.state = (accepted, s') →
        t.call (w.traced.putItem f.queue f.priority c wait) =
          (accepted, { t with world := { t.world with state := s' } }) := by
      intro c t accepted s' hPut
      simp only [Thread.call, World.traced, Traced.ask, hPut]
    rw [List.zipIdx_cons]
    by_cases hMatch : f.accepts r.status = true
    · by_cases hCopy : f.copy = true
      · rcases hClone : w.clone r t.world.state with ⟨copy, s'⟩
        have hCloned : t.call (w.traced.clone r) =
            (copy, { t with world := { t.world with state := s' } }) := by
          simp only [Thread.call, World.traced, Traced.ask, hClone]
        rcases hPut : w.putItem f.queue f.priority copy wait s' with ⟨_ | _, s''⟩
        all_goals
          have hAsked := hAsk copy { t with world := { t.world with state := s' } } hPut
          simp only [queueFilters, World.takes, hMatch, hCopy, hCloned, hAsked, hClone, hPut,
            if_true, if_false, Bool.false_eq_true]
        · exact ⟨trivial, rfl⟩
        · exact ih (n + 1) _
      · rcases hPut : w.putItem f.queue f.priority r wait t.world.state with ⟨_ | _, s'⟩
        all_goals
          simp only [queueFilters, World.takes, hMatch, hCopy, hAsk r t hPut, hPut, if_true,
            if_false, Bool.false_eq_true]
        · exact ⟨trivial, rfl⟩
        · refine ⟨by simp, ?_⟩
          split <;> rfl
    · simp only [queueFilters, World.takes, hMatch, if_false, Bool.false_eq_true]
      exact ih (n + 1) t

theorem queueResource_takes (r : Resource) (wait : Bool) (t : Thread (Traced σ)) :
    ∃ t', queueResource w.traced p r wait (some 0) t =
        ((w.takes r wait p.outputFilters t.world.state).1, some 0, t') ∧
      t'.world.state = (w.takes r wait p.outputFilters t.world.state).2 := by
  obtain ⟨hTaken, hState⟩ := queueFilters_takes (w := w) (p := p) (r := r) wait
    p.outputFilters 0 t
  rw [← hState, queueResource]
  simp only [Option.getD_some, List.drop_zero]
  rcases hPass : queueFilters w.traced p r wait p.outputFilters.zipIdx t with ⟨_ | _ | _, t'⟩
  all_goals rw [hPass] at hTaken
  · rw [hTaken.mp rfl]
    exact ⟨_, rfl, rfl⟩
  · rw [Bool.eq_true_of_not_eq_false fun hNot => absurd (hTaken.mpr hNot) (by simp)]
    exact ⟨_, rfl, rfl⟩
  · rw [Bool.eq_true_of_not_eq_false fun hNot => absurd (hTaken.mpr hNot) (by simp)]
    exact ⟨_, rfl, rfl⟩

/-- What the loop over the outputs does after an output has come to the queues. -/
inductive Offered (block : Bool) : Outcome → Bool × Nat × Thread (Traced σ) → Prop
  | taken {queued : Nat} {t : Thread (Traced σ)} (hQueued : queued ≠ 0)
      (hPending : t.outputFilterResource = none) : Offered block .taken (true, queued, t)
  | refused {queued : Nat} {t : Thread (Traced σ)} :
      Offered block (.refused (block && queued == 0)) (false, queued, t)

/-- A resource with nothing pending before it. -/
theorem queueOutput_offer_none (r : Resource) (queued : Nat) {t : Thread (Traced σ)}
    (hIndex : t.outputFilterIndex = 0) (hPending : t.outputFilterResource = none) :
    Offered t.block (w.offer p none (t.block && queued == 0) r t.world.state).1
        (queueOutput w.traced p r queued t) ∧
      (queueOutput w.traced p r queued t).2.2.world.state =
        (w.offer p none (t.block && queued == 0) r t.world.state).2 := by
  obtain ⟨t', hQueue, hState⟩ := queueResource_takes (w := w) (p := p) r (t.block && queued == 0) t
  have hSame := queueResource_untouched (w := w) (p := p) r (t.block && queued == 0) (some 0) t
  rw [hQueue] at hSame
  rw [queueOutput]
  simp only [hPending, hIndex, hQueue, if_true, World.offer]
  rcases hTakes : w.takes r (t.block && queued == 0) p.outputFilters t.world.state with ⟨_ | _, s'⟩
  all_goals rw [hTakes] at hState
  · exact ⟨.refused, hState⟩
  · exact ⟨.taken (Nat.succ_ne_zero queued) (hSame.pending.trans hPending), hState⟩

/-- **The queues after an output of the last MULTI module.** -/
theorem queueOutput_offer (r : Resource) (queued : Nat) {t : Thread (Traced σ)}
    (hIndex : t.outputFilterIndex = 0) :
    Offered t.block (w.offer p t.outputFilterResource (t.block && queued == 0) r t.world.state).1
        (queueOutput w.traced p r queued t) ∧
      (queueOutput w.traced p r queued t).2.2.world.state =
        (w.offer p t.outputFilterResource (t.block && queued == 0) r t.world.state).2 := by
  cases hPending : t.outputFilterResource with
  | none => exact queueOutput_offer_none r queued hIndex hPending
  | some q =>
    obtain ⟨t', hQueue, hState⟩ :=
      queueResource_takes (w := w) (p := p) q (t.block && queued == 0) t
    have hSame :=
      queueResource_untouched (w := w) (p := p) q (t.block && queued == 0) (some 0) t
    rw [hQueue] at hSame
    rcases hTakes : w.takes q (t.block && queued == 0) p.outputFilters t.world.state
      with ⟨_ | _, s'⟩
    all_goals rw [hTakes] at hQueue hState
    · -- the pending resource is refused again
      rw [queueOutput]
      simp only [hPending, hIndex, hQueue, World.offer, hTakes, Bool.false_eq_true, if_false]
      exact ⟨.refused, hState⟩
    · -- it is queued, and the thread does not wait any more
      rw [queueOutput_of_retried hPending (by rw [hIndex]; exact hQueue)]
      obtain ⟨hOffered, hOutState⟩ := queueOutput_offer_none (w := w) (p := p) r (queued + 1)
        (t := { t' with outputFilterIndex := 0, outputFilterResource := none }) rfl rfl
      have hNoWait : (t'.block && (queued + 1) == 0) = false := Bool.and_false _
      dsimp only at hOffered hOutState
      rw [hNoWait, hState] at hOffered hOutState
      simp only [World.offer, hTakes] at hOffered hOutState ⊢
      rw [← hSame.block]
      exact ⟨hOffered, hOutState⟩

variable (fuel) in
/-- An output behind the modules that follow the last MULTI module. -/
theorem applyModules_outcome {k : Nat} (hPlain : Plain (p.modulesFrom (k + 1))) {r : Resource}
    (hKept : r.deleted = false) (t : Thread (Traced σ)) :
    ∃ o t',
      applyModules w.traced p fuel false (p.modulesFrom (k + 1)) (some r) t = .ok (o, false, t') ∧
      ∀ pending wait, w.outcome p k pending wait r t.world.state =
        match o with
        | none => (.gone, t'.world.state)
        | some r' => w.offer p pending wait r' t'.world.state := by
  obtain ⟨hFate, hState⟩ := pipeline_traced (w := w) (simples (p.modulesFrom (k + 1))) r t.world
  refine ⟨_, _, applyModules_plain w.traced p fuel false r t hPlain, ?_⟩
  intro pending wait
  rw [World.outcome, if_neg (by rw [hKept]; decide)]
  dsimp only
  rw [← hFate, ← hState]
  cases (pipeline w.traced (simples (p.modulesFrom (k + 1))) r t.world).fate with
  | deleted r' => rfl
  | lost => rfl
  | through r' =>
    cases outputModule (p.modulesFrom (k + 1)) with
    | none => rfl
    | some i => rfl

theorem congested_cons {r : Resource} {rest : List Resource} {o : Outcome} {os : List Outcome}
    (hGoesOn : o ≠ .refused false) : Congested (r :: rest) (o :: os) ↔ Congested rest os := by
  simp only [Congested, List.mem_cons, List.length_cons, Nat.add_lt_add_iff_right]
  rw [or_iff_right hGoesOn.symm]

theorem congested_refused {r : Resource} {rest : List Resource} {waited : Bool} :
    Congested (r :: rest) [.refused waited] ↔ rest ≠ [] ∧ waited = false := by
  simp only [Congested, List.mem_singleton, Outcome.refused.injEq, List.length_cons,
    List.length_nil, Nat.add_lt_add_iff_right, List.length_pos_iff, ne_eq]
  tauto

variable (fuel) in
/-- **The loop over the outputs of the last MULTI module**: outputs remain, and the thread was not
waiting, just when they are congested. -/
theorem outputLoop_outcomes {k : Nat} (hPlain : Plain (p.modulesFrom (k + 1)))
    (outs : List Resource) (queued : Nat) {t : Thread (Traced σ)}
    (hIndex : t.outputFilterIndex = 0) :
    ∃ rest queued' t', outputLoop w.traced p fuel k none outs queued t = .ok (rest, queued', t') ∧
      Between t t' ∧
      (Congested outs
          (w.outcomes p k t.block t.outputFilterResource (queued != 0) outs t.world.state) ↔
        rest ≠ [] ∧ (t.block && queued' == 0) = false) := by
  induction outs generalizing queued t with
  | nil => exact ⟨[], queued, t, rfl, .refl t, by simp [Congested]⟩
  | cons r outs ih =>
    rw [outputLoop, World.outcomes]
    by_cases hDeleted : r.deleted = true
    · -- a deleted output is not offered to anybody
      rw [if_pos hDeleted, World.outcome, if_pos hDeleted]
      obtain ⟨rest, queued', t', hLoop, hBetween, hIff⟩ := ih queued (t := t.pushDeleted r) hIndex
      exact ⟨rest, queued', t', hLoop, ((Untouched.refl t).pushDeleted r).toBetween.trans hBetween,
        (congested_cons (by decide)).trans hIff⟩
    obtain ⟨o, t₁, hApply, hOutcome⟩ :=
      applyModules_outcome (w := w) fuel hPlain (Bool.eq_false_of_not_eq_true hDeleted) t
    have hSame := applyModules_untouched hApply
    have hWait : (t.block && !(queued != 0)) = (t₁.block && queued == 0) := by
      rw [hSame.block, bne, Bool.not_not]
    rw [if_neg hDeleted, hApply, hOutcome, hWait]
    cases o with
    | none =>
      -- the modules behind have consumed it
      obtain ⟨rest, queued', t', hLoop, hBetween, hIff⟩ := ih queued (t := t₁) (hSame.index hIndex)
      rw [hSame.block, hSame.pending] at hIff
      exact ⟨rest, queued', t', hLoop, hSame.toBetween.trans hBetween,
        (congested_cons (by decide)).trans hIff⟩
    | some r' =>
      obtain ⟨hOffered, hState⟩ :=
        queueOutput_offer (w := w) (p := p) r' queued (hSame.index hIndex)
      have hBetween := hSame.toBetween.trans (queueOutput_between (w := w) (p := p) r' queued t₁)
      rcases hOut : queueOutput w.traced p r' queued t₁ with ⟨goOn, queued₂, t₂⟩
      rw [← hSame.pending]
      dsimp only
      rw [hOut]
      rcases hOffer : w.offer p t₁.outputFilterResource (t₁.block && queued == 0) r' t₁.world.state
        with ⟨outcome, s'⟩
      rw [hOffer, hOut] at hOffered hState
      rw [hOut] at hBetween
      dsimp only at hOffered hState hBetween
      cases hOffered with
      | taken hSome hNone =>
        -- it is taken, and so is the pending one
        obtain ⟨rest, queued', t', hLoop, hRest, hIff⟩ :=
          ih queued₂ (t := t₂) (hBetween.index hIndex)
        refine ⟨rest, queued', t', hLoop, hBetween.trans hRest, ?_⟩
        dsimp only
        rw [congested_cons (by decide)]
        rwa [hBetween.block, hNone, bne_iff_ne.mpr hSome, hState] at hIff
      | refused =>
        -- it is refused, and the outputs from here on remain
        refine ⟨outs, queued₂, t₂, rfl, hBetween, ?_⟩
        dsimp only
        rw [congested_refused, hSame.block]

variable (fuel) in
/-- The outputs of any other MULTI module are all handed on. -/
theorem outputLoop_handsOn (hCheck : p.checkModules = true) {k k' : Nat} (outs : List Resource)
    (queued : Nat) (t : Thread (Traced σ)) :
    ∃ queued' t', outputLoop w.traced p fuel k (some k') outs queued t = .ok ([], queued', t') ∧
      Untouched t t' := by
  induction outs generalizing queued t with
  | nil => exact ⟨queued, t, rfl, .refl t⟩
  | cons r outs ih =>
    rw [outputLoop]
    split
    · obtain ⟨queued', t', hLoop, hRest⟩ := ih queued (t.pushDeleted r)
      exact ⟨queued', t', hLoop, ((Untouched.refl t).pushDeleted r).trans hRest⟩
    have hNoInput := modulesFrom_no_input hCheck fun hZero => absurd hZero (Nat.succ_ne_zero k)
    obtain ⟨o, stop, t₁, hApply⟩ := applyModules_ok (w := w.traced) (p := p) fuel false
      hNoInput (modulesFrom_output_last hCheck (k + 1)) r t
    have hSame := applyModules_untouched hApply
    rw [hApply]
    cases o with
    | none =>
      obtain ⟨queued', t', hLoop, hRest⟩ := ih queued t₁
      exact ⟨queued', t', hLoop, hSame.trans hRest⟩
    | some r' =>
      obtain ⟨queued', t', hLoop, hRest⟩ :=
        ih queued (if r'.skip then t₁.pushOutput k' r' else t₁.pushInput k' r')
      refine ⟨queued', t', hLoop, Untouched.trans ?_ hRest⟩
      split
      · exact hSame.pushOutput k' r'
      · exact hSame.pushInput k' r'

end Outputs

end HectorCore.Processing
