import HectorCore.Processing.Trace
import HectorCore.Processing.Conservation

/-!
# Between — what a worker thread does between two calls of `ProcessMulti`

Reading, the SIMPLE modules, the output queues and the deleted resources: none of that calls a
MULTI module, changes whether the thread may block, or adds a module. All but the loop over the
outputs of the last MULTI module leaves the pending resource alone.
-/

namespace HectorCore.Processing

variable {σ : Type}

/-- A call of a MULTI module. -/
def ModuleCall.isMulti : ModuleCall σ → Bool
  | .multi .. => true
  | _ => false

/-- A piece of the thread's code that calls no MULTI module. -/
structure Between (t t' : Thread (Traced σ)) : Prop where
  block : t'.block = t.block
  length : t'.mis.length = t.mis.length
  index : t.outputFilterIndex = 0 → t'.outputFilterIndex = 0
  calls : ∃ news, t'.world.calls = t.world.calls ++ news ∧ ∀ c ∈ news, c.isMulti = false

/-- The pending resource stays as well. -/
structure Untouched (t t' : Thread (Traced σ)) : Prop extends Between t t' where
  pending : t'.outputFilterResource = t.outputFilterResource

section Untouched

variable {w : World σ} {p : Processor} {fuel : Nat} {t t' t'' : Thread (Traced σ)}

theorem Between.refl (t : Thread (Traced σ)) : Between t t :=
  ⟨rfl, rfl, id, [], (List.append_nil _).symm, by simp⟩

/-- One stretch of the loop after the other. -/
theorem Between.trans (h : Between t t') (h' : Between t' t'') : Between t t'' := by
  obtain ⟨news, hNews, hQuiet⟩ := h.calls
  obtain ⟨news', hNews', hQuiet'⟩ := h'.calls
  refine ⟨h'.block.trans h.block, h'.length.trans h.length, h'.index ∘ h.index,
    news ++ news', ?_, ?_⟩
  · rw [hNews', hNews, List.append_assoc]
  · intro c hc
    exact (List.mem_append.mp hc).elim (hQuiet c) (hQuiet' c)

theorem Untouched.refl (t : Thread (Traced σ)) : Untouched t t := ⟨.refl t, rfl⟩

theorem Untouched.trans (h : Untouched t t') (h' : Untouched t' t'') : Untouched t t'' :=
  ⟨h.toBetween.trans h'.toBetween, h'.pending.trans h.pending⟩

/-- Nothing but the log and the deleted resources changes. -/
theorem Untouched.of_eq (hBlock : t'.block = t.block) (hLength : t'.mis.length = t.mis.length)
    (hIndex : t'.outputFilterIndex = t.outputFilterIndex) (hWorld : t'.world = t.world)
    (hPending : t'.outputFilterResource = t.outputFilterResource) : Untouched t t' :=
  ⟨⟨hBlock, hLength, fun h => hIndex.trans h, [], by rw [hWorld, List.append_nil], by simp⟩,
    hPending⟩

theorem Untouched.emit (h : Untouched t t') (e : Event) : Untouched t (t'.emit e) :=
  h.trans (.of_eq rfl rfl rfl rfl rfl)

theorem Untouched.pushDeleted (h : Untouched t t') (r : Resource) :
    Untouched t (t'.pushDeleted r) :=
  h.trans (.of_eq rfl rfl rfl rfl rfl)

theorem Untouched.pushInput (h : Untouched t t') (k : Nat) (r : Resource) :
    Untouched t (t'.pushInput k r) :=
  h.trans (.of_eq rfl (List.length_modify ..) rfl rfl rfl)

theorem Untouched.pushOutput (h : Untouched t t') (k : Nat) (r : Resource) :
    Untouched t (t'.pushOutput k r) :=
  h.trans (.of_eq rfl (List.length_modify ..) rfl rfl rfl)

theorem Untouched.emit_if (h : Untouched t t') (b : Prop) [Decidable b] (e : Event) :
    Untouched t (if b then t'.emit e else t') := by
  split
  · exact h.emit e
  · exact h

/-- A question that is not traced. -/
theorem Untouched.ask (h : Untouched t t') {α : Type} (f : σ → α × σ) :
    Untouched t (t'.call (Traced.ask f)).2 :=
  h.trans ⟨⟨rfl, rfl, id, [], (List.append_nil _).symm, by simp⟩, rfl⟩

/-- The INPUT module is not a MULTI module. -/
theorem Untouched.read (h : Untouched t t') (f : σ → Option Resource × σ) :
    Untouched t (t'.call (Traced.read f)).2 := by
  refine h.trans ⟨⟨rfl, rfl, id, _, rfl, ?_⟩, rfl⟩
  intro c hc
  obtain ⟨r, -, rfl⟩ := List.mem_map.mp hc
  rfl

/-- Nor is a SIMPLE module. -/
theorem Untouched.simple (h : Untouched t t') (i : Nat) (r : Resource) :
    Untouched t (t'.call (w.traced.processSimple i r)).2 := by
  refine h.trans ⟨⟨rfl, rfl, id, _, rfl, ?_⟩, rfl⟩
  intro c hc
  obtain rfl := List.mem_singleton.mp hc
  rfl

/-- A resource is offered to queues and cloned on the way. -/
theorem queueFilters_untouched {r : Resource} (wait : Bool) (fs : List (OutputFilter × Nat))
    (t : Thread (Traced σ)) : Untouched t (queueFilters w.traced p r wait fs t).2 := by
  induction fs generalizing t with
  | nil => exact .refl t
  | cons entry fs ih =>
    obtain ⟨f, pos⟩ := entry
    rw [queueFilters]
    split
    · split
      · have hCopied := ((Untouched.refl t).ask (w.clone r)).ask
          (w.putItem f.queue f.priority (t.call (w.traced.clone r)).1 wait)
        dsimp only
        split
        · exact ((hCopied.emit _).emit _).trans (ih _)
        · exact hCopied.emit _
      · have hPut := (Untouched.refl t).ask (w.putItem f.queue f.priority r wait)
        dsimp only
        split
        · exact (hPut.emit _).emit_if _ _
        · exact hPut.emit _
    · exact ih t

/-- So it is with the filters from any index on. -/
theorem queueResource_untouched (r : Resource) (wait : Bool) (index : Option Nat)
    (t : Thread (Traced σ)) : Untouched t (queueResource w.traced p r wait index t).2.2 := by
  have hPass := queueFilters_untouched (w := w) (p := p) (r := r) wait
    (p.outputFilters.zipIdx.drop (index.getD 0)) t
  rw [queueResource]
  split
  all_goals
    rename_i t₁ hEnd
    rw [hEnd] at hPass
  · exact hPass
  · exact hPass
  · exact (hPass.emit _).emit _

/-- The input is asked again and again until it has something. -/
theorem fetchInput_untouched {i : Nat} {sleep : Bool} (fuel : Nat) {t t' : Thread (Traced σ)}
    {got : Option Resource} (h : fetchInput w.traced i sleep fuel t = .ok (got, t')) :
    Untouched t t' := by
  induction fuel generalizing t with
  | zero => exact absurd h (by simp [fetchInput])
  | succ fuel ih =>
    have hRead := (Untouched.refl t).read (w.processInput i sleep)
    rw [fetchInput] at h
    rcases hCall : t.call (w.traced.processInput i sleep) with ⟨_ | r, t₁⟩
    all_goals
      rw [hCall] at h
      replace hRead : Untouched t t₁ := by
        rw [show t₁ = (t.call (w.traced.processInput i sleep)).2 by rw [hCall]]
        exact hRead
      dsimp only at h
    · obtain ⟨-, rfl⟩ := Prod.mk.inj (Except.ok.inj h)
      exact hRead
    · split at h
      · exact ((hRead.emit _).pushDeleted r).trans (ih h)
      · obtain ⟨-, rfl⟩ := Prod.mk.inj (Except.ok.inj h)
        exact hRead.emit _

/-- From the first module up to a MULTI module: its queue of input is filled, not more. -/
theorem applyModules_untouched {sleep stop : Bool} {ms : List (ModuleType × Nat)}
    {o o' : Option Resource} {t t' : Thread (Traced σ)}
    (h : applyModules w.traced p fuel sleep ms o t = .ok (o', stop, t')) : Untouched t t' := by
  induction ms generalizing o t with
  | nil =>
    simp only [applyModules, Except.ok.injEq, Prod.mk.injEq] at h
    obtain ⟨-, -, rfl⟩ := h
    exact .refl t
  | cons m ms ih =>
    obtain ⟨type, i⟩ := m
    cases type with
    | multi =>
      simp only [applyModules, Except.ok.injEq, Prod.mk.injEq] at h
      obtain ⟨-, -, rfl⟩ := h
      exact .refl t
    | invalid => exact ih h
    | input =>
      rw [applyModules] at h
      split at h
      · exact absurd h (by simp)
      · split at h
        · exact absurd h (by simp)
        · rename_i t₁ hFetch
          obtain ⟨-, -, rfl⟩ : _ ∧ _ ∧ t₁ = t' := by simpa using h
          exact fetchInput_untouched fuel hFetch
        · rename_i r t₁ hFetch
          exact ((fetchInput_untouched fuel hFetch).emit _).trans (ih h)
    | output =>
      cases o with
      | none => exact absurd h (by simp [applyModules])
      | some r =>
        exact ((((Untouched.refl t).ask (w.processOutput i r)).emit _).emit _).trans (ih h)
    | simple =>
      cases o with
      | none => exact absurd h (by simp [applyModules])
      | some r =>
        rw [applyModules] at h
        obtain ⟨answer, t₁, hAnswer, hSame⟩ : ∃ answer t₁, (if r.skip = true then (some r, t)
            else (t.emit (.simple i r)).call (w.traced.processSimple i r)) = (answer, t₁) ∧
            Untouched t t₁ := by
          by_cases hSkip : r.skip = true
          · exact ⟨_, _, if_pos hSkip, .refl t⟩
          · exact ⟨_, _, if_neg hSkip, ((Untouched.refl t).emit _).simple i r⟩
        simp only [hAnswer] at h
        cases answer with
        | none =>
          obtain ⟨-, -, rfl⟩ : _ ∧ _ ∧ t₁ = t' := by simpa using h
          exact hSame
        | some r' =>
          dsimp only at h
          split at h
          · obtain ⟨-, -, rfl⟩ : _ ∧ _ ∧ t₁.pushDeleted r' = t' := by simpa using h
            exact hSame.pushDeleted r'
          · exact hSame.trans (ih h)

theorem readResource_untouched (first : ModuleType) (read : Int) (t : Thread (Traced σ)) :
    Untouched t (readResource w.traced p first read t).2 := by
  rw [readResource]
  dsimp only
  split
  · have hAsked := (((Untouched.refl t).emit_if
      ((p.batch && (t.block && read == 0)) = true) (.updateSleeping 1)).read
      (w.getItem (t.block && read == 0))).emit_if
      ((p.batch && (t.block && read == 0)) = true) (.updateSleeping (-1))
    split
    · exact hAsked
    · exact (hAsked.emit _).emit_if _ _
  · have hPaused := (Untouched.refl t).ask w.pauseInput
    split
    · split
      · have hAwaited := hPaused.ask w.awaitInput
        split <;> exact hAwaited
      · exact hPaused
    · exact hPaused

/-- What is read before the MULTI modules are called. -/
theorem readLoop_untouched {multiIndex : Option Nat} {passes : Nat} {read : Int} {flow : Flow}
    {t t' : Thread (Traced σ)}
    (h : readLoop w.traced p fuel multiIndex passes read t = .ok (flow, t')) : Untouched t t' := by
  induction passes generalizing read t with
  | zero =>
    obtain ⟨-, rfl⟩ := Prod.mk.inj (Except.ok.inj h)
    exact .refl t
  | succ passes ih =>
    rw [readLoop] at h
    split at h
    · obtain ⟨-, rfl⟩ := Prod.mk.inj (Except.ok.inj h)
      exact .refl t
    cases hHead : p.types.head? with
    | none => exact absurd h (by simp [hHead])
    | some first =>
      have hRead := readResource_untouched (w := w) (p := p) first read t
      rcases hGot : readResource w.traced p first read t with ⟨⟨flow', _ | got⟩, t₁⟩
      all_goals
        rw [hGot] at hRead
        simp only [hHead, hGot] at h
      · obtain ⟨-, rfl⟩ := Prod.mk.inj (Except.ok.inj h)
        exact hRead
      · split at h
        · exact absurd h (by simp)
        · rename_i stop t₂ hApply
          obtain ⟨-, rfl⟩ := Prod.mk.inj (Except.ok.inj h)
          exact hRead.trans (applyModules_untouched hApply)
        · rename_i r stop t₂ hApply
          have hApplied := hRead.trans (applyModules_untouched hApply)
          cases multiIndex with
          | some k => exact (hApplied.pushInput k r).trans (ih h)
          | none =>
            have hQueue := queueResource_untouched (w := w) (p := p) r true none t₂
            dsimp only at h
            split at h
            all_goals
              rename_i t₃ hEnd
              rw [hEnd] at hQueue
            · obtain ⟨-, rfl⟩ := Prod.mk.inj (Except.ok.inj h)
              exact hApplied.trans hQueue
            · have hReset : Untouched t₃ { t₃ with outputFilterIndex := 0 } :=
                ⟨⟨rfl, rfl, fun _ => rfl, [], (List.append_nil _).symm, by simp⟩, rfl⟩
              exact ((hApplied.trans hQueue).trans hReset).trans (ih h)

/-- The index of the filter is the caller's. -/
theorem queueResource_index (r : Resource) (wait : Bool) (index : Option Nat)
    (t : Thread (Traced σ)) :
    (queueResource w.traced p r wait index t).2.1 = index := by
  rw [queueResource]
  split <;> rfl

/-- The last part of the loop over the outputs, with nothing pending. -/
theorem queueOutput_between_of_none (r : Resource) (queued : Nat) {t : Thread (Traced σ)}
    (hPending : t.outputFilterResource = none) :
    Between t (queueOutput w.traced p r queued t).2.2 := by
  have hIndex := queueResource_index (w := w) (p := p) r (t.block && queued == 0)
    (some t.outputFilterIndex) t
  have hSame := queueResource_untouched (w := w) (p := p) r (t.block && queued == 0)
    (some t.outputFilterIndex) t
  rw [queueOutput]
  simp only [hPending, if_true]
  rcases hQueue : queueResource w.traced p r (t.block && queued == 0) (some t.outputFilterIndex) t
    with ⟨_ | _, index, t'⟩
  all_goals
    rw [hQueue] at hIndex hSame
    obtain rfl : index = some t.outputFilterIndex := hIndex
    exact ⟨hSame.block, hSame.length, id, hSame.calls⟩

/-- An output that is refused is kept for the next pass. -/
theorem queueOutput_between (r : Resource) (queued : Nat) (t : Thread (Traced σ)) :
    Between t (queueOutput w.traced p r queued t).2.2 := by
  cases hPending : t.outputFilterResource with
  | none => exact queueOutput_between_of_none r queued hPending
  | some q =>
    have hIndex := queueResource_index (w := w) (p := p) q (t.block && queued == 0)
      (some t.outputFilterIndex) t
    have hSame := queueResource_untouched (w := w) (p := p) q (t.block && queued == 0)
      (some t.outputFilterIndex) t
    rcases hRetry : queueResource w.traced p q (t.block && queued == 0) (some t.outputFilterIndex) t
      with ⟨_ | _, index, t'⟩
    all_goals
      rw [hRetry] at hIndex hSame
      obtain rfl : index = some t.outputFilterIndex := hIndex
    · rw [queueOutput]
      simp only [hPending, hRetry, Bool.false_eq_true, if_false]
      exact ⟨hSame.block, hSame.length, id, hSame.calls⟩
    · rw [queueOutput_of_retried hPending hRetry]
      have hReset : Between t { t' with outputFilterIndex := 0, outputFilterResource := none } :=
        ⟨hSame.block, hSame.length, fun _ => rfl, hSame.calls⟩
      exact hReset.trans (queueOutput_between_of_none r (queued + 1) rfl)

/-- All outputs of a MULTI module, until one is refused. -/
theorem outputLoop_between {k : Nat} {next : Option Nat} {outs rest : List Resource}
    {queued queued' : Nat} {t t' : Thread (Traced σ)}
    (h : outputLoop w.traced p fuel k next outs queued t = .ok (rest, queued', t')) :
    Between t t' := by
  induction outs generalizing queued t with
  | nil =>
    obtain ⟨-, -, rfl⟩ : _ ∧ _ ∧ t = t' := by simpa [outputLoop] using h
    exact .refl t
  | cons r outs ih =>
    rw [outputLoop] at h
    split at h
    · exact ((Untouched.refl t).pushDeleted r).toBetween.trans (ih h)
    split at h
    · exact absurd h (by simp)
    · rename_i stop t₁ hApply
      exact (applyModules_untouched hApply).toBetween.trans (ih h)
    · rename_i r' stop t₁ hApply
      have hSame := applyModules_untouched hApply
      cases next with
      | some k' =>
        refine Between.trans (Untouched.toBetween ?_) (ih h)
        split
        · exact hSame.pushOutput k' r'
        · exact hSame.pushInput k' r'
      | none =>
        have hQueued := queueOutput_between (w := w) (p := p) r' queued t₁
        dsimp only at h
        split at h
        all_goals
          rename_i queued₂ t₂ hOut
          rw [hOut] at hQueued
        · exact (hSame.toBetween.trans hQueued).trans (ih h)
        · obtain ⟨-, -, rfl⟩ : _ ∧ _ ∧ t₂ = t' := by simpa using h
          exact hSame.toBetween.trans hQueued

/-- The deleted resources at the end of an iteration. -/
theorem flushDeleted_untouched (rs : List Resource) (t : Thread (Traced σ)) :
    Untouched t (flushDeleted w.traced p rs t) := by
  induction rs generalizing t with
  | nil => exact .of_eq rfl rfl rfl rfl rfl
  | cons r rs ih =>
    rw [flushDeleted]
    split
    · have hPut := fun queue => (Untouched.refl t).ask (w.putItem queue 0 r false)
      dsimp only
      split
      · exact (((hPut _).emit _).emit _).trans (ih _)
      · exact (hPut _).trans (.of_eq rfl rfl rfl rfl rfl)
    · exact (((Untouched.refl t).emit _).emit _).trans (ih _)

end Untouched

-- ---------------------------------------------------------------------------
-- The record only grows
-- ---------------------------------------------------------------------------

section Grows

variable {w : World σ} {p : Processor} {fuel : Nat} {t t' : Thread (Traced σ)}

/-- The record of the calls only grows. -/
theorem Between.grows (h : Between t t') : t.world.calls <+: t'.world.calls := by
  obtain ⟨news, hCalls, -⟩ := h.calls
  exact ⟨news, hCalls.symm⟩

/-- The call of `ProcessMulti` is the last entry. -/
theorem callMulti_calls {k : Nat} {mi : ModuleInfo} {a : MultiAnswer}
    (h : callMulti w.traced p k mi t = .ok (a, t')) :
    ∃ s, t'.world.calls = t.world.calls ++ [.multi k mi a s] := by
  rw [callMulti] at h
  dsimp only at h
  split at h
  · exact absurd h (by simp)
  · obtain ⟨rfl, rfl⟩ := Prod.mk.inj (Except.ok.inj h)
    refine ⟨(w.processMulti k mi t.world.state).2, ?_⟩
    split <;> rfl

/-- With the calls of the MULTI modules it grows, too. -/
theorem multiLoop_grows {passes : Nat} {index : Option Nat} {round round' : Round} {flow : Flow}
    (h : multiLoop w.traced p fuel passes index round t = .ok (flow, round', t')) :
    t.world.calls <+: t'.world.calls := by
  induction passes generalizing index round t with
  | zero =>
    obtain ⟨-, -, rfl⟩ : _ ∧ _ ∧ t = t' := by simpa [multiLoop] using h
    exact List.prefix_rfl
  | succ passes ih =>
    cases index with
    | none =>
      obtain ⟨-, -, rfl⟩ : _ ∧ _ ∧ t = t' := by simpa [multiLoop] using h
      exact List.prefix_rfl
    | some k =>
      rw [multiLoop] at h
      split at h
      · exact absurd h (by simp)
      split at h
      · exact absurd h (by simp)
      rename_i a t₁ hCall
      obtain ⟨s, hCalls⟩ := callMulti_calls hCall
      dsimp only at h
      split at h
      · exact absurd h (by simp)
      rename_i rest queued t₂ hLoop
      have hGrows : t.world.calls <+: t₂.world.calls :=
        List.IsPrefix.trans ⟨_, hCalls.symm⟩ (outputLoop_between hLoop).grows
      split at h
      · have hRest := ih h
        exact hGrows.trans hRest
      · split at h
        · obtain ⟨-, -, rfl⟩ := by simpa using h
          exact hGrows
        · split at h
          · exact absurd h (by simp)
          · have hRest := ih h
            exact hGrows.trans hRest

/-- An iteration is all of this. -/
theorem iteration_grows {flow : Flow} (h : iteration w.traced p fuel t = .ok (flow, t')) :
    t.world.calls <+: t'.world.calls := by
  rw [iteration] at h
  dsimp only at h
  split at h
  · exact absurd h (by simp)
  · rename_i t₁ hRead
    obtain ⟨-, rfl⟩ := Prod.mk.inj (Except.ok.inj h)
    exact (readLoop_untouched hRead).grows
  · rename_i t₁ hRead
    have hGrows := (readLoop_untouched hRead).grows
    split at h
    · exact absurd h (by simp)
    · rename_i round t₂ hMulti
      obtain ⟨-, rfl⟩ := Prod.mk.inj (Except.ok.inj h)
      have hLoop := multiLoop_grows hMulti
      exact hGrows.trans hLoop
    · rename_i round t₂ hMulti
      obtain ⟨-, rfl⟩ := Prod.mk.inj (Except.ok.inj h)
      have hLoop := multiLoop_grows hMulti
      refine List.IsPrefix.trans ?_ (flushDeleted_untouched _ _).grows
      exact hGrows.trans hLoop

/-- **A whole run.** -/
theorem runThread_grows {n : Nat} (h : runThread w.traced p fuel n t = some t') :
    t.world.calls <+: t'.world.calls := by
  induction n generalizing t with
  | zero => rw [← Option.some.inj h]
  | succ n ih =>
    rw [runThread] at h
    split at h
    · exact absurd h (by simp)
    rename_i t₁ hCall
    have hSame : t₁.world.calls = t.world.calls := by
      rw [← (Prod.mk.inj hCall).2]
      rfl
    split at h
    · rename_i t₂ hIteration
      rw [← hSame]
      exact (iteration_grows hIteration).trans (ih h)
    · exact absurd h (by simp)

end Grows

end HectorCore.Processing
