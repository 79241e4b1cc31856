import HectorCore.Processing.Conservation

/-!
# Builds — the worker loop without its assertions

With `NDEBUG` the assertions of `Processor.cc` are compiled out. Outside the loop over the MULTI
modules the two builds do the same, for every processor that `Init` accepts: the only assertion
there is the one of `ApplyModules`, that nothing is in hand before an INPUT module, and it holds.

* `applyModules_release` — the modules before and behind the MULTI modules;
* `readLoop_release`, `outputLoop_release` — the loops that use them;
* `readLoop_not_aborted` — no other failure of the reading loop is an abort.
-/

namespace HectorCore.Processing

/-- The build with the assertions compiled out. -/
def Processor.release (p : Processor) : Processor := { p with ndebug := true }

section Builds

variable {σ : Type} {w : World σ} {p : Processor} {fuel : Nat}

-- ---------------------------------------------------------------------------
-- The same steps
-- ---------------------------------------------------------------------------

/-- The queues are asked the same. -/
theorem queueFilters_release {r : Resource} {wait : Bool} (fs : List (OutputFilter × Nat))
    (t : Thread σ) : queueFilters w p.release r wait fs t = queueFilters w p r wait fs t := by
  induction fs generalizing t with
  | nil => rfl
  | cons entry fs ih =>
    obtain ⟨f, pos⟩ := entry
    simp only [queueFilters, ih]
    rfl

/-- There is no assertion in `QueueResource`. -/
theorem queueResource_release (r : Resource) (wait : Bool) (index : Option Nat) (t : Thread σ) :
    queueResource w p.release r wait index t = queueResource w p r wait index t := by
  simp only [queueResource, queueFilters_release]
  rfl

theorem queueOutput_release (r : Resource) (queued : Nat) (t : Thread σ) :
    queueOutput w p.release r queued t = queueOutput w p r queued t := by
  simp only [queueOutput, queueResource_release]

/-- Without an INPUT module there is nothing to assert. -/
theorem applyModules_release_of_no_input {sleep : Bool} {ms : List (ModuleType × Nat)}
    (hNoInput : ∀ m ∈ ms, m.1 ≠ .input) (o : Option Resource) (t : Thread σ) :
    applyModules w p.release fuel sleep ms o t = applyModules w p fuel sleep ms o t := by
  induction ms generalizing o t with
  | nil => rfl
  | cons m ms ih =>
    have ih := ih fun m hm => hNoInput m (List.mem_cons_of_mem _ hm)
    obtain ⟨type, i⟩ := m
    cases type with
    | input => exact absurd rfl (hNoInput (.input, i) List.mem_cons_self)
    | multi => rfl
    | invalid => exact ih o t
    | output =>
      cases o with
      | none => rfl
      | some r => simp only [applyModules, ih]
    | simple =>
      cases o with
      | none => rfl
      | some r => simp only [applyModules, ih]

/-- **Nothing is in hand before an INPUT module.** -/
theorem applyModules_release (hCheck : p.checkModules = true) {index : Nat} {sleep : Bool}
    {o : Option Resource} {t : Thread σ}
    (hHand : index = 0 → p.types.head? = some .input → o = none) :
    applyModules w p.release fuel sleep (p.modulesFrom index) o t =
      applyModules w p fuel sleep (p.modulesFrom index) o t := by
  rcases Accounting.modulesFrom_input hCheck index with
    hNoInput | ⟨hIndex, hFirst, rest, hModules, hTail⟩
  · exact applyModules_release_of_no_input hNoInput o t
  obtain rfl : o = none := hHand hIndex hFirst
  simp only [hModules, applyModules, applyModules_release_of_no_input hTail, Option.isSome_none,
    Bool.false_and]

variable (fuel) in
/-- The reading loop asserts nothing that fails. -/
theorem readLoop_release (hCheck : p.checkModules = true) (multiIndex : Option Nat) (passes : Nat)
    (read : Int) (t : Thread σ) :
    readLoop w p.release fuel multiIndex passes read t =
      readLoop w p fuel multiIndex passes read t := by
  induction passes generalizing read t with
  | zero => rfl
  | succ passes ih =>
    have hTypes : p.release.types = p.types := rfl
    have hModules : p.release.modulesFrom 0 = p.modulesFrom 0 := rfl
    have hRead : ∀ first, readResource w p.release first read t = readResource w p first read t :=
      fun first => rfl
    simp only [readLoop, hTypes, hModules, hRead, ih, queueResource_release]
    split
    · rfl
    cases hHead : p.types.head? with
    | none => rfl
    | some first =>
      rcases hGot : readResource w p first read t with ⟨⟨flow, _ | got⟩, t₁⟩
      · simp only [hGot]
      · have hInput := ((location p 0).readResource_moved hGot).2
        simp only [hGot]
        rw [applyModules_release hCheck]
        rintro - hFirst
        exact hInput (Option.some.inj (hHead.symm.trans hFirst)) got rfl

variable (fuel) in
/-- After the check of `Init` there are queues for all outputs. -/
theorem outputLoop_release (hCheck : p.checkModules = true) (k : Nat) (next : Option Nat)
    (outs : List Resource) (queued : Nat) (t : Thread σ) :
    outputLoop w p.release fuel k next outs queued t =
      outputLoop w p fuel k next outs queued t := by
  induction outs generalizing queued t with
  | nil => rfl
  | cons r outs ih =>
    have hModules : p.release.modulesFrom (k + 1) = p.modulesFrom (k + 1) := rfl
    simp only [outputLoop, ih, queueOutput_release, hModules]
    rw [applyModules_release hCheck fun hZero => absurd hZero (Nat.succ_ne_zero k)]

/-- Nor is there one in the flushing of the deleted resources. -/
theorem flushDeleted_release (rs : List Resource) (t : Thread σ) :
    flushDeleted w p.release rs t = flushDeleted w p rs t := by
  induction rs generalizing t with
  | nil => rfl
  | cons r rs ih => simp only [flushDeleted, ih]; rfl

-- ---------------------------------------------------------------------------
-- The failures that remain
-- ---------------------------------------------------------------------------

/-- The input module asserts nothing. -/
theorem fetchInput_not_aborted {i : Nat} {sleep : Bool} {e : Failure} {t : Thread σ}
    (h : fetchInput w i sleep fuel t = .error e) : e ≠ .aborted := by
  induction fuel generalizing t with
  | zero =>
    obtain rfl : Failure.diverged = e := by simpa [fetchInput] using h
    decide
  | succ fuel ih =>
    rw [fetchInput] at h
    split at h
    · simp at h
    · dsimp only at h
      split at h
      · exact ih h
      · simp at h

/-- Without assertions `ApplyModules` does not abort. -/
theorem applyModules_not_aborted {sleep : Bool} {e : Failure} {ms : List (ModuleType × Nat)}
    {o : Option Resource} {t : Thread σ}
    (h : applyModules w p.release fuel sleep ms o t = .error e) : e ≠ .aborted := by
  induction ms generalizing o t with
  | nil => exact absurd h (by simp [applyModules])
  | cons m ms ih =>
    obtain ⟨type, i⟩ := m
    cases type with
    | multi => exact absurd h (by simp [applyModules])
    | invalid => exact ih h
    | input =>
      simp only [applyModules, Processor.release, Bool.not_true, Bool.and_false, Bool.false_eq_true,
        if_false] at h
      split at h
      · rename_i e' hFetch
        obtain rfl : e' = e := by simpa using h
        exact fetchInput_not_aborted hFetch
      · simp at h
      · exact ih h
    | output =>
      cases o with
      | none =>
        obtain rfl : Failure.crashed = e := by simpa [applyModules] using h
        decide
      | some r => exact ih h
    | simple =>
      cases o with
      | none =>
        obtain rfl : Failure.crashed = e := by simpa [applyModules] using h
        decide
      | some r =>
        rw [applyModules] at h
        dsimp only at h
        split at h
        · simp at h
        · split at h
          · simp at h
          · exact ih h

/-- Without assertions nothing fails before the MULTI modules. -/
theorem readLoop_not_aborted {multiIndex : Option Nat} {passes : Nat} {read : Int} {e : Failure}
    {t : Thread σ} (h : readLoop w p.release fuel multiIndex passes read t = .error e) :
    e ≠ .aborted := by
  induction passes generalizing read t with
  | zero => exact absurd h (by simp [readLoop])
  | succ passes ih =>
    rw [readLoop] at h
    split at h
    · simp at h
    cases hHead : p.release.types.head? with
    | none =>
      obtain rfl : Failure.crashed = e := by simpa [hHead] using h
      decide
    | some first =>
      simp only [hHead] at h
      split at h
      · simp at h
      · split at h
        · rename_i e' hApply
          obtain rfl : e' = e := by simpa using h
          exact applyModules_not_aborted hApply
        · simp at h
        · cases multiIndex with
          | some k => exact ih h
          | none =>
            dsimp only at h
            split at h
            · simp at h
            · exact ih h

end Builds

end HectorCore.Processing
