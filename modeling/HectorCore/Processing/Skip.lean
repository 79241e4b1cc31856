import HectorCore.Processing.Between
import HectorCore.Processing.Pipeline

/-!
# Skip — resources that are to skip the rest of the processor

`Resource.h`: with SKIP "the rest of processor modules should be skipped, resource is just
appended to the queue". `ApplyModules` tests the flag before a SIMPLE module, `RunThread` before
the next MULTI module, but not before the first one.

The trace says what came in, what the SIMPLE and MULTI modules were given, and what they gave
back. `SkipsRest` is what SKIP promises of a thread with such a trace. A resource that is to skip
must come `Late`: not before the first MULTI module.

* `Account`             — where the resources with SKIP are, all the time;
* `outputLoop_account`, `multiLoop_account`, `iteration_account` — every piece of the main loop
  keeps it, if the flag comes late;
* `skip_skips_rest`     — so that no module gets such a resource, and all of them get to the output.
-/

namespace HectorCore.Processing

variable {σ : Type}

-- ---------------------------------------------------------------------------
-- Traces
-- ---------------------------------------------------------------------------

/-- What the module got as input. -/
def ModuleCall.given : ModuleCall σ → List Resource
  | .read _ => []
  | .simple _ r _ => [r]
  | .multi _ mi _ _ => mi.inputResources

/-- What came out: of the input, of a SIMPLE module, or of the `outputResources` of a MULTI
module. -/
def ModuleCall.answered : ModuleCall σ → List Resource
  | .read r => [r]
  | .simple _ _ answer => answer.toList
  | .multi _ _ a _ => a.outputResources

/-- The resource has been given to the OUTPUT module or to `QueueResource`. -/
def Event.offers (r : Resource) : Event → Prop
  | .consumed r' | .routed _ _ r' | .routedCopy _ _ r' _ | .refused _ r' | .refusedCopy _ r' _
  | .released r' => r' = r
  | _ => False

/-- **SKIP skips the rest of the processor**: no module has been given a resource with SKIP, and
every one that came in or was given back with SKIP has been given to the output. It waits behind
the last MULTI module only while the output has refused a resource before it. Deleted ones do not
get there. -/
structure SkipsRest (p : Processor) (t : Thread (Traced σ)) : Prop where
  notGiven : ∀ c ∈ t.world.calls, ∀ r ∈ c.given, r.skip = false
  reaches : ∀ c ∈ t.world.calls, ∀ r ∈ c.answered, r.skip = true → r.deleted = false →
    (∃ e ∈ t.log, e.offers r) ∨ (t.outputFilterResource.isSome = true ∧
      ∃ k mi, t.mis[k]? = some mi ∧ p.nextMultiModuleIndex (k + 1) = none ∧ r ∈ mi.outputResources)

/-- The flag does not come too early. In front of the first MULTI module no resource comes in with
SKIP, unless it is deleted and a module there sees that, and no SIMPLE module sets it on a
resource that it does not delete. A MULTI module keeps no resource with SKIP in its
`inputResources`, and takes none back from its `outputResources`. -/
def ModuleCall.Late (p : Processor) : ModuleCall σ → Prop
  | .read r => ∀ k ∈ p.nextMultiModuleIndex 0, r.skip = true →
    r.deleted = true ∧ ∃ type ∈ p.types.take k, type ≠ .invalid
  | .simple i _ answer => ∀ k ∈ p.nextMultiModuleIndex 0, i < k →
    ∀ r ∈ answer, r.skip = true → r.deleted = true
  | .multi _ mi a _ => (∀ r ∈ a.inputResources, r.skip = false) ∧
    ∀ r ∈ mi.outputResources, r ∈ a.outputResources

instance (p : Processor) : (c : ModuleCall σ) → Decidable (c.Late p)
  | .read r => inferInstanceAs (Decidable (∀ k ∈ p.nextMultiModuleIndex 0, r.skip = true →
      r.deleted = true ∧ ∃ type ∈ p.types.take k, type ≠ .invalid))
  | .simple i _ answer => inferInstanceAs (Decidable (∀ k ∈ p.nextMultiModuleIndex 0, i < k →
      ∀ r ∈ answer, r.skip = true → r.deleted = true))
  | .multi _ mi a _ => inferInstanceAs (Decidable ((∀ r ∈ a.inputResources, r.skip = false) ∧
      ∀ r ∈ mi.outputResources, r ∈ a.outputResources))

-- ---------------------------------------------------------------------------
-- Where the resources with SKIP are
-- ---------------------------------------------------------------------------

/-- It has been given to the output, or was in hand when the output loop broke off. -/
def Event.settles (r : Resource) (e : Event) : Prop :=
  e.offers r ∨ ∃ pending, e = .retryRefused pending r

/-- The outputs of module `j` may wait: it is the last MULTI module, and a resource is `pending`
that was refused, or its `turn` is next. -/
def MayWait (p : Processor) (emptied turn : Option Nat) (pending : Option Resource) (j : Nat) :
    Prop :=
  p.types[j]? = some .multi ∧ some j ≠ emptied ∧
    ((p.nextMultiModuleIndex (j + 1) = none ∧ pending.isSome = true) ∨ some j = turn)

/-- The resources with SKIP: never given to a module, not in front of one, and what came back
with the flag is in `hand`, has left, or is among the outputs of a MULTI module; those of the one
that is being `emptied` do not count. -/
structure Account (p : Processor) (hand : List Resource) (emptied turn : Option Nat)
    (t : Thread (Traced σ)) : Prop where
  length : t.mis.length = p.types.length
  notGiven : ∀ c ∈ t.world.calls, ∀ r ∈ c.given, r.skip = false
  inputs : ∀ (j : Nat) mi, t.mis[j]? = some mi → ∀ r ∈ mi.inputResources, r.skip = false
  placed : ∀ c ∈ t.world.calls, ∀ r ∈ c.answered, r.skip = true → r.deleted = false →
    r ∈ hand ∨ (∃ e ∈ t.log, e.settles r) ∨
      ∃ (j : Nat) (mi : ModuleInfo), some j ≠ emptied ∧ t.mis[j]? = some mi ∧ r ∈ mi.outputResources
  outputs : ∀ (j : Nat) mi, t.mis[j]? = some mi → mi.outputResources ≠ [] →
    MayWait p emptied turn t.outputFilterResource j

theorem lt_of_nextMultiModuleIndex_none {p : Processor} {index k : Nat}
    (hMulti : p.types[k]? = some .multi) (hNone : p.nextMultiModuleIndex index = none) :
    k < index := by
  by_contra hLe
  rw [Processor.nextMultiModuleIndex, Option.map_eq_none_iff, List.findIdx?_eq_none_iff] at hNone
  have hMem : ModuleType.multi ∈ p.types.drop index := by
    refine List.mem_of_getElem? (i := k - index) ?_
    rw [List.getElem?_drop, Nat.add_sub_cancel' (by omega)]
    exact hMulti
  exact of_decide_eq_false (hNone _ hMem) rfl

namespace Account

variable {p : Processor} {hand hand' : List Resource} {emptied turn : Option Nat}
  {t : Thread (Traced σ)}

theorem emit (h : Account p hand emptied turn t) (e : Event) :
    Account p hand emptied turn (t.emit e) := by
  refine ⟨h.length, h.notGiven, h.inputs, ?_, h.outputs⟩
  intro c hc r hr hSkip hKept
  rcases h.placed c hc r hr hSkip hKept with hHand | ⟨e', he', hSettles⟩ | hWaits
  · exact .inl hHand
  · exact .inr (.inl ⟨e', List.mem_append_left _ he', hSettles⟩)
  · exact .inr (.inr hWaits)

/-- Whatever does not touch the trace, the log and the modules: another resource may be pending,
if the outputs that wait may still do so. -/
theorem setPending {t' : Thread (Traced σ)} (h : Account p hand emptied turn t)
    (hCalls : t'.world.calls = t.world.calls) (hLog : t'.log = t.log) (hMis : t'.mis = t.mis)
    (hOutputs : ∀ (j : Nat) mi, t.mis[j]? = some mi → mi.outputResources ≠ [] →
      MayWait p emptied turn t'.outputFilterResource j) : Account p hand emptied turn t' := by
  refine ⟨?_, ?_, ?_, ?_, ?_⟩
  · rw [hMis]
    exact h.length
  · rw [hCalls]
    exact h.notGiven
  · rw [hMis]
    exact h.inputs
  · rw [hCalls, hLog, hMis]
    exact h.placed
  · rw [hMis]
    exact hOutputs

theorem congr {t' : Thread (Traced σ)} (h : Account p hand emptied turn t)
    (hCalls : t'.world.calls = t.world.calls) (hLog : t'.log = t.log) (hMis : t'.mis = t.mis)
    (hPending : t'.outputFilterResource = t.outputFilterResource) :
    Account p hand emptied turn t' :=
  h.setPending hCalls hLog hMis (hPending ▸ h.outputs)

/-- While the last MULTI module is being emptied, no outputs wait. -/
theorem none_waits {k : Nat} (h : Account p hand (some k) none t)
    (hMulti : p.types[k]? = some .multi) (hLast : p.nextMultiModuleIndex (k + 1) = none)
    {j : Nat} {mi : ModuleInfo} (hMi : t.mis[j]? = some mi) : mi.outputResources = [] := by
  by_contra hWaits
  obtain ⟨hMulti', hNe, ⟨hLast', -⟩ | hTurn⟩ := h.outputs j mi hMi hWaits
  · have hBefore := lt_of_nextMultiModuleIndex_none hMulti' hLast
    have hBehind := lt_of_nextMultiModuleIndex_none hMulti hLast'
    exact hNe (congrArg some (by omega))
  · exact absurd hTurn (by simp)

/-- Another hand: what is no longer in it has left. -/
theorem mono (h : Account p hand emptied turn t)
    (hHand : ∀ r ∈ hand, r.skip = true → r.deleted = false → r ∈ hand' ∨ ∃ e ∈ t.log, e.settles r) :
    Account p hand' emptied turn t := by
  refine ⟨h.length, h.notGiven, h.inputs, ?_, h.outputs⟩
  intro c hc r hr hSkip hKept
  rcases h.placed c hc r hr hSkip hKept with hIn | hRest
  · rcases hHand r hIn hSkip hKept with hIn' | hSettled
    · exact .inl hIn'
    · exact .inr (.inl hSettled)
  · exact .inr hRest

/-- The resource in hand is put down: it has no flag, is deleted, or has left. -/
theorem drop {r : Resource} (h : Account p (r :: hand) emptied turn t)
    (hDown : r.skip = true → r.deleted = false → ∃ e ∈ t.log, e.settles r) :
    Account p hand emptied turn t := by
  refine h.mono ?_
  intro r' hr' hSkip hKept
  rcases List.mem_cons.mp hr' with rfl | hIn
  · exact .inr (hDown hSkip hKept)
  · exact .inl hIn

/-- It is offered to the output, or forgotten. -/
theorem settle {r : Resource} {e : Event} (h : Account p (r :: hand) emptied turn t)
    (he : e.settles r) : Account p hand emptied turn (t.emit e) :=
  (h.emit e).drop fun _ _ => ⟨e, List.mem_append_right _ (List.mem_singleton.mpr rfl), he⟩

theorem pushDeleted (h : Account p hand emptied turn t) (r : Resource) :
    Account p hand emptied turn (t.pushDeleted r) :=
  h.congr rfl rfl rfl rfl

/-- A question that is not traced. -/
theorem ask {α : Type} (h : Account p hand emptied turn t) (f : σ → α × σ) :
    Account p hand emptied turn (t.call (Traced.ask f)).2 :=
  h.congr rfl rfl rfl rfl

/-- A resource comes in: it is in hand. -/
theorem read (h : Account p hand emptied turn t) (f : σ → Option Resource × σ) :
    Account p ((t.call (Traced.read f)).1.toList ++ hand) emptied turn
      (t.call (Traced.read f)).2 := by
  refine ⟨h.length, ?_, h.inputs, ?_, h.outputs⟩
  · intro c hc r hr
    rcases List.mem_append.mp hc with hc | hc
    · exact h.notGiven c hc r hr
    · obtain ⟨r', -, rfl⟩ := List.mem_map.mp hc
      exact absurd hr List.not_mem_nil
  · intro c hc r hr hSkip hKept
    rcases List.mem_append.mp hc with hc | hc
    · exact (h.placed c hc r hr hSkip hKept).imp_left (List.mem_append_right _)
    · obtain ⟨r', hr', rfl⟩ := List.mem_map.mp hc
      rw [List.mem_singleton.mp hr]
      exact .inl (List.mem_append_left _ hr')

/-- A resource without the flag goes to a SIMPLE module. -/
theorem processSimple {w : World σ} {r : Resource} (h : Account p (r :: hand) emptied turn t)
    (hNo : r.skip = false) (i : Nat) :
    Account p ((t.call (w.traced.processSimple i r)).1.toList ++ hand) emptied turn
      (t.call (w.traced.processSimple i r)).2 := by
  refine ⟨h.length, ?_, h.inputs, ?_, h.outputs⟩
  · intro c hc r' hr'
    rcases List.mem_append.mp hc with hc | hc
    · exact h.notGiven c hc r' hr'
    · rw [List.mem_singleton.mp hc] at hr'
      rw [List.mem_singleton.mp hr']
      exact hNo
  · intro c hc r' hr' hSkip hKept
    rcases List.mem_append.mp hc with hc | hc
    · rcases h.placed c hc r' hr' hSkip hKept with hHand | hRest
      · rcases List.mem_cons.mp hHand with rfl | hHand
        · rw [hNo] at hSkip
          exact absurd hSkip (by decide)
        · exact .inl (List.mem_append_right _ hHand)
      · exact .inr hRest
    · rw [List.mem_singleton.mp hc] at hr'
      exact .inl (List.mem_append_left _ hr')

end Account

-- ---------------------------------------------------------------------------
-- ApplyModules
-- ---------------------------------------------------------------------------

section Pieces

variable {w : World σ} {p : Processor} {fuel : Nat} {hand : List Resource}
  {emptied turn : Option Nat}

/-- The deleted inputs are put down, the one that is left is in hand. -/
theorem fetchInput_account (i : Nat) (sleep : Bool) : ∀ (fuel : Nat) (t t' : Thread (Traced σ))
    (o : Option Resource), Account p hand emptied turn t →
    fetchInput w.traced i sleep fuel t = .ok (o, t') →
    Account p (o.toList ++ hand) emptied turn t' := by
  intro fuel
  induction fuel with
  | zero =>
    intro t t' o _ hFetch
    exact absurd hFetch (by simp [fetchInput])
  | succ fuel ih =>
    intro t t' o h hFetch
    rw [fetchInput] at hFetch
    have hRead := h.read (w.processInput i sleep)
    obtain ⟨got, t₁, hCall⟩ : ∃ got t₁, t.call (w.traced.processInput i sleep) = (got, t₁) :=
      ⟨_, _, rfl⟩
    rw [hCall] at hFetch
    replace hRead : Account p (got.toList ++ hand) emptied turn t₁ := by
      rw [show got = (t.call (w.traced.processInput i sleep)).1 by rw [hCall],
        show t₁ = (t.call (w.traced.processInput i sleep)).2 by rw [hCall]]
      exact hRead
    cases got with
    | none =>
      obtain ⟨rfl, rfl⟩ := Prod.mk.inj (Except.ok.inj hFetch)
      exact hRead
    | some r =>
      dsimp only at hFetch
      split at hFetch
      · next hDeleted =>
        refine ih _ t' o (Account.pushDeleted (Account.drop (hRead.emit _) ?_) r) hFetch
        intro _ hKept
        rw [hDeleted] at hKept
        exact absurd hKept (by decide)
      · obtain ⟨rfl, rfl⟩ := Prod.mk.inj (Except.ok.inj hFetch)
        exact hRead.emit _

/-- `ApplyModules` behind the INPUT module: SIMPLE modules get no resource with SKIP, and the
OUTPUT module gets it. -/
theorem applyModules_account (sleep : Bool) : ∀ {ms : List (ModuleType × Nat)}
    (o o' : Option Resource) (stop : Bool) (t t' : Thread (Traced σ)), (∀ m ∈ ms, m.1 ≠ .input) →
    Account p (o.toList ++ hand) emptied turn t →
    applyModules w.traced p fuel sleep ms o t = .ok (o', stop, t') →
    Account p (o'.toList ++ hand) emptied turn t' := by
  intro ms
  induction ms with
  | nil =>
    intro o o' stop t t' _ h hApply
    obtain ⟨rfl, hRest⟩ := Prod.mk.inj (Except.ok.inj hApply)
    rw [← (Prod.mk.inj hRest).2]
    exact h
  | cons m ms ih =>
    intro o o' stop t t' hInput h hApply
    obtain ⟨type, i⟩ := m
    have hRest := fun m hm => hInput m (List.mem_cons_of_mem _ hm)
    cases type with
    | input => exact absurd rfl (hInput _ List.mem_cons_self)
    | invalid => exact ih o o' stop t t' hRest h hApply
    | multi =>
      obtain ⟨rfl, hRest⟩ := Prod.mk.inj (Except.ok.inj hApply)
      rw [← (Prod.mk.inj hRest).2]
      exact h
    | output =>
      -- the OUTPUT module consumes the resource, whatever its status
      cases o with
      | none => exact absurd hApply (by simp [applyModules])
      | some r =>
        rw [applyModules] at hApply
        refine ih none o' stop _ t' hRest ?_ hApply
        have hAsk : Account p (r :: hand) emptied turn (t.call (w.traced.processOutput i r)).2 :=
          h.ask _
        exact (hAsk.settle (e := .consumed r) (.inl rfl)).emit _
    | simple =>
      cases o with
      | none => exact absurd hApply (by simp [applyModules])
      | some r =>
        rw [applyModules] at hApply
        by_cases hSkip : r.skip = true
        · -- SKIP: the module is passed over, and only a deleted resource leaves
          rw [if_pos hSkip] at hApply
          dsimp only at hApply
          split at hApply
          · next hDeleted =>
            obtain ⟨rfl, hRest⟩ := Prod.mk.inj (Except.ok.inj hApply)
            rw [← (Prod.mk.inj hRest).2]
            refine (Account.drop h ?_).pushDeleted r
            intro _ hKept
            rw [hDeleted] at hKept
            exact absurd hKept (by decide)
          · exact ih (some r) o' stop t t' hRest h hApply
        · -- the module is called, and answers with a resource, or keeps it
          rw [if_neg hSkip] at hApply
          have hCalled :=
            (h.emit (.simple i r)).processSimple (w := w) (Bool.eq_false_iff.mpr hSkip) i
          obtain ⟨answer, t₁, hCall⟩ : ∃ answer t₁,
              (t.emit (.simple i r)).call (w.traced.processSimple i r) = (answer, t₁) := ⟨_, _, rfl⟩
          rw [hCall] at hApply hCalled
          cases answer with
          | none =>
            obtain ⟨rfl, hRest⟩ := Prod.mk.inj (Except.ok.inj hApply)
            rw [← (Prod.mk.inj hRest).2]
            exact hCalled
          | some r' =>
            dsimp only at hApply
            split at hApply
            · next hDeleted =>
              obtain ⟨rfl, hRest⟩ := Prod.mk.inj (Except.ok.inj hApply)
              rw [← (Prod.mk.inj hRest).2]
              refine (Account.drop hCalled ?_).pushDeleted r'
              intro _ hKept
              rw [hDeleted] at hKept
              exact absurd hKept (by decide)
            · exact ih (some r') o' stop t₁ t' hRest hCalled hApply

-- ---------------------------------------------------------------------------
-- QueueResource
-- ---------------------------------------------------------------------------

/-- The loop over the filters: a resource for which it stops has been offered. -/
theorem queueFilters_account (r : Resource) (wait : Bool) : ∀ (fs : List (OutputFilter × Nat))
    (t t' : Thread (Traced σ)) (fin : FilterEnd), Account p hand emptied turn t →
    queueFilters w.traced p r wait fs t = (fin, t') →
    Account p hand emptied turn t' ∧ (fin ≠ .unmatched → ∃ e ∈ t'.log, e.offers r) := by
  intro fs
  induction fs with
  | nil =>
    intro t t' fin h hQueue
    obtain ⟨rfl, rfl⟩ := Prod.mk.inj hQueue
    exact ⟨h, fun hNe => absurd rfl hNe⟩
  | cons f fs ih =>
    intro t t' fin h hQueue
    obtain ⟨f, pos⟩ := f
    have hLast : ∀ (t : Thread (Traced σ)) (e : Event), e.offers r →
        ∃ e' ∈ (t.emit e).log, e'.offers r :=
      fun t e he => ⟨e, List.mem_append_right _ (List.mem_singleton.mpr rfl), he⟩
    rw [queueFilters] at hQueue
    by_cases hAccepts : f.accepts r.status = true
    · rw [if_pos hAccepts] at hQueue
      by_cases hCopy : f.copy = true
      · rw [if_pos hCopy] at hQueue
        have hClone : Account p hand emptied turn (t.call (w.traced.clone r)).2 := h.ask _
        obtain ⟨copy, t₁, hCall⟩ : ∃ copy t₁, t.call (w.traced.clone r) = (copy, t₁) := ⟨_, _, rfl⟩
        rw [hCall] at hQueue hClone
        dsimp only at hQueue
        have hPut : Account p hand emptied turn
            (t₁.call (w.traced.putItem f.queue f.priority copy wait)).2 := hClone.ask _
        obtain ⟨accepted, t₂, hCall'⟩ : ∃ accepted t₂,
            t₁.call (w.traced.putItem f.queue f.priority copy wait) = (accepted, t₂) := ⟨_, _, rfl⟩
        rw [hCall'] at hQueue hPut
        cases accepted with
        | true => exact ih _ t' fin ((hPut.emit _).emit _) hQueue
        | false =>
          obtain ⟨rfl, rfl⟩ := Prod.mk.inj hQueue
          exact ⟨hPut.emit _, fun _ => hLast t₂ (.refusedCopy pos r copy) rfl⟩
      · rw [if_neg hCopy] at hQueue
        have hPut : Account p hand emptied turn
            (t.call (w.traced.putItem f.queue f.priority r wait)).2 := h.ask _
        obtain ⟨accepted, t₁, hCall⟩ : ∃ accepted t₁,
            t.call (w.traced.putItem f.queue f.priority r wait) = (accepted, t₁) := ⟨_, _, rfl⟩
        rw [hCall] at hQueue hPut
        cases accepted with
        | true =>
          obtain ⟨rfl, rfl⟩ := Prod.mk.inj hQueue
          split
          · refine ⟨(hPut.emit _).emit _, fun _ => ?_⟩
            obtain ⟨e, he, hOffers⟩ := hLast t₁ (.routed pos f.queue r) rfl
            exact ⟨e, List.mem_append_left _ he, hOffers⟩
          · exact ⟨hPut.emit _, fun _ => hLast t₁ (.routed pos f.queue r) rfl⟩
        | false =>
          obtain ⟨rfl, rfl⟩ := Prod.mk.inj hQueue
          exact ⟨hPut.emit _, fun _ => hLast t₁ (.refused pos r) rfl⟩
    · rw [if_neg hAccepts] at hQueue
      exact ih t t' fin h hQueue

/-- **`QueueResource` takes the resource out of the hand.** -/
theorem queueResource_account {r : Resource} {wait ok : Bool} {filterIndex index : Option Nat}
    {t t' : Thread (Traced σ)} (h : Account p (r :: hand) emptied turn t)
    (hQueue : queueResource w.traced p r wait filterIndex t = (ok, index, t')) :
    Account p hand emptied turn t' := by
  rw [queueResource] at hQueue
  obtain ⟨fin, t₁, hFilters⟩ : ∃ fin t₁, queueFilters w.traced p r wait
      (p.outputFilters.zipIdx.drop (filterIndex.getD 0)) t = (fin, t₁) := ⟨_, _, rfl⟩
  obtain ⟨hAccount, hOffered⟩ := queueFilters_account r wait _ t t₁ fin h hFilters
  rw [hFilters] at hQueue
  have hDrop : fin ≠ .unmatched → Account p hand emptied turn t₁ := by
    intro hNe
    obtain ⟨e, he, hOffers⟩ := hOffered hNe
    exact hAccount.drop fun _ _ => ⟨e, he, .inl hOffers⟩
  cases fin with
  | refused =>
    rw [← (Prod.mk.inj (Prod.mk.inj hQueue).2).2]
    exact hDrop (by decide)
  | appended =>
    rw [← (Prod.mk.inj (Prod.mk.inj hQueue).2).2]
    exact hDrop (by decide)
  | unmatched =>
    rw [← (Prod.mk.inj (Prod.mk.inj hQueue).2).2]
    exact (hAccount.settle (e := .released r) (.inl rfl)).emit _

/-- A resource that is not in hand may be queued too: the pending one. -/
theorem queueResource_account_other {r : Resource} {wait ok : Bool} {filterIndex index : Option Nat}
    {t t' : Thread (Traced σ)} (h : Account p hand emptied turn t)
    (hQueue : queueResource w.traced p r wait filterIndex t = (ok, index, t')) :
    Account p hand emptied turn t' :=
  queueResource_account (h.mono fun _ hr _ _ => .inl (List.mem_cons_of_mem r hr)) hQueue

section QueueOutput

variable {k : Nat} (hMulti : p.types[k]? = some .multi)
  (hLast : p.nextMultiModuleIndex (k + 1) = none)

include hMulti hLast

theorem queueOutput_account_of_none {r : Resource} {queued queued' : Nat} {goOn : Bool}
    {t t' : Thread (Traced σ)} (hPending : t.outputFilterResource = none)
    (h : Account p (r :: hand) (some k) none t)
    (hQueue : queueOutput w.traced p r queued t = (goOn, queued', t')) :
    Account p hand (some k) none t' ∧ (goOn = false → t'.outputFilterResource.isSome = true) := by
  obtain ⟨ok, index, t₁, hCall⟩ : ∃ ok index t₁, queueResource w.traced p r
    (t.block && queued == 0) (some t.outputFilterIndex) t = (ok, index, t₁) := ⟨_, _, _, rfl⟩
  have hAccount := queueResource_account h hCall
  rw [queueOutput] at hQueue
  simp only [hPending, hCall, if_true] at hQueue
  cases ok with
  | false =>
    rw [← (Prod.mk.inj (Prod.mk.inj hQueue).2).2]
    refine ⟨hAccount.setPending rfl rfl rfl ?_, fun _ => rfl⟩
    intro j mi hMi hWaits
    exact absurd (hAccount.none_waits hMulti hLast hMi) hWaits
  | true =>
    rw [← (Prod.mk.inj (Prod.mk.inj hQueue).2).2, ← (Prod.mk.inj hQueue).1]
    exact ⟨hAccount.congr rfl rfl rfl rfl, fun hStop => absurd hStop (by decide)⟩

/-- The last part of the output loop: when the pending resource is refused again, the one in
hand is forgotten. -/
theorem queueOutput_account {r : Resource} {queued queued' : Nat} {goOn : Bool}
    {t t' : Thread (Traced σ)} (h : Account p (r :: hand) (some k) none t)
    (hQueue : queueOutput w.traced p r queued t = (goOn, queued', t')) :
    Account p hand (some k) none t' ∧ (goOn = false → t'.outputFilterResource.isSome = true) := by
  cases hPending : t.outputFilterResource with
  | none => exact queueOutput_account_of_none hMulti hLast hPending h hQueue
  | some pending =>
    obtain ⟨ok, index, t₁, hRetry⟩ : ∃ ok index t₁, queueResource w.traced p pending
      (t.block && queued == 0) (some t.outputFilterIndex) t = (ok, index, t₁) := ⟨_, _, _, rfl⟩
    have hAccount := queueResource_account_other h hRetry
    cases ok with
    | false =>
      rw [queueOutput] at hQueue
      simp only [hPending, hRetry, Bool.false_eq_true, if_false, Prod.mk.injEq] at hQueue
      obtain ⟨-, -, rfl⟩ := hQueue
      refine ⟨(hAccount.settle (e := .retryRefused pending r) (.inr ⟨pending, rfl⟩)).congr
        rfl rfl rfl rfl, fun _ => ?_⟩
      show t₁.outputFilterResource.isSome = true
      rw [queueResource_pending hRetry, hPending]
      rfl
    | true =>
      rw [queueOutput_of_retried hPending hRetry] at hQueue
      have hReset : Account p (r :: hand) (some k) none
          { t₁ with outputFilterIndex := 0, outputFilterResource := none } := by
        refine hAccount.setPending rfl rfl rfl ?_
        intro j mi hMi hWaits
        exact absurd (hAccount.none_waits hMulti hLast hMi) hWaits
      exact queueOutput_account_of_none hMulti hLast rfl hReset hQueue

end QueueOutput

-- ---------------------------------------------------------------------------
-- MULTI modules
-- ---------------------------------------------------------------------------

theorem getElem?_modify_cases {l : List ModuleInfo} {j k : Nat} {f : ModuleInfo → ModuleInfo}
    {mi : ModuleInfo} (h : (l.modify k f)[j]? = some mi) :
    (j = k ∧ ∃ old, l[k]? = some old ∧ mi = f old) ∨ (j ≠ k ∧ l[j]? = some mi) := by
  rw [List.getElem?_modify] at h
  by_cases hSame : k = j
  · obtain ⟨old, hOld, hMi⟩ := Option.map_eq_some_iff.mp h
    rw [if_pos hSame] at hMi
    exact .inl ⟨hSame.symm, old, hSame ▸ hOld, hMi.symm⟩
  · obtain ⟨old, hOld, hMi⟩ := Option.map_eq_some_iff.mp h
    rw [if_neg hSame] at hMi
    exact .inr ⟨fun hEq => hSame hEq.symm, hMi ▸ hOld⟩

/-- One module changes: its inputs have no flag, its outputs may wait, and what was among its
outputs is there, or in hand. -/
theorem Account.modify {t t' : Thread (Traced σ)} {hand' : List Resource}
    {emptied' turn' : Option Nat} {k : Nat} {f : ModuleInfo → ModuleInfo}
    (h : Account p hand emptied turn t)
    (hMis : t'.mis = t.mis.modify k f) (hCalls : t'.world.calls = t.world.calls)
    (hLog : t'.log = t.log) (hPending : t'.outputFilterResource = t.outputFilterResource)
    (hInputs : ∀ mi, t.mis[k]? = some mi → ∀ r ∈ (f mi).inputResources, r.skip = false)
    (hHand : ∀ r ∈ hand, r.skip = true → r ∈ hand' ∨
      (some k ≠ emptied' ∧ ∃ mi, t.mis[k]? = some mi ∧ r ∈ (f mi).outputResources))
    (hEmptied : ∀ j, some j = emptied' → some j = emptied)
    (hKept : some k ≠ emptied → ∀ mi, t.mis[k]? = some mi → ∀ r ∈ mi.outputResources,
      some k ≠ emptied' ∧ r ∈ (f mi).outputResources)
    (hOutputs : ∀ mi, t.mis[k]? = some mi → (f mi).outputResources ≠ [] →
      MayWait p emptied' turn' t.outputFilterResource k)
    (hTurn : ∀ j, j ≠ k → some j = turn → some j = turn') : Account p hand' emptied' turn' t' := by
  have hAt : ∀ {j : Nat} {mi : ModuleInfo}, t.mis[j]? = some mi →
      t'.mis[j]? = some (if k = j then f mi else mi) := by
    intro j mi hMi
    rw [hMis, List.getElem?_modify, hMi]
    rfl
  refine ⟨?_, ?_, ?_, ?_, ?_⟩
  · rw [hMis, List.length_modify]
    exact h.length
  · rw [hCalls]
    exact h.notGiven
  · intro j mi hMi
    rw [hMis] at hMi
    rcases getElem?_modify_cases hMi with ⟨-, old, hOld, rfl⟩ | ⟨-, hOld⟩
    · exact hInputs old hOld
    · exact h.inputs j mi hOld
  · rw [hCalls, hLog]
    intro c hc r hr hSkip hNot
    rcases h.placed c hc r hr hSkip hNot with hIn | hSettled | ⟨j, mi, hNe, hMi, hIn⟩
    · rcases hHand r hIn hSkip with hIn' | ⟨hNe, mi, hMi, hOut⟩
      · exact .inl hIn'
      · have hHere := hAt hMi
        rw [if_pos rfl] at hHere
        exact .inr (.inr ⟨k, f mi, hNe, hHere, hOut⟩)
    · exact .inr (.inl hSettled)
    · have hHere := hAt hMi
      by_cases hSame : k = j
      · subst hSame
        obtain ⟨hNe', hOut⟩ := hKept hNe mi hMi r hIn
        rw [if_pos rfl] at hHere
        exact .inr (.inr ⟨k, f mi, hNe', hHere, hOut⟩)
      · rw [if_neg hSame] at hHere
        exact .inr (.inr ⟨j, mi, fun hEq => hNe (hEmptied j hEq), hHere, hIn⟩)
  · intro j mi hMi hOut
    rw [hMis] at hMi
    rw [hPending]
    rcases getElem?_modify_cases hMi with ⟨rfl, old, hOld, rfl⟩ | ⟨hNe, hOld⟩
    · exact hOutputs old hOld hOut
    · obtain ⟨hMulti, hNot, hWaits⟩ := h.outputs j mi hOld hOut
      exact ⟨hMulti, fun hEq => hNot (hEmptied j hEq), hWaits.imp id (hTurn j hNe)⟩

theorem Account.module_at {k : Nat} {type : ModuleType} {t : Thread (Traced σ)}
    (h : Account p hand emptied turn t) (hType : p.types[k]? = some type) :
    ∃ mi, t.mis[k]? = some mi := by
  obtain ⟨hLt, -⟩ := List.getElem?_eq_some_iff.mp hType
  rw [← h.length] at hLt
  exact ⟨_, List.getElem?_eq_getElem hLt⟩

theorem Account.pushInput {r : Resource} {t : Thread (Traced σ)}
    (h : Account p (r :: hand) emptied turn t) (hNo : r.skip = false) (k : Nat) :
    Account p hand emptied turn (t.pushInput k r) := by
  have hDown := h.drop fun hSkip => absurd hSkip (by rw [hNo]; decide)
  refine hDown.modify rfl rfl rfl rfl ?_ (fun r hr _ => .inl hr) (fun _ hEq => hEq) ?_ ?_
    (fun _ _ hEq => hEq)
  · intro mi hMi r' hr'
    rcases List.mem_append.mp hr' with hr' | hr'
    · exact hDown.inputs k mi hMi r' hr'
    · rw [List.mem_singleton.mp hr']
      exact hNo
  · intro hNe mi _ r' hr'
    exact ⟨hNe, hr'⟩
  · intro mi hMi hOut
    exact hDown.outputs k mi hMi hOut

theorem Account.pushOutput {r : Resource} {k : Nat} {t : Thread (Traced σ)}
    (h : Account p (r :: hand) emptied (some k) t) (hMulti : p.types[k]? = some .multi)
    (hNe : some k ≠ emptied) : Account p hand emptied (some k) (t.pushOutput k r) := by
  obtain ⟨mi, hMi⟩ := h.module_at hMulti
  refine h.modify rfl rfl rfl rfl (h.inputs k) ?_ (fun _ hEq => hEq) ?_
    (fun _ _ _ => ⟨hMulti, hNe, .inr rfl⟩) (fun _ _ hEq => hEq)
  · intro r' hr' _
    rcases List.mem_cons.mp hr' with rfl | hr'
    · exact .inr ⟨hNe, mi, hMi, List.mem_append_right _ (List.mem_singleton.mpr rfl)⟩
    · exact .inl hr'
  · intro _ mi' _ r' hr'
    exact ⟨hNe, List.mem_append_left _ hr'⟩

/-- The loop over the outputs of module `k`: what it does not get to remains in hand. That is
nothing in front of another MULTI module, and nothing unless the output refuses. -/
theorem outputLoop_account (hAccepted : p.checkModules = true) {k : Nat} {next : Option Nat}
    (hMulti : p.types[k]? = some .multi) (hNext : next = p.nextMultiModuleIndex (k + 1)) :
    ∀ (outs rest : List Resource) (queued queued' : Nat) (t t' : Thread (Traced σ)),
    Account p outs (some k) next t →
    outputLoop w.traced p fuel k next outs queued t = .ok (rest, queued', t') →
    Account p rest (some k) next t' ∧
      (rest ≠ [] → next = none ∧ t'.outputFilterResource.isSome = true) := by
  have hInput : ∀ m ∈ p.modulesFrom (k + 1), m.1 ≠ .input :=
    modulesFrom_no_input hAccepted fun hZero => absurd hZero (by omega)
  intro outs
  induction outs with
  | nil =>
    intro rest queued queued' t t' h hLoop
    obtain ⟨rfl, hRest⟩ := Prod.mk.inj (Except.ok.inj hLoop)
    rw [← (Prod.mk.inj hRest).2]
    exact ⟨h, fun hNe => absurd rfl hNe⟩
  | cons r outs ih =>
    intro rest queued queued' t t' h hLoop
    rw [outputLoop] at hLoop
    by_cases hDeleted : r.deleted = true
    · rw [if_pos hDeleted] at hLoop
      refine ih rest queued queued' _ t' (Account.pushDeleted (h.drop ?_) r) hLoop
      intro _ hKept
      rw [hDeleted] at hKept
      exact absurd hKept (by decide)
    · rw [if_neg hDeleted] at hLoop
      cases hApply : applyModules w.traced p fuel false (p.modulesFrom (k + 1)) (some r) t with
      | error e =>
        rw [hApply] at hLoop
        exact absurd hLoop (by simp)
      | ok result =>
        obtain ⟨o, stop, t₁⟩ := result
        have hApplied := applyModules_account false (some r) o stop t t₁ hInput h hApply
        rw [hApply] at hLoop
        cases o with
        | none => exact ih rest queued queued' t₁ t' hApplied hLoop
        | some r' =>
          cases next with
          | some k' =>
            obtain ⟨hLe, -⟩ := nextMultiModuleIndex_spec hNext.symm
            have hNe : some k' ≠ some k := by
              rw [ne_eq, Option.some.injEq]
              omega
            refine ih rest queued queued' _ t' ?_ hLoop
            split
            · exact Account.pushOutput hApplied (nextMultiModuleIndex_multi hNext.symm) hNe
            · next hSkip => exact Account.pushInput hApplied (Bool.eq_false_iff.mpr hSkip) k'
          | none =>
            dsimp only at hLoop
            obtain ⟨goOn, queued₁, t₂, hQueue⟩ : ∃ goOn queued₁ t₂,
              queueOutput w.traced p r' queued t₁ = (goOn, queued₁, t₂) := ⟨_, _, _, rfl⟩
            obtain ⟨hQueued, hRefused⟩ := queueOutput_account hMulti hNext.symm hApplied hQueue
            rw [hQueue] at hLoop
            cases goOn with
            | true => exact ih rest queued₁ queued' t₂ t' hQueued hLoop
            | false =>
              obtain ⟨rfl, hRest⟩ := Prod.mk.inj (Except.ok.inj hLoop)
              rw [← (Prod.mk.inj hRest).2]
              exact ⟨hQueued, fun _ => ⟨rfl, hRefused rfl⟩⟩

/-- MULTI module `k` has been called in its turn: what it answered is in hand, and so is what was
among its outputs before. -/
theorem Account.answered {k : Nat} {mi mi' : ModuleInfo} {outs : List Resource}
    {t t' : Thread (Traced σ)} (h : Account p [] none (some k) t) (hMi : t.mis[k]? = some mi)
    (hMis : t'.mis = t.mis) (hLog : t'.log = t.log)
    {a : MultiAnswer} {s : σ} (hOuts : a.outputResources = outs)
    (hCalls : t'.world.calls = t.world.calls ++ [.multi k mi a s])
    (hPending : t'.outputFilterResource = t.outputFilterResource)
    (hInputs : ∀ r ∈ mi'.inputResources, r.skip = false) (hEmpty : mi'.outputResources = [])
    (hKept : ∀ r ∈ mi.outputResources, r ∈ outs) (next : Option Nat) :
    Account p outs (some k) next (t'.setModule k mi') := by
  have hSet : (t'.setModule k mi').mis = t.mis.set k mi' := congrArg (List.set · k mi') hMis
  have hAt : ∀ {j : Nat} {x : ModuleInfo}, (t'.setModule k mi').mis[j]? = some x →
      (j = k ∧ x = mi') ∨ (j ≠ k ∧ t.mis[j]? = some x) := by
    intro j x hx
    rw [hSet, List.getElem?_set] at hx
    by_cases hSame : k = j
    · rw [if_pos hSame, if_pos (hSame ▸ (List.getElem?_eq_some_iff.mp hMi).1)] at hx
      exact .inl ⟨hSame.symm, (Option.some.inj hx).symm⟩
    · rw [if_neg hSame] at hx
      exact .inr ⟨fun hEq => hSame hEq.symm, hx⟩
  refine ⟨?_, ?_, ?_, ?_, ?_⟩
  · rw [hSet, List.length_set]
    exact h.length
  · show ∀ c ∈ t'.world.calls, _
    rw [hCalls]
    intro c hc r hr
    rcases List.mem_append.mp hc with hc | hc
    · exact h.notGiven c hc r hr
    · rw [List.mem_singleton.mp hc] at hr
      exact h.inputs k mi hMi r hr
  · intro j x hx r hr
    rcases hAt hx with ⟨-, rfl⟩ | ⟨-, hOld⟩
    · exact hInputs r hr
    · exact h.inputs j x hOld r hr
  · show ∀ c ∈ t'.world.calls, _
    rw [hCalls, show (t'.setModule k mi').log = t.log from hLog, hSet]
    intro c hc r hr hSkip hNot
    rcases List.mem_append.mp hc with hc | hc
    · rcases h.placed c hc r hr hSkip hNot with hNone | hSettled | ⟨j, x, -, hx, hWaits⟩
      · exact absurd hNone List.not_mem_nil
      · exact .inr (.inl hSettled)
      · by_cases hSame : j = k
        · subst hSame
          obtain rfl := Option.some.inj (hMi.symm.trans hx)
          exact .inl (hKept r hWaits)
        · refine .inr (.inr ⟨j, x, fun hEq => hSame (Option.some.inj hEq), ?_, hWaits⟩)
          rw [List.getElem?_set, if_neg fun hEq => hSame hEq.symm]
          exact hx
    · rw [List.mem_singleton.mp hc] at hr
      exact .inl (hOuts ▸ hr)
  · intro j x hx hNe
    rcases hAt hx with ⟨-, rfl⟩ | ⟨hNot, hOld⟩
    · exact absurd hEmpty hNe
    · obtain ⟨hMulti, -, ⟨hLast, hRefused⟩ | hTurn⟩ := h.outputs j x hOld hNe
      · exact ⟨hMulti, fun hEq => hNot (Option.some.inj hEq), .inl ⟨hLast, hPending ▸ hRefused⟩⟩
      · exact absurd (Option.some.inj hTurn) hNot

/-- The call of `ProcessMulti`: its outputs are in hand. -/
theorem callMulti_account {k : Nat} {mi : ModuleInfo} {a : MultiAnswer} {t t' : Thread (Traced σ)}
    (hMi : t.mis[k]? = some mi) (h : Account p [] none (some k) t)
    (hCall : callMulti w.traced p k mi t = .ok (a, t'))
    (hLate : ∀ c ∈ t'.world.calls, c.Late p) (next : Option Nat) :
    Account p a.outputResources (some k) next t' := by
  obtain ⟨s, hCalls⟩ := callMulti_calls hCall
  obtain ⟨hInputs, hKept⟩ : (∀ r ∈ a.inputResources, r.skip = false) ∧
      ∀ r ∈ mi.outputResources, r ∈ a.outputResources := by
    refine hLate (.multi k mi a s) ?_
    rw [hCalls]
    exact List.mem_append_right _ List.mem_cons_self
  obtain ⟨ans, t₁, hAsk⟩ : ∃ ans t₁, t.call (w.traced.processMulti k mi) = (ans, t₁) := ⟨_, _, rfl⟩
  rw [callMulti, hAsk] at hCall
  dsimp only at hCall
  split at hCall
  · exact absurd hCall (by simp)
  obtain ⟨rfl, rfl⟩ := Prod.mk.inj (Except.ok.inj hCall)
  have hAnswered : Account p ans.outputResources (some k) next (t₁.setModule k { mi with
      inputResources := ans.inputResources, outputResources := []
      inside := ans.inside, processingResources := ans.processingResources }) := by
    obtain ⟨rfl, rfl⟩ := Prod.mk.inj hAsk
    refine h.answered (s := (w.processMulti k mi t.world.state).2) hMi ?_ ?_ rfl ?_ ?_ hInputs rfl
      hKept next
    all_goals rfl
  have hEmitted := hAnswered.emit (.created ans.created)
  split
  · exact hEmitted.congr rfl rfl rfl rfl
  · exact (hEmitted.emit _).congr rfl rfl rfl rfl

/-- What the output loop did not get to goes back to the module's outputs. -/
theorem Account.putBack {rest : List Resource} {k : Nat} {t : Thread (Traced σ)}
    (h : Account p rest (some k) (p.nextMultiModuleIndex (k + 1)) t)
    (hMulti : p.types[k]? = some .multi)
    (hRest : rest ≠ [] →
      p.nextMultiModuleIndex (k + 1) = none ∧ t.outputFilterResource.isSome = true) :
    Account p [] none (p.nextMultiModuleIndex (k + 1))
      { t with mis := t.mis.modify k fun mi => { mi with outputResources := rest } } := by
  obtain ⟨mi, hMi⟩ := h.module_at hMulti
  refine h.modify rfl rfl rfl rfl (h.inputs k) ?_ ?_ ?_ ?_ (fun _ _ hEq => hEq)
  · intro r hr _
    exact .inr ⟨by simp, mi, hMi, hr⟩
  · intro j hEq
    exact absurd hEq (by simp)
  · intro hNe
    exact absurd rfl hNe
  · intro mi' _ hNe
    exact ⟨hMulti, by simp, .inl (hRest hNe)⟩

/-- **The loop over the MULTI modules.** Outputs are handed on from one to the next, so that at
its end they are behind the last one only. -/
theorem multiLoop_account (hAccepted : p.checkModules = true) : ∀ (passes : Nat)
    (index : Option Nat) (round round' : Round) (flow : Flow) (t t' : Thread (Traced σ)),
    (∀ c ∈ t'.world.calls, c.Late p) →
    (∀ k, index = some k → p.types[k]? = some .multi ∧ p.types.length < passes + k) →
    Account p [] none index t →
    multiLoop w.traced p fuel passes index round t = .ok (flow, round', t') →
    Account p [] none none t' := by
  intro passes
  induction passes with
  | zero =>
    intro index round round' flow t t' hLate hPasses h hLoop
    cases index with
    | none =>
      rw [← (Prod.mk.inj (Prod.mk.inj (Except.ok.inj hLoop)).2).2]
      exact h
    | some k =>
      obtain ⟨hMulti, hLeft⟩ := hPasses k rfl
      -- the passes are enough for the modules that are left
      obtain ⟨hLt, -⟩ := List.getElem?_eq_some_iff.mp hMulti
      omega
  | succ passes ih =>
    intro index round round' flow t t' hLate hPasses h hLoop
    cases index with
    | none =>
      rw [← (Prod.mk.inj (Prod.mk.inj (Except.ok.inj hLoop)).2).2]
      exact h
    | some k =>
      obtain ⟨hMulti, hLeft⟩ := hPasses k rfl
      rw [multiLoop] at hLoop
      cases hMi : t.mis[k]? with
      | none =>
        rw [hMi] at hLoop
        exact absurd hLoop (by simp)
      | some mi =>
        rw [hMi] at hLoop
        dsimp only at hLoop
        cases hCall : callMulti w.traced p k mi t with
        | error e =>
          rw [hCall] at hLoop
          exact absurd hLoop (by simp)
        | ok result =>
          obtain ⟨a, t₁⟩ := result
          rw [hCall] at hLoop
          dsimp only at hLoop
          cases hOut : outputLoop w.traced p fuel k (p.nextMultiModuleIndex (k + 1))
              a.outputResources 0 t₁ with
          | error e =>
            rw [hOut] at hLoop
            exact absurd hLoop (by simp)
          | ok result =>
            obtain ⟨rest, queued, t₂⟩ := result
            rw [hOut] at hLoop
            dsimp only at hLoop
            -- the calls of this pass are among those of the whole loop, so they are late
            have hGrows : t₂.world.calls <+: t'.world.calls := by
              split at hLoop
              · have hRest := multiLoop_grows hLoop
                exact hRest
              · split at hLoop
                · rw [← (Prod.mk.inj (Prod.mk.inj (Except.ok.inj hLoop)).2).2]
                · split at hLoop
                  · exact absurd hLoop (by simp)
                  · have hRest := multiLoop_grows hLoop
                    exact hRest
            have hBefore : ∀ c ∈ t₁.world.calls, c.Late p := fun c hc =>
              hLate c (((outputLoop_between hOut).grows.trans hGrows).subset hc)
            have hCalled := callMulti_account hMi h hCall hBefore (p.nextMultiModuleIndex (k + 1))
            obtain ⟨hEmptied, hRest⟩ :=
              outputLoop_account hAccepted hMulti rfl _ rest 0 queued t₁ t₂ hCalled hOut
            have hBack := hEmptied.putBack hMulti hRest
            have hNext : ∀ k', p.nextMultiModuleIndex (k + 1) = some k' →
                p.types[k']? = some .multi ∧ p.types.length < passes + k' := by
              intro k' hk'
              obtain ⟨hLe, -⟩ := nextMultiModuleIndex_spec hk'
              exact ⟨nextMultiModuleIndex_multi hk', by omega⟩
            -- all outputs are handed on, or some wait for the next pass
            by_cases hEmpty : rest = []
            · rw [if_pos hEmpty] at hLoop
              exact ih _ _ round' flow _ t' hLate hNext hBack hLoop
            · rw [if_neg hEmpty] at hLoop
              split at hLoop
              · rw [(hRest hEmpty).1] at hBack
                rw [← (Prod.mk.inj (Prod.mk.inj (Except.ok.inj hLoop)).2).2]
                exact hBack
              · split at hLoop
                · exact absurd hLoop (by simp)
                · exact ih _ _ round' flow _ t' hLate hNext hBack hLoop

-- ---------------------------------------------------------------------------
-- The reading loop
-- ---------------------------------------------------------------------------

theorem fetchInput_answer (i : Nat) (sleep : Bool) (r : Resource) : ∀ (fuel : Nat)
    (t t' : Thread (Traced σ)), fetchInput w.traced i sleep fuel t = .ok (some r, t') →
    r.deleted = false ∧ .read r ∈ t'.world.calls := by
  intro fuel
  induction fuel with
  | zero =>
    intro t t' hFetch
    exact absurd hFetch (by simp [fetchInput])
  | succ fuel ih =>
    intro t t' hFetch
    rw [fetchInput] at hFetch
    obtain ⟨got, t₁, hCall⟩ : ∃ got t₁, t.call (w.traced.processInput i sleep) = (got, t₁) :=
      ⟨_, _, rfl⟩
    have hCalls : t₁.world.calls = t.world.calls ++ got.toList.map .read := by
      obtain ⟨rfl, rfl⟩ := Prod.mk.inj hCall
      rfl
    rw [hCall] at hFetch
    cases got with
    | none => exact absurd hFetch (by simp)
    | some r' =>
      dsimp only at hFetch
      split at hFetch
      · exact ih _ t' hFetch
      · next hDeleted =>
        obtain ⟨hSame, rfl⟩ := Prod.mk.inj (Except.ok.inj hFetch)
        obtain rfl := Option.some.inj hSame
        refine ⟨Bool.eq_false_iff.mpr hDeleted, ?_⟩
        show _ ∈ t₁.world.calls
        rw [hCalls]
        exact List.mem_append_right _ List.mem_cons_self

theorem types_in_front {k j : Nat} (hFirst : p.nextMultiModuleIndex 0 = some k) (hLt : j < k) :
    ∃ type, p.types[j]? = some type ∧ type ≠ .multi := by
  obtain ⟨i, hi, rfl⟩ := Option.map_eq_some_iff.mp hFirst
  rw [List.drop_zero] at hi
  obtain ⟨hLength, -, hBefore⟩ := List.findIdx?_eq_some_iff_getElem.mp hi
  have hNot := hBefore j (by omega)
  refine ⟨_, List.getElem?_eq_getElem (by omega), ?_⟩
  intro hMulti
  exact hNot (decide_eq_true hMulti)

/-- What is in hand before module `index`, in front of the first MULTI module `k`: one with SKIP is
deleted, and there is a module that sees that. -/
def Seen (p : Processor) (k index : Nat) (o : Option Resource) : Prop :=
  ∀ r, o = some r → r.skip = true →
    r.deleted = true ∧ ∃ type ∈ (p.types.take k).drop index, type ≠ .invalid

/-- What comes through the modules in front of the first MULTI module has no flag. The number
`d` of modules up to there goes down. -/
theorem applyModules_front {k : Nat} (hFirst : p.nextMultiModuleIndex 0 = some k) (sleep : Bool) :
    ∀ (d index : Nat) (o o' : Option Resource) (stop : Bool) (t t' : Thread (Traced σ)),
    (∀ c ∈ t'.world.calls, c.Late p) → index + d = k → Seen p k index o →
    applyModules w.traced p fuel sleep (p.modulesFrom index) o t = .ok (o', stop, t') →
    ∀ r, o' = some r → r.skip = false := by
  intro d
  induction d with
  | zero =>
    intro index o o' stop t t' _ hIndex hSeen hApply r hr
    rw [Nat.add_zero] at hIndex
    rw [modulesFrom_cons (hIndex ▸ nextMultiModuleIndex_multi hFirst), applyModules] at hApply
    rw [← (Prod.mk.inj (Except.ok.inj hApply)).1] at hr
    by_contra hSkip
    obtain ⟨-, type, hMem, -⟩ := hSeen r hr (Bool.eq_true_of_not_eq_false hSkip)
    rw [hIndex, List.drop_take_self] at hMem
    exact absurd hMem List.not_mem_nil
  | succ d ih =>
    intro index o o' stop t t' hLate hIndex hSeen hApply
    have hLt : index < k := by omega
    obtain ⟨type, hType, hMulti⟩ := types_in_front hFirst hLt
    have hRest := fun o t => ih (index + 1) o o' stop t t' hLate (by omega)
    have hDrop : (p.types.take k).drop index = type :: (p.types.take k).drop (index + 1) := by
      refine List.drop_eq_getElem?_toList_append.trans ?_
      rw [List.getElem?_take_of_lt hLt, hType]
      rfl
    -- a resource that the module has let through
    have hNoFlag : ∀ {r : Resource}, r.deleted = false → (r.skip = true → r.deleted = true) →
        Seen p k (index + 1) (some r) := by
      rintro r hKept hNot _ ⟨⟩ hSkip
      rw [hNot hSkip] at hKept
      exact absurd hKept (by decide)
    have hNothing : ∀ {i : Nat}, Seen p k i none := by
      intro i r hr
      exact absurd hr (by simp)
    rw [modulesFrom_cons hType] at hApply
    cases type with
    | multi => exact absurd rfl hMulti
    | invalid =>
      refine hRest o t ?_ hApply
      intro r hr hSkip
      obtain ⟨hDeleted, type, hMem, hValid⟩ := hSeen r hr hSkip
      rw [hDrop] at hMem
      exact ⟨hDeleted, type, (List.mem_cons.mp hMem).resolve_left hValid, hValid⟩
    | input =>
      rw [applyModules] at hApply
      split at hApply
      · exact absurd hApply (by simp)
      · rcases hFetch : fetchInput w.traced index sleep fuel t with e | ⟨_ | r, t₁⟩
        · rw [hFetch] at hApply
          exact absurd hApply (by simp)
        · rw [hFetch] at hApply
          rw [← (Prod.mk.inj (Except.ok.inj hApply)).1]
          intro r hr
          exact absurd hr (by simp)
        · rw [hFetch] at hApply
          obtain ⟨hKept, hRead⟩ := fetchInput_answer index sleep r fuel t t₁ hFetch
          have hIn : .read r ∈ t'.world.calls := (applyModules_untouched hApply).grows.subset hRead
          exact hRest (some r) _ (hNoFlag hKept fun hSkip => (hLate _ hIn k hFirst hSkip).1) hApply
    | output =>
      cases o with
      | none => exact absurd hApply (by simp [applyModules])
      | some r =>
        rw [applyModules] at hApply
        exact hRest none _ hNothing hApply
    | simple =>
      cases o with
      | none => exact absurd hApply (by simp [applyModules])
      | some r =>
        have hLost : ∀ {x : Option Resource}, none = x → ∀ r, x = some r → r.skip = false := by
          rintro _ rfl r hr
          exact absurd hr (by simp)
        rw [applyModules] at hApply
        by_cases hSkip : r.skip = true
        · -- a deleted resource goes no further
          rw [if_pos hSkip] at hApply
          dsimp only at hApply
          rw [if_pos (hSeen r rfl hSkip).1] at hApply
          exact hLost (Prod.mk.inj (Except.ok.inj hApply)).1
        · rw [if_neg hSkip] at hApply
          obtain ⟨answer, t₁, hCall⟩ : ∃ answer t₁,
              (t.emit (.simple index r)).call (w.traced.processSimple index r) = (answer, t₁) :=
            ⟨_, _, rfl⟩
          have hCalls : .simple index r answer ∈ t₁.world.calls := by
            obtain ⟨rfl, rfl⟩ := Prod.mk.inj hCall
            exact List.mem_append_right _ List.mem_cons_self
          rw [hCall] at hApply
          cases answer with
          | none => exact hLost (Prod.mk.inj (Except.ok.inj hApply)).1
          | some r' =>
            dsimp only at hApply
            split at hApply
            · exact hLost (Prod.mk.inj (Except.ok.inj hApply)).1
            · next hDeleted =>
              have hIn := (applyModules_untouched hApply).grows.subset hCalls
              exact hRest (some r') t₁
                (hNoFlag (Bool.eq_false_iff.mpr hDeleted) (hLate _ hIn k hFirst hLt r' rfl)) hApply

/-- The input part in front of an INPUT module: nothing in hand. -/
theorem readResource_account_input {read : Int} {flow : Flow} {got : Option Read}
    {t t' : Thread (Traced σ)} (h : Account p hand emptied turn t)
    (hRead : readResource w.traced p .input read t = ((flow, got), t')) :
    Account p hand emptied turn t' ∧ ∀ g, got = some g → g.resource = none := by
  simp only [readResource, ne_eq, not_true_eq_false, if_false] at hRead
  have hAsk : Account p hand emptied turn (t.call w.traced.pauseInput).2 := h.ask _
  obtain ⟨paused, t₁, hPause⟩ : ∃ paused t₁, t.call w.traced.pauseInput = (paused, t₁) :=
    ⟨_, _, rfl⟩
  rw [hPause] at hRead hAsk
  cases paused with
  | false =>
    obtain ⟨⟨rfl, rfl⟩, rfl⟩ := hRead
    exact ⟨hAsk, by rintro g ⟨⟩; rfl⟩
  | true =>
    by_cases hBlock : t₁.block = true
    · have hAwaits : Account p hand emptied turn (t₁.call w.traced.awaitInput).2 := hAsk.ask _
      obtain ⟨goOn, t₂, hAwait⟩ : ∃ goOn t₂, t₁.call w.traced.awaitInput = (goOn, t₂) := ⟨_, _, rfl⟩
      rw [hAwait] at hAwaits
      simp only [if_true, hBlock, hAwait] at hRead
      cases goOn with
      | true =>
        obtain ⟨⟨rfl, rfl⟩, rfl⟩ := hRead
        exact ⟨hAwaits, by rintro g ⟨⟩; rfl⟩
      | false =>
        obtain ⟨⟨rfl, rfl⟩, rfl⟩ := hRead
        exact ⟨hAwaits, fun g hg => absurd hg (by simp)⟩
    · simp only [if_true, hBlock] at hRead
      obtain ⟨⟨rfl, rfl⟩, rfl⟩ := hRead
      exact ⟨hAsk, fun g hg => absurd hg (by simp)⟩

/-- A thread that tells the engine when it waits. -/
theorem Account.emitIf {t : Thread (Traced σ)} (h : Account p hand emptied turn t) (b : Bool)
    (e : Event) : Account p hand emptied turn (if b = true then t.emit e else t) := by
  split
  · exact h.emit e
  · exact h

/-- The input part without an INPUT module: what the queue gave. -/
theorem readResource_account_queue {first : ModuleType} (hFirst : first ≠ .input) {read : Int}
    {flow : Flow} {got : Option Read} {t t' : Thread (Traced σ)} (h : Account p hand emptied turn t)
    (hRead : readResource w.traced p first read t = ((flow, got), t')) :
    Account p ((got.bind Read.resource).toList ++ hand) emptied turn t' ∧
      ∀ g, got = some g → ∀ r, g.resource = some r → .read r ∈ t'.world.calls := by
  simp only [readResource, ne_eq, hFirst, not_false_eq_true, if_true] at hRead
  generalize hWait : (t.block && read == 0) = wait at hRead
  have hSleep := h.emitIf (p.batch && wait) (.updateSleeping 1)
  generalize (if (p.batch && wait) = true then t.emit (.updateSleeping 1) else t) = t₁
    at hRead hSleep
  obtain ⟨resource, t₂, hGet⟩ : ∃ resource t₂, t₁.call (w.traced.getItem wait) = (resource, t₂) :=
    ⟨_, _, rfl⟩
  obtain ⟨hRead₂, hCalls₂⟩ : Account p (resource.toList ++ hand) emptied turn t₂ ∧
      t₂.world.calls = t₁.world.calls ++ resource.toList.map .read := by
    obtain ⟨rfl, rfl⟩ := Prod.mk.inj hGet
    exact ⟨hSleep.read (w.getItem wait), rfl⟩
  rw [hGet] at hRead
  dsimp only at hRead
  have hWake := hRead₂.emitIf (p.batch && wait) (.updateSleeping (-1))
  have hCalls₃ :
      (if (p.batch && wait) = true then t₂.emit (.updateSleeping (-1)) else t₂).world.calls =
      t₂.world.calls := by
    split <;> rfl
  generalize (if (p.batch && wait) = true then t₂.emit (.updateSleeping (-1)) else t₂) = t₃
    at hRead hWake hCalls₃
  cases resource with
  | none =>
    obtain ⟨hGot, rfl⟩ := Prod.mk.inj hRead
    rw [← (Prod.mk.inj hGot).2]
    exact ⟨hWake, fun g hg => absurd hg (by simp)⟩
  | some r =>
    have hIn : .read r ∈ t₃.world.calls := by
      rw [hCalls₃, hCalls₂]
      exact List.mem_append_right _ List.mem_cons_self
    obtain ⟨hGot, rfl⟩ := Prod.mk.inj hRead
    rw [← (Prod.mk.inj hGot).2]
    refine ⟨?_, ?_⟩
    · split
      · exact (hWake.emit _).emit _
      · exact hWake.emit _
    · rintro g ⟨⟩ r' ⟨⟩
      split <;> exact hIn

/-- The input part: nothing in hand for an INPUT module, otherwise what the queue gave. -/
theorem readResource_account {first : ModuleType} {read : Int} {flow : Flow} {got : Option Read}
    {t t' : Thread (Traced σ)} (h : Account p hand emptied turn t)
    (hRead : readResource w.traced p first read t = ((flow, got), t')) :
    Account p ((got.bind Read.resource).toList ++ hand) emptied turn t' ∧ ∀ g, got = some g →
      (first = .input → g.resource = none) ∧
      ∀ r, g.resource = some r → .read r ∈ t'.world.calls := by
  by_cases hFirst : first = .input
  · subst hFirst
    obtain ⟨hAccount, hNothing⟩ := readResource_account_input h hRead
    have hNone : got.bind Read.resource = none := by
      cases got with
      | none => rfl
      | some g => exact hNothing g rfl
    rw [hNone]
    refine ⟨hAccount, fun g hg => ⟨fun _ => hNothing g hg, ?_⟩⟩
    intro r hr
    rw [hNothing g hg] at hr
    exact absurd hr (by simp)
  · obtain ⟨hAccount, hGave⟩ := readResource_account_queue hFirst h hRead
    exact ⟨hAccount, fun g hg => ⟨fun hIn => absurd hIn hFirst, hGave g hg⟩⟩

/-- `ApplyModules` from the first module on. -/
theorem applyModules_account_first (hAccepted : p.checkModules = true) {first : ModuleType}
    (hHead : p.types.head? = some first) (sleep : Bool) {o o' : Option Resource} {stop : Bool}
    {t t' : Thread (Traced σ)} (hNothing : first = .input → o = none)
    (h : Account p (o.toList ++ hand) emptied turn t)
    (hApply : applyModules w.traced p fuel sleep (p.modulesFrom 0) o t = .ok (o', stop, t')) :
    Account p (o'.toList ++ hand) emptied turn t' := by
  by_cases hFirst : first = .input
  · obtain rfl := hNothing hFirst
    rw [modulesFrom_cons (List.head?_eq_getElem? ▸ hFirst ▸ hHead), applyModules] at hApply
    split at hApply
    · exact absurd hApply (by simp)
    · rcases hFetch : fetchInput w.traced 0 sleep fuel t with e | ⟨_ | r, t₁⟩
      · rw [hFetch] at hApply
        exact absurd hApply (by simp)
      · rw [hFetch] at hApply
        obtain ⟨rfl, hRest⟩ := Prod.mk.inj (Except.ok.inj hApply)
        rw [← (Prod.mk.inj hRest).2]
        exact fetchInput_account 0 sleep fuel t t₁ none h hFetch
      · rw [hFetch] at hApply
        have hFetched := fetchInput_account 0 sleep fuel t t₁ (some r) h hFetch
        exact applyModules_account sleep (some r) o' stop _ t'
          (modulesFrom_no_input hAccepted fun hZero => absurd hZero (by decide))
          (hFetched.emit _) hApply
  · refine applyModules_account sleep o o' stop t t' (modulesFrom_no_input hAccepted ?_) h hApply
    intro _ hIn
    exact hFirst (Option.some.inj (hHead.symm.trans hIn))

/-- What the queue gave is seen to by the modules in front of the first MULTI module. -/
theorem seen_of_read {k : Nat} (hFirst : p.nextMultiModuleIndex 0 = some k) {o : Option Resource}
    (hRead : ∀ r, o = some r → (ModuleCall.read r : ModuleCall σ).Late p) : Seen p k 0 o := by
  intro r hr hSkip
  exact hRead r hr k hFirst hSkip

/-- **The reading loop** puts no resource with SKIP in front of the first MULTI module. -/
theorem readLoop_account (hAccepted : p.checkModules = true) :
    ∀ (passes : Nat) (read : Int) (flow : Flow) (t t' : Thread (Traced σ)),
    (∀ c ∈ t'.world.calls, c.Late p) → Account p [] none none t →
    readLoop w.traced p fuel (p.nextMultiModuleIndex 0) passes read t = .ok (flow, t') →
    Account p [] none none t' := by
  intro passes
  induction passes with
  | zero =>
    intro read flow t t' _ h hLoop
    rw [← (Prod.mk.inj (Except.ok.inj hLoop)).2]
    exact h
  | succ passes ih =>
    intro read flow t t' hLate h hLoop
    rw [readLoop] at hLoop
    split at hLoop
    · rw [← (Prod.mk.inj (Except.ok.inj hLoop)).2]
      exact h
    · cases hHead : p.types.head? with
      | none =>
        rw [hHead] at hLoop
        exact absurd hLoop (by simp)
      | some first =>
        rw [hHead] at hLoop
        dsimp only at hLoop
        rcases hRead : readResource w.traced p first read t with ⟨⟨flow', _ | got⟩, t₁⟩
        · rw [hRead] at hLoop
          rw [← (Prod.mk.inj (Except.ok.inj hLoop)).2]
          exact (readResource_account h hRead).1
        · obtain ⟨hGot, hNothing⟩ := readResource_account h hRead
          obtain ⟨hInput, hQueue⟩ := hNothing got rfl
          rw [hRead] at hLoop
          dsimp only at hLoop
          have hHand : Account p (got.resource.toList ++ []) none none t₁ := hGot
          rcases hApply : applyModules w.traced p fuel (t₁.block && got.resourcesRead == 0)
            (p.modulesFrom 0) got.resource t₁ with e | ⟨_ | r, stop, t₂⟩
          · rw [hApply] at hLoop
            exact absurd hLoop (by simp)
          · rw [hApply] at hLoop
            rw [← (Prod.mk.inj (Except.ok.inj hLoop)).2]
            exact applyModules_account_first hAccepted hHead _ hInput hHand hApply
          · have hApplied := applyModules_account_first hAccepted hHead _ hInput hHand hApply
            rw [hApply] at hLoop
            dsimp only at hLoop
            cases hFirst : p.nextMultiModuleIndex 0 with
            | some k =>
              rw [hFirst] at hLoop ih
              have hRest := (readLoop_untouched hLoop).grows
              have hBefore : ∀ c ∈ t₂.world.calls, c.Late p := fun c hc => hLate c (hRest.subset hc)
              have hSeen : Seen p k 0 got.resource := seen_of_read hFirst fun r' hr' =>
                hBefore _ ((applyModules_untouched hApply).grows.subset (hQueue r' hr'))
              have hNo := applyModules_front hFirst _ k 0 got.resource (some r) stop t₁ t₂ hBefore
                (Nat.zero_add k) hSeen hApply r rfl
              exact ih _ flow _ t' hLate (Account.pushInput hApplied hNo k) hLoop
            | none =>
              rw [hFirst] at hLoop ih
              dsimp only at hLoop
              obtain ⟨ok, index, t₃, hCall⟩ : ∃ ok index t₃,
                queueResource w.traced p r true none t₂ = (ok, index, t₃) := ⟨_, _, _, rfl⟩
              have hQueued := queueResource_account hApplied hCall
              rw [hCall] at hLoop
              cases ok with
              | false =>
                rw [← (Prod.mk.inj (Except.ok.inj hLoop)).2]
                exact hQueued
              | true =>
                have hReset : Account p [] none none { t₃ with outputFilterIndex := 0 } :=
                  hQueued.congr rfl rfl rfl rfl
                exact ih _ flow _ t' hLate hReset hLoop

-- ---------------------------------------------------------------------------
-- The thread
-- ---------------------------------------------------------------------------

theorem flushDeleted_account : ∀ (rs : List Resource) (t : Thread (Traced σ)),
    Account p hand emptied turn t → Account p hand emptied turn (flushDeleted w.traced p rs t) := by
  intro rs
  induction rs with
  | nil =>
    intro t h
    exact h.congr rfl rfl rfl rfl
  | cons r rs ih =>
    intro t h
    rw [flushDeleted]
    cases p.engineOutputQueue with
    | none => exact ih _ ((h.emit _).emit _)
    | some queue =>
      have hPut : Account p hand emptied turn (t.call (w.traced.putItem queue 0 r false)).2 :=
        h.ask _
      obtain ⟨accepted, t₁, hCall⟩ : ∃ accepted t₁,
          t.call (w.traced.putItem queue 0 r false) = (accepted, t₁) := ⟨_, _, rfl⟩
      rw [hCall] at hPut
      dsimp only
      rw [hCall]
      cases accepted with
      | true => exact ih _ ((hPut.emit _).emit _)
      | false => exact hPut.congr rfl rfl rfl rfl

/-- **One iteration**, whether it runs through or the thread returns. -/
theorem iteration_account (hAccepted : p.checkModules = true) {flow : Flow}
    {t t' : Thread (Traced σ)} (hLate : ∀ c ∈ t'.world.calls, c.Late p)
    (h : Account p [] none none t) (hIteration : iteration w.traced p fuel t = .ok (flow, t')) :
    Account p [] none none t' := by
  rw [iteration] at hIteration
  rcases hRead : readLoop w.traced p fuel (p.nextMultiModuleIndex 0) t.readMax.toNat 0 t with
    e | ⟨_ | _, t₁⟩
  · rw [hRead] at hIteration
    exact absurd hIteration (by simp)
  · have hTurn : (∀ c ∈ t₁.world.calls, c.Late p) →
        Account p [] none (p.nextMultiModuleIndex 0) { t₁ with block := true } := by
      intro hBefore
      have hAfter := readLoop_account hAccepted _ 0 .next t t₁ hBefore h hRead
      exact ⟨hAfter.length, hAfter.notGiven, hAfter.inputs, hAfter.placed, fun j mi hMi hOut =>
        (hAfter.outputs j mi hMi hOut).imp id (And.imp id (Or.imp id fun hNone =>
          absurd hNone (by simp)))⟩
    have hPasses : ∀ k, p.nextMultiModuleIndex 0 = some k →
        p.types[k]? = some .multi ∧ p.types.length < p.types.length + 1 + k := by
      intro k hk
      exact ⟨nextMultiModuleIndex_multi hk, by omega⟩
    have hLoop : ∀ {round round' : Round} {flow : Flow} {t₂ : Thread (Traced σ)},
        multiLoop w.traced p fuel (p.types.length + 1) (p.nextMultiModuleIndex 0) round
          { t₁ with block := true } = .ok (flow, round', t₂) →
        (∀ c ∈ t₂.world.calls, c.Late p) → Account p [] none none t₂ := by
      intro round round' flow t₂ hMulti hAll
      have hGrows := multiLoop_grows hMulti
      exact multiLoop_account hAccepted _ _ _ _ _ _ _ hAll hPasses
        (hTurn fun c hc => hAll c (hGrows.subset hc)) hMulti
    rw [hRead] at hIteration
    dsimp only at hIteration
    split at hIteration
    · exact absurd hIteration (by simp)
    · next hMulti =>
      obtain ⟨-, rfl⟩ := Prod.mk.inj (Except.ok.inj hIteration)
      exact hLoop hMulti hLate
    · next hMulti =>
      obtain ⟨-, rfl⟩ := Prod.mk.inj (Except.ok.inj hIteration)
      refine flushDeleted_account _ _ ((hLoop hMulti fun c hc => hLate c ?_).congr rfl rfl rfl rfl)
      exact (flushDeleted_untouched _ _).grows.subset hc
  · rw [hRead] at hIteration
    obtain ⟨-, rfl⟩ := Prod.mk.inj (Except.ok.inj hIteration)
    exact readLoop_account hAccepted _ 0 .returned t _ hLate h hRead

/-- **A whole run.** -/
theorem runThread_account (hAccepted : p.checkModules = true) : ∀ (n : Nat)
    (t t' : Thread (Traced σ)), (∀ c ∈ t'.world.calls, c.Late p) → Account p [] none none t →
    runThread w.traced p fuel n t = some t' → Account p [] none none t' := by
  intro n
  induction n with
  | zero =>
    intro t t' _ h hRun
    rw [← Option.some.inj hRun]
    exact h
  | succ n ih =>
    intro t t' hLate h hRun
    rw [runThread] at hRun
    have hAsk : Account p [] none none (t.call w.traced.isRunning).2 := h.ask _
    obtain ⟨goOn, t₁, hCall⟩ : ∃ goOn t₁, t.call w.traced.isRunning = (goOn, t₁) := ⟨_, _, rfl⟩
    rw [hCall] at hRun hAsk
    cases goOn with
    | false => exact absurd hRun (by simp)
    | true =>
      dsimp only at hRun
      rcases hIter : iteration w.traced p fuel t₁ with e | ⟨_ | _, t₂⟩
      · rw [hIter] at hRun
        exact absurd hRun (by simp)
      · rw [hIter] at hRun
        have hBefore : ∀ c ∈ t₂.world.calls, c.Late p := fun c hc =>
          hLate c ((runThread_grows hRun).subset hc)
        exact ih t₂ t' hLate (iteration_account hAccepted hBefore hAsk hIter) hRun
      · rw [hIter] at hRun
        exact absurd hRun (by simp)

theorem account_start (s : σ) : Account p [] none none (Thread.start p (⟨s, []⟩ : Traced σ)) := by
  have hNew : ∀ {j : Nat} {mi : ModuleInfo}, (p.types.map ModuleInfo.new)[j]? = some mi →
      mi.inputResources = [] ∧ mi.outputResources = [] := by
    intro j mi hMi
    rw [List.getElem?_map] at hMi
    obtain ⟨type, -, rfl⟩ := Option.map_eq_some_iff.mp hMi
    exact ⟨rfl, rfl⟩
  refine ⟨List.length_map _, ?_, ?_, ?_, ?_⟩
  · intro c hc
    exact absurd hc List.not_mem_nil
  · intro j mi hMi r hr
    rw [(hNew hMi).1] at hr
    exact absurd hr List.not_mem_nil
  · intro c hc
    exact absurd hc List.not_mem_nil
  · intro j mi hMi hNe
    exact absurd (hNew hMi).2 hNe

end Pieces

/-- **SKIP skips the rest of the processor**, in every run of an accepted processor: whenever the
thread ends an iteration or returns. It does if SKIP has come late in all calls of the run so far,
and no resource with SKIP was in hand when a pending one was refused again. -/
theorem skip_skips_rest (w : World σ) (p : Processor) (fuel : Nat) (s : σ) (flow : Flow)
    (t t' : Thread (Traced σ)) (hAccepted : p.checkModules = true)
    (hBegins : Begins w.traced p fuel (Traced.new s) t)
    (hIteration : iteration w.traced p fuel t = .ok (flow, t'))
    (hLate : ∀ c ∈ t'.world.calls, c.Late p)
    (hPending : ∀ pending r, .retryRefused pending r ∈ t'.log → r.skip = false) :
    SkipsRest p t' := by
  obtain ⟨n, t₀, hRun, hRunning⟩ := hBegins
  obtain ⟨-, rfl⟩ := Prod.mk.inj hRunning
  have hBefore : ∀ c ∈ t₀.world.calls, c.Late p := fun c hc =>
    hLate c ((iteration_grows hIteration).subset hc)
  have hReached := runThread_account hAccepted n _ t₀ hBefore (account_start s) hRun
  have h := iteration_account hAccepted hLate (hReached.ask w.isRunning) hIteration
  refine ⟨h.notGiven, ?_⟩
  intro c hc r hr hSkip hKept
  rcases h.placed c hc r hr hSkip hKept with
    hNone | ⟨e, he, hOffers | ⟨pending, rfl⟩⟩ | ⟨k, mi, -, hMi, hIn⟩
  · exact absurd hNone List.not_mem_nil
  · exact .inl ⟨e, he, hOffers⟩
  · exact absurd hSkip (by rw [hPending pending r he]; decide)
  · obtain ⟨-, -, hWaits⟩ := h.outputs k mi hMi (List.ne_nil_of_mem hIn)
    obtain ⟨hLast, hRefused⟩ := hWaits.resolve_right (by simp)
    exact .inr ⟨hRefused, k, mi, hMi, hLast, hIn⟩

-- ---------------------------------------------------------------------------
-- A SIMPLE and two MULTI modules
-- ---------------------------------------------------------------------------

/-- A SIMPLE module in front of two MULTI modules, and one behind them. -/
def simpleAndMultis : Processor :=
  { types := [.simple, .multi, .multi, .simple]
    outputFilters := [⟨0, true, 0, false, 2⟩]
    queuesCount := 1, inputQueue := 1, engineInputQueue := none, engineOutputQueue := none
    batch := false, ndebug := true }

/-- Module `marker` sets SKIP on every resource; the MULTI modules pass on what they get. -/
def marking (marker : Nat) : World Nat where
  isRunning s := (true, s)
  getItem _ s := (some ⟨s, s, 0, false, false⟩, s + 1)
  pauseInput s := (false, s)
  awaitInput s := (true, s)
  processInput _ _ s := (none, s)
  processOutput _ r s := (some r, s)
  processSimple i r s := (some { r with skip := r.skip || i == marker }, s)
  processMulti k mi s :=
    let outputs := mi.inputResources.map fun r => { r with skip := r.skip || k == marker }
    (⟨[], mi.outputResources ++ outputs, [], [], 1, 0, false⟩, s)
  putItem _ _ _ _ s := (true, s)
  clone r s := (r, s)

/-- The first MULTI module sets SKIP: in the first iteration the second one gets nothing, and
the resource is in the output queue. -/
theorem skip_skips_rest_multi :
    ∃ t', iteration (marking 1).traced simpleAndMultis 1
        (Thread.start simpleAndMultis (Traced.new 0)) = .ok (.next, t') ∧
      SkipsRest simpleAndMultis t' ∧ .routed 0 2 ⟨0, 0, 0, false, true⟩ ∈ t'.log ∧
      t'.world.calls.map (fun c => (c.given, c.answered)) =
        [([], [⟨0, 0, 0, false, false⟩]),
          ([⟨0, 0, 0, false, false⟩], [⟨0, 0, 0, false, false⟩]),
          ([⟨0, 0, 0, false, false⟩], [⟨0, 0, 0, false, true⟩]),
          ([], [⟨0, 0, 0, false, true⟩])] := by
  refine ⟨_, rfl, ?_, by decide, by decide⟩
  refine skip_skips_rest (marking 1) simpleAndMultis 1 0 .next _ _ (by decide) ⟨0, _, rfl, rfl⟩ rfl
    (by decide) ?_
  intro pending r hIn
  have hNone := (by decide : ∀ e ∈ _, Event.isRetryRefused e = false) _ hIn
  exact absurd hNone (by simp [Event.isRetryRefused])

/-- The SIMPLE module in front of it sets SKIP: the first MULTI module gets the resource. -/
theorem first_multi_gets_skipped_resource :
    ∃ t', iteration (marking 0).traced simpleAndMultis 1
        (Thread.start simpleAndMultis (Traced.new 0)) = .ok (.next, t') ∧
      (∃ c ∈ t'.world.calls, c.isMulti = true ∧ ⟨0, 0, 0, false, true⟩ ∈ c.given) ∧
      ¬ SkipsRest simpleAndMultis t' := by
  refine ⟨_, rfl, by decide, ?_⟩
  intro h
  have hGiven := h.notGiven
  revert hGiven
  decide

end HectorCore.Processing
