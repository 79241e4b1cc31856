import HectorCore.Processing.Accounting

/-!
# Conservation — where the resources of a worker thread are

A resource that the thread takes from its input must stay in one of the thread's places, or
be handed on once. The bookkeeping is a balance per address `x`: what is in the places, plus
what was handed on, plus what was forgotten, minus what was taken or made by a MULTI module.
It is an `Accounting` (`location`) together with the queues of the modules. Every piece of
the main loop moves the balance by what the thread has in hand, and at the end of an
iteration nothing is in hand.

* `runThread_balance`      — the balance is zero at the end of every iteration;
* `conserved_iff_no_retry_refused` — so nothing is lost or duplicated just when the loop
  never breaks off with a resource in hand.
-/

namespace HectorCore.Processing

variable {σ : Type}

-- ---------------------------------------------------------------------------
-- Counting
-- ---------------------------------------------------------------------------

/-- How often the resource at address `x` occurs. -/
def copies (x : Nat) (rs : List Resource) : Int := rs.countP (·.ptr = x)

@[simp] theorem copies_nil (x : Nat) : copies x [] = 0 := rfl

@[simp] theorem copies_append (x : Nat) (rs rs' : List Resource) :
    copies x (rs ++ rs') = copies x rs + copies x rs' := by
  simp [copies]

/-- The head is split off as a list, so that arithmetic sees one term per resource. -/
theorem copies_cons (x : Nat) (r : Resource) (rs : List Resource) :
    copies x (r :: rs) = copies x [r] + copies x rs := by
  rw [← List.singleton_append, copies_append]

theorem copies_nonneg (x : Nat) (rs : List Resource) : 0 ≤ copies x rs := by
  simp [copies]

/-- Only the address counts. -/
theorem copies_singleton_congr {x : Nat} {r r' : Resource} (hPtr : r'.ptr = r.ptr) :
    copies x [r'] = copies x [r] := by
  simp [copies, List.countP_cons, hPtr]

/-- All resources of a module: its two queues and what it holds itself. -/
def ModuleInfo.held (mi : ModuleInfo) : List Resource :=
  mi.inputResources ++ mi.outputResources ++ mi.inside

def heldByModules (mis : List ModuleInfo) : List Resource := mis.flatMap ModuleInfo.held

/-- Every place of the thread. -/
def Thread.places (t : Thread σ) : List Resource :=
  heldByModules t.mis ++ t.deletedResources ++ t.outputFilterResource.toList

/-- Taken from the input queue or the INPUT module. -/
def Event.taken : Event → List Resource
  | .dequeued _ r | .fetched r => [r]
  | _ => []

/-- Made by a MULTI module. -/
def Event.made : Event → List Resource
  | .created rs => rs
  | _ => []

/-- Queued downstream, consumed by the OUTPUT module, or released. -/
def Event.handed : Event → List Resource
  | .routed _ _ r | .consumed r | .released r | .flushed r => [r]
  | _ => []

/-- In hand when the output loop broke off at the pending resource. -/
def Event.forgotten : Event → List Resource
  | .retryRefused _ r => [r]
  | _ => []

/-- **No loss, no duplication.** Each resource occurs as often in the places and among what
was handed on as it came in. -/
def Conserved (t : Thread σ) : Prop :=
  ∀ x, copies x (t.places ++ t.log.flatMap Event.handed) =
    copies x (t.log.flatMap Event.taken ++ t.log.flatMap Event.made)

/-- For a resource that was taken once and not made inside, this is: in exactly one place. -/
theorem Conserved.exactly_one_place {t : Thread σ} (hConserved : Conserved t) {x : Nat}
    (hTaken : copies x (t.log.flatMap Event.taken) = 1)
    (hMade : copies x (t.log.flatMap Event.made) = 0) :
    copies x (t.places ++ t.log.flatMap Event.handed) = 1 := by
  have hCount := hConserved x
  rw [copies_append x (t.log.flatMap Event.taken)] at hCount
  omega

/-- The ledger of address `x`. -/
def location (p : Processor) (x : Nat) : Accounting p where
  event e := copies x e.handed + copies x e.forgotten - copies x e.taken - copies x e.made
  place r := copies x [r]
  updateSleeping _ := rfl
  dequeuedInside r _ := by
    simp only [Event.handed, Event.forgotten, Event.taken, Event.made, copies_nil]; omega
  dequeuedOutside r _ := by
    simp only [Event.handed, Event.forgotten, Event.taken, Event.made, copies_nil]; omega
  routedCopy _ _ _ _ := rfl
  refusedCopy _ _ _ := rfl
  refused _ _ := rfl
  routedInside _ _ r _ := by
    simp only [Event.handed, Event.forgotten, Event.taken, Event.made, copies_nil]; omega
  routedOutside _ _ r _ := by
    simp only [Event.handed, Event.forgotten, Event.taken, Event.made, copies_nil]; omega
  released r := by
    simp only [Event.handed, Event.forgotten, Event.taken, Event.made, copies_nil]; omega
  fetchedDeleted r _ := by
    simp only [Event.handed, Event.forgotten, Event.taken, Event.made, copies_nil]; omega
  fetched r _ := by
    simp only [Event.handed, Event.forgotten, Event.taken, Event.made, copies_nil]; omega
  consumed r := by
    simp only [Event.handed, Event.forgotten, Event.taken, Event.made, copies_nil]; omega
  simple _ _ := rfl
  flushed r := by
    simp only [Event.handed, Event.forgotten, Event.taken, Event.made, copies_nil]; omega

variable {p : Processor} {x : Nat}

@[simp] theorem location_place (r : Resource) : (location p x).place r = copies x [r] := rfl

@[simp] theorem location_places (rs : List Resource) :
    (location p x).places rs = copies x rs := by
  induction rs with
  | nil => rfl
  | cons r rs ih => rw [Accounting.places_cons, ih, location_place, ← copies_cons]

/-- The difference of the two sides of `Conserved`, with the forgotten resources added. -/
def balance (p : Processor) (x : Nat) (t : Thread σ) : Int :=
  (location p x).worth t + copies x (heldByModules t.mis)

theorem balance_eq (p : Processor) (x : Nat) (t : Thread σ) :
    balance p x t = copies x (t.places ++ t.log.flatMap Event.handed) +
      copies x (t.log.flatMap Event.forgotten) -
      copies x (t.log.flatMap Event.taken ++ t.log.flatMap Event.made) := by
  have hEvents : ∀ log : List Event, (location p x).events log =
      copies x (log.flatMap Event.handed) + copies x (log.flatMap Event.forgotten) -
        copies x (log.flatMap Event.taken) - copies x (log.flatMap Event.made) := by
    intro log
    induction log with
    | nil => rfl
    | cons e log ih =>
      have hCons : (location p x).events (e :: log) =
          (location p x).event e + (location p x).events log := by
        rw [← List.singleton_append, Accounting.events_append, Accounting.events_singleton]
      rw [hCons, ih]
      simp only [location, List.flatMap_cons, copies_append]
      omega
  simp only [balance, Accounting.worth, Accounting.hand, hEvents, location_places,
    Thread.places, copies_append]
  omega

-- ---------------------------------------------------------------------------
-- Modules that keep their contract
-- ---------------------------------------------------------------------------

/-- SIMPLE modules return the resource they got; MULTI modules neither drop nor duplicate
resources, what they make themselves aside. -/
structure KeepsContract (w : World σ) : Prop where
  simple : ∀ i r s, ∃ r', (w.processSimple i r s).1 = some r' ∧ r'.ptr = r.ptr
  multi : ∀ k mi s x,
    copies x ((w.processMulti k mi s).1.inputResources ++
      (w.processMulti k mi s).1.outputResources ++ (w.processMulti k mi s).1.inside) =
    copies x mi.held + copies x (w.processMulti k mi s).1.created

theorem KeepsContract.simpleKeeps {w : World σ} (hContract : KeepsContract w) :
    (location p x).SimpleKeeps w := by
  intro i r s
  obtain ⟨r', hBack, hPtr⟩ := hContract.simple i r s
  rw [hBack, Accounting.hand_some, location_place, location_place]
  exact copies_singleton_congr hPtr

/-- A piece of the main loop that moves the balance by `d`. -/
structure Shifts (p : Processor) (x : Nat) (d : Int) (t t' : Thread σ) : Prop where
  length : t'.mis.length = t.mis.length
  shift : balance p x t' = balance p x t + d

namespace Shifts

variable {d d' : Int} {t t' t'' : Thread σ}

theorem refl (t : Thread σ) : Shifts p x 0 t t := ⟨rfl, by omega⟩

theorem trans (h : Shifts p x d t t') (h' : Shifts p x d' t' t'') : Shifts p x (d + d') t t'' :=
  ⟨h'.length.trans h.length, by rw [h'.shift, h.shift]; omega⟩

theorem of_eq (h : Shifts p x d t t') (hd : d = d') : Shifts p x d' t t' := hd ▸ h

theorem of_moved (h : (location p x).Moved d t t') : Shifts p x d t t' := by
  refine ⟨by rw [h.mis], ?_⟩
  rw [balance, balance, h.worth, h.mis]
  omega

end Shifts

/-- Changing one module changes the balance by what that module holds. -/
theorem copies_heldByModules_modify (f : ModuleInfo → ModuleInfo) {mi : ModuleInfo} :
    ∀ (mis : List ModuleInfo) (k : Nat), mis[k]? = some mi →
      copies x (heldByModules (mis.modify k f)) =
        copies x (heldByModules mis) + (copies x (f mi).held - copies x mi.held)
  | [], k, h => by simp at h
  | m :: mis, 0, h => by
    obtain rfl : m = mi := by simpa using h
    simp only [heldByModules, List.modify_zero_cons, List.flatMap_cons, copies_append]
    omega
  | m :: mis, k + 1, h => by
    have ih := copies_heldByModules_modify f mis k (by simpa using h)
    simp only [heldByModules] at ih
    simp only [heldByModules, List.modify_succ_cons, List.flatMap_cons, copies_append, ih]
    omega

/-- Changing one module of the thread. -/
theorem Shifts.modify (f : ModuleInfo → ModuleInfo) {k : Nat} {mi : ModuleInfo} {t : Thread σ}
    (hModule : t.mis[k]? = some mi) :
    Shifts p x (copies x (f mi).held - copies x mi.held) t { t with mis := t.mis.modify k f } := by
  refine ⟨by simp, ?_⟩
  simp only [balance, copies_heldByModules_modify f t.mis k hModule]
  have hWorth : (location p x).worth { t with mis := t.mis.modify k f } =
    (location p x).worth t := rfl
  omega

theorem Shifts.pushInput {k : Nat} {t : Thread σ} (hk : k < t.mis.length) (r : Resource) :
    Shifts p x (copies x [r]) t (t.pushInput k r) := by
  refine (Shifts.modify _ (List.getElem?_eq_getElem hk)).of_eq ?_
  simp only [ModuleInfo.held, copies_append]
  omega

theorem Shifts.pushOutput {k : Nat} {t : Thread σ} (hk : k < t.mis.length) (r : Resource) :
    Shifts p x (copies x [r]) t (t.pushOutput k r) := by
  refine (Shifts.modify _ (List.getElem?_eq_getElem hk)).of_eq ?_
  simp only [ModuleInfo.held, copies_append]
  omega

theorem nextMultiModuleIndex_spec {index k : Nat} (h : p.nextMultiModuleIndex index = some k) :
    index ≤ k ∧ k < p.types.length := by
  obtain ⟨i, hFound, rfl⟩ : ∃ i, (p.types.drop index).findIdx? (· = .multi) = some i ∧
      index + i = k := by
    simpa [Processor.nextMultiModuleIndex] using h
  have hLt : i < (p.types.drop index).length := by
    obtain ⟨hLt, -⟩ := List.findIdx?_eq_some_iff_getElem.mp hFound
    exact hLt
  rw [List.length_drop] at hLt
  omega

-- ---------------------------------------------------------------------------
-- Reading
-- ---------------------------------------------------------------------------

/-- A reading loop that runs through leaves nothing in hand. -/
theorem readLoop_shifts {w : World σ} (hContract : KeepsContract w)
    (hCheck : p.checkModules = true) {fuel : Nat} {multiIndex : Option Nat} {t' : Thread σ} :
    ∀ (passes : Nat) (read : Int) (t : Thread σ),
      (∀ k, multiIndex = some k → k < t.mis.length) →
      readLoop w p fuel multiIndex passes read t = .ok (.next, t') → Shifts p x 0 t t' := by
  intro passes
  induction passes with
  | zero =>
    intro read t _ h
    obtain rfl : t = t' := by simpa [readLoop] using h
    exact Shifts.refl t
  | succ passes ih =>
    intro read t hIndex h
    rw [readLoop] at h
    by_cases hMax : t.readMax ≤ read
    · obtain rfl : t = t' := by simpa [hMax] using h
      exact Shifts.refl t
    rw [if_neg hMax] at h
    cases hHead : p.types.head? with
    | none => simp [hHead] at h
    | some first =>
      obtain ⟨flow, got, t₁, hRead⟩ : ∃ flow got t₁,
        readResource w p first read t = ((flow, got), t₁) := ⟨_, _, _, rfl⟩
      obtain ⟨hTaken, hInput⟩ := (location p x).readResource_moved hRead
      simp only [hHead, hRead] at h
      cases got with
      | none =>
        obtain ⟨-, rfl⟩ : flow = .next ∧ t₁ = t' := by simpa using h
        exact Shifts.of_moved hTaken
      | some g =>
        obtain ⟨o, ho⟩ : ∃ o, o = applyModules w p fuel (t₁.block && g.resourcesRead == 0)
          (p.modulesFrom 0) g.resource t₁ := ⟨_, rfl⟩
        simp only [← ho] at h
        rcases o with e | ⟨resource, stop, t₂⟩
        · simp at h
        have hApplied := (location p x).applyModules_moved hCheck hContract.simpleKeeps
          (fun _ hFirst => hInput (Option.some.inj (hHead.symm.trans hFirst)) g rfl) ho.symm
        have hInHand : Shifts p x (-(location p x).hand resource) t t₂ := by
          refine Shifts.of_moved ((hTaken.trans hApplied).of_eq ?_)
          simp only [Option.bind_some]
          omega
        cases resource with
        | none =>
          -- nothing in hand: the resource was deleted or consumed, or there was none
          obtain ⟨-, rfl⟩ : _ ∧ t₂ = t' := by simpa using h
          exact hInHand.of_eq (by simp)
        | some r =>
          rw [Accounting.hand_some, location_place] at hInHand
          cases multiIndex with
          | some k =>
            have hk : k < t₂.mis.length := hInHand.length ▸ hIndex k rfl
            have hPushed := hInHand.trans (Shifts.pushInput (p := p) (x := x) hk r)
            have hRest := ih _ _
              (fun k' hk' => hPushed.length ▸ hIndex k' hk') h
            exact (hPushed.trans hRest).of_eq (by omega)
          | none =>
            obtain ⟨ok, index, t₃, hQueue⟩ : ∃ ok index t₃,
              queueResource w p r true none t₂ = (ok, index, t₃) := ⟨_, _, _, rfl⟩
            simp only [hQueue] at h
            have hQueued := hInHand.trans
              (Shifts.of_moved ((location p x).queueResource_moved hQueue))
            cases ok with
            | false => simp at h
            | true =>
              have hRest := ih _
                { t₃ with outputFilterIndex := 0 } (by rintro k' ⟨⟩) h
              have hReset : Shifts p x 0 t₃ { t₃ with outputFilterIndex := 0 } :=
                ⟨rfl, by rw [Int.add_zero]; rfl⟩
              refine ((hQueued.trans hReset).trans hRest).of_eq ?_
              rw [if_pos rfl, location_place]
              omega

-- ---------------------------------------------------------------------------
-- The outputs of a MULTI module
-- ---------------------------------------------------------------------------

/-- The pending resource changes. -/
theorem location_worth_pending (t : Thread σ) (index : Nat) (o : Option Resource) :
    (location p x).worth { t with outputFilterIndex := index, outputFilterResource := o } =
      (location p x).worth t - (location p x).hand t.outputFilterResource +
        (location p x).hand o := by
  simp only [Accounting.worth]
  omega

/-- `QueueResource` does not touch the pending resource. -/
theorem queueFilters_pending (w : World σ) (r : Resource) (wait : Bool) :
    ∀ (fs : List (OutputFilter × Nat)) (t : Thread σ),
      (queueFilters w p r wait fs t).2.outputFilterResource = t.outputFilterResource := by
  intro fs
  induction fs with
  | nil =>
    intro t
    exact rfl
  | cons entry fs ih =>
    obtain ⟨f, pos⟩ := entry
    intro t
    rw [queueFilters]
    split
    · split
      · dsimp only
        split
        · rw [ih]
          rfl
        · rfl
      · dsimp only
        split
        · split <;> rfl
        · rfl
    · exact ih t

theorem queueResource_pending {w : World σ} {r : Resource} {wait ok : Bool}
    {filterIndex index : Option Nat} {t t' : Thread σ}
    (h : queueResource w p r wait filterIndex t = (ok, index, t')) :
    t'.outputFilterResource = t.outputFilterResource := by
  have hPass := queueFilters_pending (p := p) w r wait
    (p.outputFilters.zipIdx.drop (filterIndex.getD 0)) t
  rw [queueResource] at h
  split at h <;> rename_i t₁ hEnd <;> rw [hEnd] at hPass <;> simp only [Prod.mk.injEq] at h <;>
    obtain ⟨-, -, rfl⟩ := h <;> exact hPass

section QueueOutput

variable {w : World σ} {r : Resource} {queued queued' : Nat} {goOn : Bool} {t t' : Thread σ}

/-- Nothing is pending: the resource was queued, or became the pending one. -/
theorem queueOutput_moved_of_none (hPending : t.outputFilterResource = none)
    (h : queueOutput w p r queued t = (goOn, queued', t')) :
    (location p x).Moved (copies x [r]) t t' := by
  obtain ⟨ok, index, t₁, hQueue⟩ : ∃ ok index t₁, queueResource w p r (t.block && queued == 0)
    (some t.outputFilterIndex) t = (ok, index, t₁) := ⟨_, _, _, rfl⟩
  have hMoved := (location p x).queueResource_moved hQueue
  have hStill := queueResource_pending hQueue
  rw [queueOutput] at h
  simp only [hPending, if_true, hQueue] at h
  cases ok with
  | false =>
    simp only [Prod.mk.injEq] at h
    obtain ⟨-, -, rfl⟩ := h
    refine ⟨hMoved.mis, ?_⟩
    rw [location_worth_pending, hMoved.worth, hStill, hPending]
    simp
  | true =>
    simp only [Prod.mk.injEq] at h
    obtain ⟨-, -, rfl⟩ := h
    refine ⟨hMoved.mis, ?_⟩
    rw [show (location p x).worth { t₁ with outputFilterIndex := index.getD t₁.outputFilterIndex }
      = (location p x).worth t₁ from rfl, hMoved.worth]
    simp

/-- The pending resource was queued: the rest goes on as if there had been none. -/
theorem queueOutput_of_retried {pending : Resource} {index : Option Nat} {t₁ : Thread σ}
    (hPending : t.outputFilterResource = some pending)
    (hRetry : queueResource w p pending (t.block && queued == 0) (some t.outputFilterIndex) t =
      (true, index, t₁)) :
    queueOutput w p r queued t =
      queueOutput w p r (queued + 1)
        { t₁ with outputFilterIndex := 0, outputFilterResource := none } := by
  rw [queueOutput, queueOutput]
  simp only [hPending, hRetry]

/-- **The hand is empty after the last part of the loop:** the resource was queued, became
the pending one, or was forgotten. -/
theorem queueOutput_moved (h : queueOutput w p r queued t = (goOn, queued', t')) :
    (location p x).Moved (copies x [r]) t t' := by
  cases hPending : t.outputFilterResource with
  | none => exact queueOutput_moved_of_none hPending h
  | some pending =>
    obtain ⟨ok, index, t₁, hRetry⟩ : ∃ ok index t₁, queueResource w p pending
      (t.block && queued == 0) (some t.outputFilterIndex) t = (ok, index, t₁) := ⟨_, _, _, rfl⟩
    have hMoved := (location p x).queueResource_moved hRetry
    have hStill := queueResource_pending hRetry
    cases ok with
    | false =>
      rw [queueOutput] at h
      simp only [hPending, hRetry, Bool.false_eq_true, if_false, Prod.mk.injEq] at h
      obtain ⟨-, -, rfl⟩ := h
      have hForgotten := hMoved.emit (.retryRefused pending r)
      refine ⟨hForgotten.mis, ?_⟩
      rw [show (location p x).worth { t₁.emit (.retryRefused pending r) with
          outputFilterIndex := index.getD t₁.outputFilterIndex } =
        (location p x).worth (t₁.emit (.retryRefused pending r)) from rfl, hForgotten.worth]
      simp [location, Event.handed, Event.forgotten, Event.taken, Event.made]
    | true =>
      rw [queueOutput_of_retried hPending hRetry] at h
      have hReset : (location p x).Moved 0 t
          { t₁ with outputFilterIndex := 0, outputFilterResource := none } := by
        refine ⟨hMoved.mis, ?_⟩
        rw [location_worth_pending, hMoved.worth, hStill, hPending]
        simp
      exact (hReset.trans (queueOutput_moved_of_none rfl h)).of_eq (by omega)

end QueueOutput

/-- An output of module `k` goes to the next MULTI module, to its outputs when it is to skip it. -/
theorem Shifts.handOn {k k' : Nat} {t : Thread σ} (hNext : k < k') (hLt : k' < t.mis.length)
    (r : Resource) :
    Shifts p x (copies x [r]) t (if r.skip then t.pushOutput k' r else t.pushInput k' r) ∧
      (if r.skip then t.pushOutput k' r else t.pushInput k' r).mis[k]? = t.mis[k]? := by
  have hNe : k' ≠ k := Nat.ne_of_gt hNext
  split
  · refine ⟨Shifts.pushOutput hLt r, ?_⟩
    simp [Thread.pushOutput, hNe]
  · refine ⟨Shifts.pushInput hLt r, ?_⟩
    simp [Thread.pushInput, hNe]

/-- The loop over the outputs of module `k`: what it does not get to remains, and module `k`
itself is not touched. -/
theorem outputLoop_shifts {w : World σ} (hContract : KeepsContract w)
    (hCheck : p.checkModules = true) {fuel k queued' : Nat} {next : Option Nat}
    {rest : List Resource} {t' : Thread σ} :
    ∀ (outs : List Resource) (queued : Nat) (t : Thread σ),
      (∀ k', next = some k' → k < k' ∧ k' < t.mis.length) →
      outputLoop w p fuel k next outs queued t = .ok (rest, queued', t') →
      Shifts p x (copies x outs - copies x rest) t t' ∧ t'.mis[k]? = t.mis[k]? := by
  intro outs
  induction outs with
  | nil =>
    intro queued t _ h
    obtain ⟨rfl, -, rfl⟩ : [] = rest ∧ queued = queued' ∧ t = t' := by
      simpa [outputLoop] using h
    exact ⟨(Shifts.refl t).of_eq (by simp), rfl⟩
  | cons r outs ih =>
    intro queued t hNext h
    rw [outputLoop] at h
    by_cases hDeleted : r.deleted = true
    · rw [if_pos hDeleted] at h
      have hPushed := Shifts.of_moved
        ((Accounting.Moved.refl (a := location p x) t).pushDeleted r)
      obtain ⟨hRest, hFrame⟩ := ih queued
        (t.pushDeleted r) hNext h
      refine ⟨(hPushed.trans hRest).of_eq ?_, hFrame⟩
      rw [copies_cons x r outs, location_place]
      omega
    rw [if_neg hDeleted] at h
    obtain ⟨o, ho⟩ : ∃ o, o = applyModules w p fuel false (p.modulesFrom (k + 1)) (some r) t :=
      ⟨_, rfl⟩
    rw [← ho] at h
    rcases o with e | ⟨resource, stop, t₁⟩
    · simp at h
    have hApplied := (location p x).applyModules_moved hCheck hContract.simpleKeeps
      (fun hZero _ => absurd hZero (Nat.succ_ne_zero k)) ho.symm
    have hInHand := Shifts.of_moved hApplied
    rw [Accounting.hand_some, location_place] at hInHand
    have hSame : t₁.mis[k]? = t.mis[k]? := by rw [hApplied.mis]
    cases resource with
    | none =>
      obtain ⟨hRest, hFrame⟩ := ih queued t₁
        (fun k' hk' => hInHand.length ▸ hNext k' hk') h
      refine ⟨(hInHand.trans hRest).of_eq ?_, hFrame.trans hSame⟩
      rw [copies_cons x r outs, Accounting.hand_none]
      omega
    | some r' =>
      rw [Accounting.hand_some, location_place] at hInHand
      cases next with
      | some k' =>
        -- to the next MULTI module, which is another one than `k`
        obtain ⟨hNe, hLt⟩ := hNext k' rfl
        have hLt₁ : k' < t₁.mis.length := by rw [hApplied.mis]; exact hLt
        obtain ⟨hPushed, hOther⟩ := Shifts.handOn (p := p) (x := x) hNe hLt₁ r'
        have hSoFar := hInHand.trans hPushed
        obtain ⟨hRest, hFrame⟩ := ih queued _
          (fun k'' hk'' => hSoFar.length ▸ hNext k'' hk'') h
        refine ⟨(hSoFar.trans hRest).of_eq ?_, (hFrame.trans hOther).trans hSame⟩
        rw [copies_cons x r outs]
        omega
      | none =>
        obtain ⟨goOn, n, t₂, hOut⟩ : ∃ goOn n t₂, queueOutput w p r' queued t₁ = (goOn, n, t₂) :=
          ⟨_, _, _, rfl⟩
        have hMoved := queueOutput_moved (x := x) hOut
        have hSoFar := hInHand.trans (Shifts.of_moved hMoved)
        have hSame₂ : t₂.mis[k]? = t.mis[k]? := by rw [hMoved.mis, hSame]
        simp only [hOut] at h
        cases goOn with
        | true =>
          obtain ⟨hRest, hFrame⟩ := ih n t₂
            (by rintro k'' ⟨⟩) h
          refine ⟨(hSoFar.trans hRest).of_eq ?_, hFrame.trans hSame₂⟩
          rw [copies_cons x r outs]
          omega
        | false =>
          obtain ⟨rfl, -, rfl⟩ : outs = rest ∧ n = queued' ∧ t₂ = t' := by simpa using h
          refine ⟨hSoFar.of_eq ?_, hSame₂⟩
          rw [copies_cons x r outs]
          omega

-- ---------------------------------------------------------------------------
-- The MULTI modules
-- ---------------------------------------------------------------------------

/-- The call of `ProcessMulti`: its outputs are taken out of the module, in hand. -/
theorem callMulti_shifts {w : World σ} (hContract : KeepsContract w) {k : Nat} {mi : ModuleInfo}
    {a : MultiAnswer} {t t' : Thread σ} (hModule : t.mis[k]? = some mi)
    (h : callMulti w p k mi t = .ok (a, t')) :
    Shifts p x (-copies x a.outputResources) t t' ∧
      ∃ mi', t'.mis[k]? = some mi' ∧ mi'.outputResources = [] := by
  rw [callMulti] at h
  obtain ⟨ans, t₁, hCall⟩ : ∃ ans t₁, t.call (w.processMulti k mi) = (ans, t₁) := ⟨_, _, rfl⟩
  have hAnswer : ans = (w.processMulti k mi t.world).1 := (congrArg Prod.fst hCall).symm
  have hKept := hContract.multi k mi t.world x
  rw [← hAnswer] at hKept
  have hMade : (location p x).Moved (-copies x ans.created) t (t₁.emit (.created ans.created)) := by
    refine (((Accounting.Moved.refl t).call hCall).emit (.created ans.created)).of_eq ?_
    simp [location, Event.handed, Event.forgotten, Event.taken, Event.made]
  simp only [hCall] at h
  -- the assertion about `delta` does not fail
  split at h
  · simp at h
  obtain ⟨rfl, ht'⟩ := Prod.mk.inj (Except.ok.inj h)
  set t₂ : Thread σ := { t₁.emit (.created ans.created) with
    block := (t₁.emit (.created ans.created)).block && !ans.busy } with ht₂
  have hBlock : Shifts p x (-copies x ans.created) t t₂ := by
    have hShift := Shifts.of_moved hMade
    exact ⟨hShift.length, hShift.shift⟩
  have hModule₂ : t₂.mis[k]? = some mi := by
    rw [show t₂.mis = (t₁.emit (.created ans.created)).mis from rfl, hMade.mis, hModule]
  set mi' : ModuleInfo := { mi with
    inputResources := ans.inputResources, outputResources := []
    inside := ans.inside, processingResources := ans.processingResources } with hmi'
  have hLt : k < t₂.mis.length := by
    by_contra hGe
    rw [List.getElem?_eq_none (by omega)] at hModule₂
    exact absurd hModule₂ (by simp)
  have hSet : Shifts p x (copies x mi'.held - copies x mi.held) t₂ (t₂.setModule k mi') := by
    have hModify := Shifts.modify (p := p) (x := x) (fun _ => mi') hModule₂
    rwa [List.modify_eq_set_getElem? , hModule₂] at hModify
  have hHeld : copies x mi'.held = copies x ans.inputResources + copies x ans.inside := by
    simp [hmi', ModuleInfo.held]
  have hBoth : Shifts p x (-copies x ans.outputResources) t (t₂.setModule k mi') := by
    refine (hBlock.trans hSet).of_eq ?_
    simp only [copies_append] at hKept
    omega
  have hEmpty : (t₂.setModule k mi').mis[k]? = some mi' := by
    simp [Thread.setModule, hLt]
  split at ht'
  · subst ht'
    exact ⟨hBoth, mi', hEmpty, rfl⟩
  · subst ht'
    refine ⟨(hBoth.trans (Shifts.of_moved ((Accounting.Moved.refl _).emit _))).of_eq ?_,
      mi', hEmpty, rfl⟩
    simp [location, Event.handed, Event.forgotten, Event.taken, Event.made]

/-- The loop over the MULTI modules leaves nothing in hand. -/
theorem multiLoop_shifts {w : World σ} (hContract : KeepsContract w)
    (hCheck : p.checkModules = true) {fuel : Nat} {round' : Round} {t' : Thread σ} :
    ∀ (passes : Nat) (index : Option Nat) (round : Round) (t : Thread σ),
      t.mis.length = p.types.length →
      multiLoop w p fuel passes index round t = .ok (.next, round', t') → Shifts p x 0 t t'
  | 0, index, round, t, _, h => by
    obtain ⟨-, rfl⟩ : round = round' ∧ t = t' := by simpa [multiLoop] using h
    exact Shifts.refl t
  | passes + 1, none, round, t, _, h => by
    obtain ⟨-, rfl⟩ : round = round' ∧ t = t' := by simpa [multiLoop] using h
    exact Shifts.refl t
  | passes + 1, some k, round, t, hLength, h => by
    rw [multiLoop] at h
    cases hModule : t.mis[k]? with
    | none => simp [hModule] at h
    | some mi =>
      obtain ⟨c, hc⟩ : ∃ c, c = callMulti w p k mi t := ⟨_, rfl⟩
      simp only [hModule, ← hc] at h
      rcases c with e | ⟨a, t₁⟩
      · simp at h
      obtain ⟨hCalled, mi', hModule₁, hNoOutputs⟩ := callMulti_shifts (x := x) hContract
        hModule hc.symm
      obtain ⟨l, hl⟩ : ∃ l, l = outputLoop w p fuel k (p.nextMultiModuleIndex (k + 1))
        a.outputResources 0 t₁ := ⟨_, rfl⟩
      simp only [← hl] at h
      rcases l with e | ⟨rest, queued, t₂⟩
      · simp at h
      have hNext : ∀ k', p.nextMultiModuleIndex (k + 1) = some k' → k < k' ∧
        k' < t₁.mis.length := by
        intro k' hk'
        obtain ⟨hLe, hLt⟩ := nextMultiModuleIndex_spec hk'
        rw [hCalled.length, hLength]
        omega
      obtain ⟨hQueued, hFrame⟩ := outputLoop_shifts hContract hCheck (x := x) _ _ _ hNext hl.symm
      -- the outputs that were not reached go back into the module's queue
      have hBack : Shifts p x (copies x rest) t₂
          { t₂ with mis := t₂.mis.modify k fun mi => { mi with outputResources := rest } } := by
        refine (Shifts.modify _ (hFrame.trans hModule₁)).of_eq ?_
        simp only [ModuleInfo.held, copies_append, hNoOutputs, copies_nil]
        omega
      have hPass : Shifts p x 0 t
          { t₂ with mis := t₂.mis.modify k fun mi => { mi with outputResources := rest } } :=
        ((hCalled.trans hQueued).trans hBack).of_eq (by omega)
      have hLength₂ := hPass.length.trans hLength
      dsimp only at h
      by_cases hRest : rest = []
      · rw [if_pos hRest] at h
        have hLoop := multiLoop_shifts hContract hCheck passes _ _ _ hLength₂ h
        exact (hPass.trans hLoop).of_eq (by omega)
      rw [if_neg hRest] at h
      split at h
      · simp at h
      split at h
      · simp at h
      have hLoop := multiLoop_shifts hContract hCheck passes _ _ _ hLength₂ h
      exact (hPass.trans hLoop).of_eq (by omega)

-- ---------------------------------------------------------------------------
-- The main loop
-- ---------------------------------------------------------------------------

/-- One iteration keeps the balance. -/
theorem iteration_shifts {w : World σ} (hContract : KeepsContract w)
    (hCheck : p.checkModules = true) {fuel : Nat} {t t' : Thread σ}
    (hLength : t.mis.length = p.types.length)
    (h : iteration w p fuel t = .ok (.next, t')) : Shifts p x 0 t t' := by
  rw [iteration] at h
  obtain ⟨l, hl⟩ : ∃ l, l = readLoop w p fuel (p.nextMultiModuleIndex 0) t.readMax.toNat 0 t :=
    ⟨_, rfl⟩
  simp only [← hl] at h
  rcases l with e | ⟨flow, t₁⟩
  · simp at h
  cases flow with
  | returned => simp at h
  | next =>
    have hRead := readLoop_shifts (x := x) hContract hCheck _ _ t
      (fun k hk => hLength ▸ (nextMultiModuleIndex_spec hk).2) hl.symm
    have hBlock : Shifts p x 0 t₁ { t₁ with block := true } := ⟨rfl, by rw [Int.add_zero]; rfl⟩
    dsimp only at h
    obtain ⟨m, hm⟩ : ∃ m, m = multiLoop w p fuel (p.types.length + 1) (p.nextMultiModuleIndex 0)
      { minN := if (p.nextMultiModuleIndex 0).isSome = true then 1000000 else 1, queueFull := false,
        resourcesQueued := 0 : Round } { t₁ with block := true } := ⟨_, rfl⟩
    simp only [← hm] at h
    rcases m with e | ⟨flow, round, t₂⟩
    · simp at h
    cases flow with
    | returned => simp at h
    | next =>
      have hSoFar := hRead.trans hBlock
      have hMulti := multiLoop_shifts (x := x) hContract hCheck _ _ _ _
        (hSoFar.length.trans hLength) hm.symm
      obtain ⟨readMax, hMax⟩ : ∃ readMax : Int, readMax =
        if round.queueFull = true ∧ (round.resourcesQueued : Int) < round.minN
          then (round.resourcesQueued : Int) else round.minN := ⟨_, rfl⟩
      dsimp only at h
      rw [← hMax] at h
      obtain rfl : flushDeleted w p t₂.deletedResources { t₂ with readMax } = t' := by simpa using h
      have hReadMax : Shifts p x 0 t₂ { t₂ with readMax } := ⟨rfl, by rw [Int.add_zero]; rfl⟩
      have hFlush := Shifts.of_moved
        ((location p x).flushDeleted_moved w t₂.deletedResources { t₂ with readMax })
      exact (((hSoFar.trans hMulti).trans hReadMax).trans hFlush).of_eq (by simp)

theorem runThread_shifts {w : World σ} (hContract : KeepsContract w)
    (hCheck : p.checkModules = true) {fuel : Nat} {t' : Thread σ} :
    ∀ (n : Nat) (t : Thread σ), t.mis.length = p.types.length →
      runThread w p fuel n t = some t' → Shifts p x 0 t t' := by
  intro n
  induction n with
  | zero =>
    intro t _ h
    obtain rfl : t = t' := by simpa [runThread] using h
    exact Shifts.refl t
  | succ n ih =>
    intro t hLength h
    rw [runThread] at h
    obtain ⟨running, t₁, hCall⟩ : ∃ running t₁, t.call w.isRunning = (running, t₁) := ⟨_, _, rfl⟩
    have hAsked : Shifts p x 0 t t₁ := Shifts.of_moved ((Accounting.Moved.refl t).call hCall)
    rw [hCall] at h
    cases running with
    | false => simp at h
    | true =>
      obtain ⟨i, hi⟩ : ∃ i, i = iteration w p fuel t₁ := ⟨_, rfl⟩
      simp only [← hi] at h
      rcases i with e | ⟨flow, t₂⟩
      · simp at h
      cases flow with
      | returned => simp at h
      | next =>
        have hIter := iteration_shifts (x := x) hContract hCheck
          (hAsked.length.trans hLength) hi.symm
        have hSoFar := hAsked.trans hIter
        have hRest := ih t₂ (hSoFar.length.trans hLength) h
        exact (hSoFar.trans hRest).of_eq (by omega)

/-- **The balance is zero at the end of every iteration**, for every behaviour of the
environment that keeps the modules' contract. -/
theorem runThread_balance {w : World σ} (hContract : KeepsContract w)
    (hCheck : p.checkModules = true) {fuel n : Nat} {s : σ} {t : Thread σ} (x : Nat)
    (hRun : runThread w p fuel n (Thread.start p s) = some t) : balance p x t = 0 := by
  have hShift := runThread_shifts (x := x) hContract hCheck n _ (by simp [Thread.start]) hRun
  have hModules : copies x (heldByModules (p.types.map ModuleInfo.new)) = 0 := by
    induction p.types with
    | nil => rfl
    | cons m ms ih =>
      rw [heldByModules] at ih
      simp [heldByModules, ModuleInfo.new, ModuleInfo.held, ih]
  rw [hShift.shift]
  simpa [balance, Accounting.worth, Thread.start] using hModules

/-- The thread broke off the output loop with a resource in hand. -/
def Event.isRetryRefused : Event → Bool
  | .retryRefused _ _ => true
  | _ => false

theorem forgotten_eq_nil_iff (log : List Event) :
    log.flatMap Event.forgotten = [] ↔ ∀ e ∈ log, e.isRetryRefused = false := by
  rw [List.flatMap_eq_nil_iff]
  refine forall₂_congr fun e _ => ?_
  cases e <;> simp [Event.forgotten, Event.isRetryRefused]

/-- **No resource is lost or duplicated, exactly.** At the end of every iteration of the
worker thread of every processor that has one, and whose modules keep their contract, each
resource is in as many places as it came in if and only if no output queue ever refused the
pending resource while another one was in hand. -/
theorem conserved_iff_no_retry_refused (w : World σ) (p : Processor) (fuel n : Nat) (s : σ)
    (t : Thread σ) (hContract : KeepsContract w) (hCheck : p.checkModules = true)
    (hRun : runThread w p fuel n (Thread.start p s) = some t) :
    Conserved t ↔ ∀ e ∈ t.log, e.isRetryRefused = false := by
  have hBalance : ∀ x, copies x (t.places ++ t.log.flatMap Event.handed) +
      copies x (t.log.flatMap Event.forgotten) =
      copies x (t.log.flatMap Event.taken ++ t.log.flatMap Event.made) := by
    intro x
    have hZero := runThread_balance hContract hCheck x hRun
    rw [balance_eq] at hZero
    omega
  rw [← forgotten_eq_nil_iff]
  constructor
  · intro hConserved
    -- a forgotten resource would be missing on the left
    by_contra hSome
    obtain ⟨r, rs, hForgotten⟩ := List.exists_cons_of_ne_nil hSome
    have hHere := hBalance r.ptr
    have hThere := hConserved r.ptr
    have hOne : copies r.ptr [r] = 1 := by simp [copies]
    have hRest := copies_nonneg r.ptr rs
    rw [hForgotten, copies_cons r.ptr r rs] at hHere
    omega
  · intro hNone x
    have hHere := hBalance x
    rw [hNone, copies_nil] at hHere
    omega

-- ---------------------------------------------------------------------------
-- A full output queue
-- ---------------------------------------------------------------------------

/-- One MULTI module that feeds one output queue. -/
def multiProcessor : Processor :=
  { types := [.multi], outputFilters := [⟨0, true, 0, false, 1⟩], queuesCount := 1
    inputQueue := 0, engineInputQueue := none, engineOutputQueue := none, batch := false
    ndebug := false }

/-- The input queue always has another resource, the module passes everything on at once and
is busy, and the output queue accepts or refuses every resource alike. -/
def passOn (accept : Bool) : World Nat where
  isRunning n := (true, n)
  getItem _ n := (some ⟨n, n, 0, false, false⟩, n + 1)
  pauseInput n := (false, n)
  awaitInput n := (true, n)
  processInput _ _ n := (none, n)
  processOutput _ r n := (some r, n)
  processSimple _ r n := (some r, n)
  processMulti _ mi n :=
    (⟨[], mi.inputResources ++ mi.outputResources, mi.inside, [], 1, mi.processingResources, true⟩,
    n)
  putItem _ _ _ _ n := (accept, n)
  clone r n := (r, n)

theorem passOn_keepsContract (accept : Bool) : KeepsContract (passOn accept) where
  simple _ r _ := ⟨r, rfl, rfl⟩
  multi _ mi _ x := by
    simp only [passOn, ModuleInfo.held, copies_append, copies_nil]
    omega

/-- As long as the queue accepts, everything is accounted for. -/
theorem conserved_iff_accepting_queue :
    ∃ t, runThread (passOn true) multiProcessor 1 2 (Thread.start multiProcessor 0) = some t ∧
      Conserved t := by
  refine ⟨_, rfl, (conserved_iff_no_retry_refused (passOn true) multiProcessor 1 2 0 _
    (passOn_keepsContract true) (by decide) rfl).mpr ?_⟩
  decide

/-- The queue is full: resource 0 is pending after the first iteration. In the second one
resource 1 comes out of the module, resource 0 is refused again, and resource 1 is nowhere,
although it was taken exactly once. -/
theorem full_queue_loses_resource :
    KeepsContract (passOn false) ∧ multiProcessor.checkModules = true ∧
    ∃ t, runThread (passOn false) multiProcessor 1 2 (Thread.start multiProcessor 0) = some t ∧
      copies 1 (t.log.flatMap Event.taken) = 1 ∧ copies 1 (t.log.flatMap Event.made) = 0 ∧
      copies 1 (t.places ++ t.log.flatMap Event.handed) = 0 ∧ ¬ Conserved t := by
  refine ⟨passOn_keepsContract false, by decide, _, rfl, by decide, by decide, by decide, ?_⟩
  intro hConserved
  have hOne := hConserved.exactly_one_place (x := 1) (by decide) (by decide)
  exact absurd hOne (by decide)

end HectorCore.Processing
