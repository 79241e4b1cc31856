import HectorCore.Clients.Ordered

/-!
# Returned — what one call brings back

One call of `GetProcessedResources` or `GetProcessedResourcesOrdered`, from the moment when it has
got `finishedLock`, in the company of any other calls and whatever the engine does in the meantime.

* `collected_perm`         — the ids that are left and those of the output are the ids of the call;
* `output_supplied`        — every resource of the output came from the engine;
* `nonblocking_output`     — a call without a time-out takes what is finished, in the order of its
  ids, and nothing from the queue;
* `nonblocking_ordered_nil` — an ordered one returns nothing if nothing is finished;
* `nonblocking_ordered_ids` — what it returns is for the first of its ids;
* `nonblocking_comes_back` — a call without a time-out has an end, whatever the others do.
-/

namespace HectorCore.Clients

open Lib

variable {κ : Type} [DecidableEq κ]

/-- Client `c` has got the lock and begins to look for its ids. -/
def State.entered (s : State κ) (c : κ) (ordered : Bool) (ids : List Int)
    (timeout : Bool) : State κ :=
  { s with lock := some c }.set c { Client.new ordered ids timeout with pc := .scanning }

variable {s s' : State κ} {l : Label κ} {labels : List (Label κ)} {c : κ} {ordered timeout : Bool}
  {ids : List Int}

/-- It is where a call gets that finds the lock free. -/
theorem entered_eq_run (hLock : s.lock = none) :
    run step (s.set c (Client.new ordered ids timeout)) [.call c, .acquire c] =
      some (s.entered c ordered ids timeout) := by
  simp [run, step, State.set, State.entered, Client.new, hLock]

theorem entered_client : (s.entered c ordered ids timeout).client c =
    { Client.new ordered ids timeout with pc := .scanning } :=
  client_set_self _ _ _

-- ---------------------------------------------------------------------------
-- Ids
-- ---------------------------------------------------------------------------

/-- An unordered call for the ids `first`. -/
structure Collecting (first : List Int) (me : Client) : Prop where
  unordered : me.ordered = false
  split : (me.ids ++ me.output.map Resource.id).Perm first
  iter : me.pc.foundMy = false → me.iter <:+ me.ids

theorem Collecting.nodup {first : List Int} {me : Client} (h : Collecting first me)
    (hNodup : first.Nodup) : me.ids.Nodup :=
  (List.nodup_append.mp (h.split.nodup_iff.mpr hNodup)).1

/-- A turn that moves on, without having found an id of the call. -/
theorem Collecting.of_pc {first : List Int} {me : Client} {pc : Pc} (h : Collecting first me)
    (hFound : me.pc.foundMy = false) : Collecting first { me with pc } :=
  ⟨h.unordered, h.split, fun _ => h.iter hFound⟩

theorem Collecting.not_ordered {first : List Int} {me : Client} (h : Collecting first me) :
    ¬ me.ordered = true := by
  rw [h.unordered]
  decide

/-- An id goes over to the output. -/
theorem perm_erase_append {ids out : List Int} {id : Int} (h : id ∈ ids) :
    (ids.erase id ++ (out ++ [id])).Perm (ids ++ out) := by
  rw [← List.append_assoc]
  refine List.perm_append_comm.trans ?_
  show (id :: (ids.erase id ++ out)).Perm _
  rw [← List.cons_append]
  exact (List.perm_cons_erase h).symm.append_right out

omit [DecidableEq κ] in
theorem collecting_turn {first : List Int} {me' : Client} (hNodup : first.Nodup) (hKeyed : Keyed s)
    (h : Collecting first (s.client c)) (hTurn : Turn s l c me') : Collecting first me' := by
  cases hTurn with
  | stays => exact h
  | enters hPc => exact ⟨h.unordered, h.split, fun _ => List.suffix_refl _⟩
  | restarts hOrdered hPc => exact ⟨h.unordered, h.split, fun _ => List.suffix_refl _⟩
  | skips hOrdered hPc hIter =>
    refine ⟨h.unordered, h.split, fun _ => ?_⟩
    have hSuffix := h.iter (by rw [hPc]; rfl)
    rw [hIter] at hSuffix
    exact (List.suffix_cons _ _).trans hSuffix
  | collectsUnordered hOrdered hPc hIter hFound =>
    have hSuffix := h.iter (by rw [hPc]; rfl)
    rw [hIter] at hSuffix
    refine ⟨h.unordered, ?_, fun _ => suffix_erase hSuffix (h.nodup hNodup)⟩
    dsimp only
    rw [List.map_append, List.map_singleton, hKeyed _ _ hFound]
    exact (perm_erase_append (hSuffix.subset List.mem_cons_self)).trans h.split
  | appendsUnordered hOrdered hPc hMem =>
    refine ⟨h.unordered, ?_, fun hFound => absurd hFound (by simp [Pc.foundMy])⟩
    dsimp only
    rw [List.map_append, List.map_singleton]
    exact (perm_erase_append hMem).trans h.split
  | shares hPc =>
    exact ⟨h.unordered, h.split, fun hFound => h.iter (by rw [hPc]; exact hFound)⟩
  | polls hLabel hPc =>
    exact ⟨h.unordered, h.split, fun hFound => h.iter (by rw [hPc]; exact hFound)⟩
  | @drains my foreign iter hPc hIter =>
    refine ⟨h.unordered, h.split, fun _ => ?_⟩
    rw [hIter h.unordered]
    cases my with
    | true => exact List.suffix_refl _
    | false => exact h.iter (by rw [hPc]; rfl)
  | fails hOrdered => exact absurd hOrdered h.not_ordered
  | endsOrdered hOrdered => exact absurd hOrdered h.not_ordered
  | collectsOrdered hOrdered => exact absurd hOrdered h.not_ordered
  | appendsOrdered hOrdered => exact absurd hOrdered h.not_ordered
  | yields hOrdered => exact absurd hOrdered h.not_ordered
  | signalled hPc => exact h.of_pc (by rw [hPc]; rfl)
  | calls hPc => exact h.of_pc (by rw [hPc]; rfl)
  | gets r hPc => exact h.of_pc (by rw [hPc]; rfl)
  | holds hPc => exact h.of_pc (by rw [hPc]; rfl)
  | endsUnordered hOrdered hPc => exact h.of_pc (by rw [hPc]; rfl)
  | awaits hPc => exact h.of_pc (by rw [hPc]; rfl)
  | resumes hPc =>
    refine h.of_pc ?_
    rcases hPc with hPc | ⟨b, hPc⟩ <;> rw [hPc] <;> rfl

/-- **The ids that are left, and those of the output.** -/
theorem collected_perm {first : List Int} (hNodup : first.Nodup) (hKeyed : Keyed s)
    (hRun : run step (s.entered c false first timeout) labels = some s') :
    ((s'.client c).ids ++ (s'.client c).output.map Resource.id).Perm first := by
  have hStart : Keyed (s.entered c false first timeout) ∧
      Collecting first ((s.entered c false first timeout).client c) := by
    refine ⟨hKeyed, ?_⟩
    rw [entered_client]
    exact ⟨rfl, by simp [Client.new], fun _ => List.suffix_refl _⟩
  have hEnd := run_invariant (fun s => Keyed s ∧ Collecting first (s.client c)) ?_ hRun hStart
  · exact hEnd.2.split
  · rintro s l s' ⟨hKeyed, hCollecting⟩ hStep
    exact ⟨keyed_step hKeyed hStep,
      collecting_turn hNodup hKeyed hCollecting (turn_of_moves (moves_of_step hStep))⟩

-- ---------------------------------------------------------------------------
-- Resources
-- ---------------------------------------------------------------------------

/-- What the engine can hand over has the property `Q`. -/
structure Supplies (Q : Resource → Prop) (s : State κ) : Prop where
  finished : ∀ i r, s.finishedResources i = some r → Q r
  queue : ∀ r ∈ s.queue, Q r
  held : ∀ c r, (s.client c).pc.held = some r → Q r

omit [DecidableEq κ] in
theorem Supplies.of_view {Q : Resource → Prop} (h : Supplies Q s)
    (hView : ∀ c, (s'.client c).view = (s.client c).view)
    (hFinished : s'.finishedResources = s.finishedResources) (hQueue : ∀ r ∈ s'.queue, Q r) :
    Supplies Q s' := by
  refine ⟨by rw [hFinished]; exact h.finished, hQueue, fun c r hHeld => h.held c r ?_⟩
  rw [← (Prod.mk.inj (hView c)).1]
  exact hHeld

omit [DecidableEq κ] in
/-- Only client `c₀` has moved; it holds `o` now. -/
theorem Supplies.of_others {Q : Resource → Prop} {c₀ : κ} {o : Option Resource}
    {out : List Resource}
    (h : Supplies Q s) (hAfter : (s'.client c₀).view = (o, out))
    (hOthers : ∀ c', c' ≠ c₀ → (s'.client c').view = (s.client c').view)
    (hHeld : ∀ r, o = some r → Q r) (hFinished : ∀ i r, s'.finishedResources i = some r → Q r)
    (hQueue : ∀ r ∈ s'.queue, Q r) : Supplies Q s' := by
  refine ⟨hFinished, hQueue, fun c r hMine => ?_⟩
  by_cases hc : c = c₀
  · subst hc
    rw [(Prod.mk.inj hAfter).1] at hMine
    exact hHeld r hMine
  · rw [(Prod.mk.inj (hOthers c hc)).1] at hMine
    exact h.held c r hMine

omit [DecidableEq κ] in
/-- Only client `c₀` has moved; its output has grown by `new`. -/
theorem output_of_others {Q : Resource → Prop} {c₀ : κ} {o : Option Resource} {new : List Resource}
    (hOutput : ∀ r ∈ (s.client c).output, Q r) (hNew : ∀ r ∈ new, Q r)
    (hAfter : (s'.client c₀).view = (o, (s.client c₀).output ++ new))
    (hOthers : ∀ c', c' ≠ c₀ → (s'.client c').view = (s.client c').view) :
    ∀ r ∈ (s'.client c).output, Q r := by
  by_cases hc : c = c₀
  · subst hc
    rw [(Prod.mk.inj hAfter).2]
    exact List.forall_mem_append.mpr ⟨hOutput, hNew⟩
  · rw [(Prod.mk.inj (hOthers c hc)).2]
    exact hOutput

theorem forall_update {Q : Resource → Prop} {f : Int → Option Resource} {k : Int}
    {v : Option Resource}
    (hf : ∀ i r, f i = some r → Q r) (hv : ∀ r, v = some r → Q r) :
    ∀ i r, Function.update f k v i = some r → Q r := by
  intro i r hFound
  by_cases hi : i = k
  · rw [hi, Function.update_self] at hFound
    exact hv r hFound
  · rw [Function.update_of_ne hi] at hFound
    exact hf i r hFound

/-- One step: what the engine supplies, and what is in the output of `c`. -/
theorem supplies_step {Q : Resource → Prop} (h : Supplies Q s)
    (hOutput : ∀ r ∈ (s.client c).output, Q r)
    (hArrive : ∀ r, l = .arrive r → Q r) (hStep : step s l = some s') :
    Supplies Q s' ∧ ∀ r ∈ (s'.client c).output, Q r := by
  have hOne : ∀ {r : Resource}, Q r → ∀ r' ∈ [r], Q r' := by
    intro r hQ r' hr'
    rw [List.mem_singleton.mp hr']
    exact hQ
  have hSome : ∀ {r : Resource}, Q r → ∀ r', some r = some r' → Q r' := by
    rintro r hQ r' hSame
    exact Option.some.inj hSame ▸ hQ
  have hNone : ∀ r, none = some r → Q r := fun r hSome => absurd hSome (by simp)
  have hStays : ∀ {c₀ : κ} {o : Option Resource}, (s'.client c₀).view = (o, (s.client c₀).output) →
      (∀ c', c' ≠ c₀ → (s'.client c').view = (s.client c').view) →
        ∀ r ∈ (s'.client c).output, Q r := by
    intro c₀ o hAfter hOthers
    rw [← List.append_nil (s.client c₀).output] at hAfter
    exact output_of_others hOutput (fun r hr => absurd hr List.not_mem_nil) hAfter hOthers
  cases effect_step hStep with
  | quiet hQuiet =>
    refine ⟨h.of_view hQuiet.view hQuiet.finished (by rw [hQuiet.queue]; exact h.queue), ?_⟩
    rw [(Prod.mk.inj (hQuiet.view c)).2]
    exact hOutput
  | empties hView hFinished hTaken hArrived hQueue =>
    refine ⟨h.of_view hView hFinished (by rw [hQueue]; simp), ?_⟩
    rw [(Prod.mk.inj (hView c)).2]
    exact hOutput
  | arrives r hLabel hView hFinished hTaken hArrived hQueue =>
    refine ⟨h.of_view hView hFinished ?_, by rw [(Prod.mk.inj (hView c)).2]; exact hOutput⟩
    rw [hQueue]
    exact List.forall_mem_append.mpr ⟨h.queue, hOne (hArrive r hLabel)⟩
  | takes c₀ r hBefore hAfter hOthers hFinished hTaken hArrived hQueue =>
    have hAll : ∀ r' ∈ r :: s'.queue, Q r' := by
      rw [← hQueue]
      exact h.queue
    have hQ : Q r := hAll r List.mem_cons_self
    exact ⟨h.of_others hAfter hOthers (hSome hQ) (by rw [hFinished]; exact h.finished)
      fun r' hr' => hAll r' (List.mem_cons_of_mem _ hr'), hStays hAfter hOthers⟩
  | keeps c₀ r hBefore hAfter hOthers hFinished hTaken hArrived hQueue =>
    exact ⟨h.of_others hAfter hOthers hNone (by rw [hFinished]; exact h.finished)
        (by rw [hQueue]; exact h.queue),
      output_of_others hOutput (hOne (h.held c₀ r hBefore)) hAfter hOthers⟩
  | shares c₀ r hBefore hAfter hOthers hFinished hTaken hArrived hQueue =>
    refine ⟨h.of_others hAfter hOthers hNone ?_ (by rw [hQueue]; exact h.queue),
      hStays hAfter hOthers⟩
    rw [hFinished]
    exact forall_update h.finished (hSome (h.held c₀ r hBefore))
  | collects c₀ id r hBefore hFound hAfter hOthers hFinished hTaken hArrived hQueue =>
    refine ⟨h.of_others hAfter hOthers hNone ?_ (by rw [hQueue]; exact h.queue),
      output_of_others hOutput (hOne (h.finished id r hFound)) hAfter hOthers⟩
    rw [hFinished]
    exact forall_update h.finished hNone

/-- **The output comes from the engine.** -/
theorem output_supplied {Q : Resource → Prop} (h : Supplies Q s)
    (hArrive : ∀ r, Label.arrive r ∈ labels → Q r)
    (hRun : run step (s.entered c ordered ids timeout) labels = some s') :
    ∀ r ∈ (s'.client c).output, Q r := by
  have hHeld : ∀ c' r, ((s.entered c ordered ids timeout).client c').pc.held = some r → Q r := by
    intro c' r hHeld
    by_cases hc : c' = c
    · subst hc
      rw [entered_client] at hHeld
      exact absurd hHeld (by simp [Pc.held])
    · rw [State.entered, client_set_of_ne _ _ hc] at hHeld
      exact h.held c' r hHeld
  have hStart : Supplies Q (s.entered c ordered ids timeout) ∧
      ∀ r ∈ ((s.entered c ordered ids timeout).client c).output, Q r := by
    refine ⟨⟨h.finished, h.queue, hHeld⟩, ?_⟩
    rw [entered_client]
    simp [Client.new]
  have hOk : AllOk step (fun _ l => ∀ r, l = Label.arrive r → Q r) (s.entered c ordered ids timeout)
      labels := by
    refine AllOk.of_forall fun _ l hMem r hr => ?_
    subst hr
    exact hArrive r hMem
  refine (run_invariant_of_ok (fun s => Supplies Q s ∧ ∀ r ∈ (s.client c).output, Q r) ?_ hOk hRun
    hStart).2
  rintro s l s' ⟨hSupplies, hOutput⟩ hArrives hStep
  exact supplies_step hSupplies hOutput hArrives hStep

-- ---------------------------------------------------------------------------
-- Without a time-out
-- ---------------------------------------------------------------------------

/-- The thread of the call is in no other call. -/
theorem roles_entered (h : Roles s) (hLock : s.lock = none)
    (hOutside : (s.client c).pc.inside = false) :
    Roles (s.entered c ordered ids timeout) := by
  have hMe : (s.entered c ordered ids timeout).client c = _ := entered_client
  refine h.turn (c := c) (fun c' hc => client_set_of_ne _ _ hc) (.inr ⟨.inl hLock, ?_⟩)
    (.inl ⟨rfl, ?_⟩) (fun hNo => ?_) (fun _ _ hPolling => ?_)
  · rw [hMe]
    rfl
  · rw [hMe, hOutside]
    rfl
  · rw [hMe] at hNo
    exact absurd hNo (by simp [Pc.mayWait])
  · rw [hMe] at hPolling
    exact absurd hPolling (by simp)

/-- While `c` scans, with the lock, nobody else touches the finished resources. -/
theorem scanning_frame (h : Roles s) (hPc : (s.client c).pc = .scanning)
    (hStep : step s l = some s') :
    l = .scan c ∨ s'.client c = s.client c ∧ s'.finishedResources = s.finishedResources := by
  have hMine : s.lock = some c := (h.lock c).mp (by simp [hPc, Pc.locked])
  have hNotFree : s.lock ≠ none := by rw [hMine]; simp
  -- another one with the lock would be `c`
  have hLocked : ∀ c₀, (s.client c₀).pc.locked = true → c₀ = c := by
    intro c₀ hLocked
    have hSame := (h.lock c₀).mp hLocked
    rw [hMine, Option.some.injEq] at hSame
    exact hSame.symm
  have hOther : ∀ c₀, (s.client c₀).pc ≠ .scanning → c ≠ c₀ := by
    rintro c₀ hNe rfl
    exact hNe hPc
  cases moves_of_step hStep with
  | arrive r => exact .inr ⟨rfl, rfl⟩
  | setCancel => exact .inr ⟨rfl, rfl⟩
  | stopQueue => exact .inr ⟨rfl, rfl⟩
  | @call c₀ hPc₀ => exact .inr ⟨client_set_of_ne s _ (hOther c₀ (by simp [hPc₀])), rfl⟩
  | enter hLock => exact absurd hLock hNotFree
  | yielded hLock => exact absurd hLock hNotFree
  | gotNothing hLock => exact absurd hLock hNotFree
  | gotItem hLock => exact absurd hLock hNotFree
  | giveUp hLock => exact absurd hLock hNotFree
  | wake hLock => exact absurd hLock hNotFree
  | @take c₀ _ _ hPc₀ => exact .inr ⟨client_set_of_ne s _ (hOther c₀ (by simp [hPc₀])), rfl⟩
  | @takeNothing c₀ hPc₀ => exact .inr ⟨client_set_of_ne s _ (hOther c₀ (by simp [hPc₀])), rfl⟩
  | @scanOrdered c₀ hPc₀ => exact .inl (by rw [hLocked c₀ (by rw [hPc₀]; rfl)])
  | @scanUnordered c₀ hPc₀ => exact .inl (by rw [hLocked c₀ (by rw [hPc₀]; rfl)])
  | @store c₀ _ _ _ _ hPc₀ =>
    exact absurd (hLocked c₀ (by rw [hPc₀]; rfl)) (hOther c₀ (by simp [hPc₀])).symm
  | @pollTake c₀ _ _ _ _ hPc₀ =>
    exact absurd (hLocked c₀ (by rw [hPc₀]; rfl)) (hOther c₀ (by simp [hPc₀])).symm
  | @pollEmpty c₀ _ _ hPc₀ =>
    exact absurd (hLocked c₀ (by rw [hPc₀]; rfl)) (hOther c₀ (by simp [hPc₀])).symm

omit [DecidableEq κ] in
/-- Nothing happens to a call that has returned. -/
theorem turn_of_returned {me' : Client} {b : Bool} (hPc : (s.client c).pc = .returned b)
    (hTurn : Turn s l c me') : me' = s.client c := by
  cases hTurn <;> simp_all

/-- An unordered call without a time-out: what it has found, and what it will find. -/
def Sweeping (found : List Resource) (s : State κ) (c : κ) : Prop :=
  ((s.client c).pc = .scanning ∧ (s.client c).ordered = false ∧ (s.client c).timeout = false ∧
      (s.client c).iter.Nodup ∧
      (s.client c).output ++ (s.client c).iter.filterMap s.finishedResources = found) ∨
    (∃ b, (s.client c).pc = .returned b) ∧ (s.client c).output = found

/-- The id has been taken, and does not come again. -/
theorem filterMap_update_of_not_mem {f : Int → Option Resource} {rest : List Int} {id : Int}
    (h : id ∉ rest) : rest.filterMap (Function.update f id none) = rest.filterMap f := by
  refine List.filterMap_congr fun i hi => ?_
  refine Function.update_of_ne ?_ _ _
  rintro rfl
  exact h hi

theorem sweeping_scan {found : List Resource} (h : Sweeping found s c)
    (hPc : (s.client c).pc = .scanning) : Sweeping found (s.scanUnordered c) c := by
  obtain ⟨-, hOrdered, hTimeout, hNodup, hFound⟩ | ⟨⟨b, hReturned⟩, -⟩ := h
  · unfold State.scanUnordered
    dsimp only
    split
    · rename_i hIter
      right
      rw [hIter, List.filterMap_nil, List.append_nil] at hFound
      show (∃ b, ((s.set c _).client c).pc = .returned b) ∧ ((s.set c _).client c).output = found
      rw [client_set_self]
      exact ⟨⟨_, rfl⟩, hFound⟩
    · rename_i id rest hIter
      rw [hIter] at hNodup hFound
      left
      split
      · rename_i r hSome
        rw [List.filterMap_cons, hSome] at hFound
        unfold State.set
        simp only [Function.update_self]
        refine ⟨hPc, hOrdered, hTimeout, hNodup.of_cons, ?_⟩
        rw [filterMap_update_of_not_mem (List.nodup_cons.mp hNodup).1, List.append_assoc]
        exact hFound
      · rename_i hNone
        rw [List.filterMap_cons, hNone] at hFound
        rw [if_neg (by simp [hTimeout])]
        unfold State.set
        simp only [Function.update_self]
        exact ⟨hPc, hOrdered, hTimeout, hNodup.of_cons, hFound⟩
  · exact absurd (hPc.symm.trans hReturned) (by simp)

theorem sweeping_step {found : List Resource} (hRoles : Roles s) (h : Sweeping found s c)
    (hStep : step s l = some s') : Sweeping found s' c := by
  by_cases hPc : (s.client c).pc = .scanning
  · rcases scanning_frame hRoles hPc hStep with rfl | ⟨hClient, hFinished⟩
    · have hOrdered : (s.client c).ordered = false := by
        rcases h with ⟨-, hOrdered, -⟩ | ⟨⟨b, hReturned⟩, -⟩
        · exact hOrdered
        · exact absurd (hPc.symm.trans hReturned) (by simp)
      simp only [step, hPc, hOrdered, Bool.false_eq_true, if_false, Option.some.injEq] at hStep
      rw [← hStep]
      exact sweeping_scan h hPc
    · rw [Sweeping, hClient, hFinished]
      exact h
  · obtain ⟨hScanning, -⟩ | ⟨⟨b, hReturned⟩, hOutput⟩ := h
    · exact absurd hScanning hPc
    · have hSame : s'.client c = s.client c :=
        turn_of_returned hReturned (turn_of_moves (moves_of_step hStep))
      rw [Sweeping, hSame]
      exact .inr ⟨⟨b, hReturned⟩, hOutput⟩

/-- **An unordered call without a time-out** takes what is finished, in the order of its ids. -/
theorem nonblocking_output {first : List Int} {b : Bool} (hNodup : first.Nodup) (hRoles : Roles s)
    (hLock : s.lock = none) (hOutside : (s.client c).pc.inside = false)
    (hRun : run step (s.entered c false first false) labels = some s')
    (hReturned : (s'.client c).pc = .returned b) :
    (s'.client c).output = first.filterMap s.finishedResources := by
  have hStart : Roles (s.entered c false first false) ∧
      Sweeping (first.filterMap s.finishedResources) (s.entered c false first false) c := by
    refine ⟨roles_entered hRoles hLock hOutside, .inl ?_⟩
    rw [entered_client]
    exact ⟨rfl, rfl, rfl, hNodup, rfl⟩
  have hEnd := run_invariant
    (fun t => Roles t ∧ Sweeping (first.filterMap s.finishedResources) t c) ?_ hRun hStart
  · obtain ⟨hScanning, -⟩ | ⟨-, hOutput⟩ := hEnd.2
    · exact absurd (hReturned.symm.trans hScanning) (by simp)
    · exact hOutput
  · rintro t l t' ⟨hRoles, hSweeping⟩ hStep
    exact ⟨roles_step hRoles hStep, sweeping_step hRoles hSweeping hStep⟩

/-- An ordered call without a time-out that has not begun, or has found nothing. -/
def Resting (ids : List Int) (finished : Int → Option Resource) (s : State κ) (c : κ) : Prop :=
  (s.client c = { Client.new true ids false with pc := .scanning } ∧
    s.finishedResources = finished) ∨
    (∃ b, (s.client c).pc = .returned b) ∧ (s.client c).output = []

theorem resting_scan {finished : Int → Option Resource} (hNone : ∀ id ∈ ids, finished id = none)
    (hClient : s.client c = { Client.new true ids false with pc := .scanning })
    (hFinished : s.finishedResources = finished) : Resting ids finished (s.scanOrdered c) c := by
  have hEnds : s.scanOrdered c =
      { s.set c { Client.new true ids false with pc := .returned true } with lock := none } := by
    unfold State.scanOrdered
    rw [hClient, hFinished]
    cases ids with
    | nil => rfl
    | cons id rest => simp [Client.new, hNone id List.mem_cons_self]
  right
  rw [hEnds]
  show (∃ b, ((s.set c _).client c).pc = .returned b) ∧ ((s.set c _).client c).output = []
  rw [client_set_self]
  exact ⟨⟨true, rfl⟩, rfl⟩

theorem resting_step {finished : Int → Option Resource} (hNone : ∀ id ∈ ids, finished id = none)
    (hRoles : Roles s) (h : Resting ids finished s c) (hStep : step s l = some s') :
    Resting ids finished s' c := by
  obtain ⟨hClient, hFinished⟩ | ⟨⟨b, hPc⟩, hOutput⟩ := h
  · have hPc : (s.client c).pc = .scanning := by rw [hClient]
    rcases scanning_frame hRoles hPc hStep with rfl | ⟨hSame, hKept⟩
    · have hOrdered : (s.client c).ordered = true := by rw [hClient]; rfl
      simp only [step, hPc, hOrdered, if_true, Option.some.injEq] at hStep
      rw [← hStep]
      exact resting_scan hNone hClient hFinished
    · exact .inl ⟨hSame.trans hClient, hKept.trans hFinished⟩
  · have hSame : s'.client c = s.client c :=
      turn_of_returned hPc (turn_of_moves (moves_of_step hStep))
    rw [Resting, hSame]
    exact .inr ⟨⟨b, hPc⟩, hOutput⟩

/-- **An ordered call without a time-out** returns nothing when none of its ids is finished. -/
theorem nonblocking_ordered_nil {b : Bool} (hNone : ∀ id ∈ ids, s.finishedResources id = none)
    (hRoles : Roles s) (hLock : s.lock = none) (hOutside : (s.client c).pc.inside = false)
    (hRun : run step (s.entered c true ids false) labels = some s')
    (hReturned : (s'.client c).pc = .returned b) : (s'.client c).output = [] := by
  have hStart : Roles (s.entered c true ids false) ∧
      Resting ids s.finishedResources (s.entered c true ids false) c :=
    ⟨roles_entered hRoles hLock hOutside, .inl ⟨entered_client, rfl⟩⟩
  have hEnd := run_invariant (fun t => Roles t ∧ Resting ids s.finishedResources t c) ?_ hRun hStart
  · obtain ⟨hScanning, -⟩ | ⟨-, hOutput⟩ := hEnd.2
    · rw [hScanning] at hReturned
      exact absurd hReturned (by simp)
    · exact hOutput
  · rintro t l t' ⟨hRoles, hResting⟩ hStep
    exact ⟨roles_step hRoles hStep, resting_step hNone hRoles hResting hStep⟩

/-- An ordered call without a time-out for the ids `first`: what it has found, it has found in their
order. -/
structure Following (first : List Int) (me : Client) : Prop where
  ordered : me.ordered = true
  timeout : me.timeout = false
  ids : me.ids = first
  output : me.output.map Resource.id = first.take me.index
  pc : me.pc = .scanning ∨ ∃ b, me.pc = .returned b

omit [DecidableEq κ] in
theorem following_turn {first : List Int} {me' : Client} (hKeyed : Keyed s)
    (h : Following first (s.client c)) (hTurn : Turn s l c me') : Following first me' := by
  cases hTurn with
  | stays => exact h
  | endsOrdered => exact ⟨h.ordered, h.timeout, h.ids, h.output, .inr ⟨true, rfl⟩⟩
  | collectsOrdered hOrdered hPc hId hFound =>
    refine ⟨h.ordered, h.timeout, h.ids, ?_, h.pc⟩
    rw [h.ids] at hId
    rw [take_succ_of_getElem? hId, List.map_append, h.output, List.map_singleton, hKeyed _ _ hFound]
  | awaits hPc hTimeout => exact absurd (h.timeout.symm.trans hTimeout) (by decide)
  | endsUnordered hOrdered => exact absurd (h.ordered.symm.trans hOrdered) (by decide)
  | skips hOrdered => exact absurd (h.ordered.symm.trans hOrdered) (by decide)
  | collectsUnordered hOrdered => exact absurd (h.ordered.symm.trans hOrdered) (by decide)
  | _ => rcases h.pc with hPc | ⟨b, hPc⟩ <;> simp_all

/-- **An ordered call without a time-out** returns the resources of the first of its ids. -/
theorem nonblocking_ordered_ids (hKeyed : Keyed s)
    (hRun : run step (s.entered c true ids false) labels = some s') :
    (s'.client c).output.map Resource.id = ids.take (s'.client c).index := by
  have hStart : Keyed (s.entered c true ids false) ∧
      Following ids ((s.entered c true ids false).client c) := by
    refine ⟨hKeyed, ?_⟩
    rw [entered_client]
    exact ⟨rfl, rfl, rfl, rfl, .inl rfl⟩
  have hEnd := run_invariant (fun t => Keyed t ∧ Following ids (t.client c)) ?_ hRun hStart
  · exact hEnd.2.output
  · rintro t l t' ⟨hKeyed, hFollowing⟩ hStep
    exact ⟨keyed_step hKeyed hStep,
      following_turn hKeyed hFollowing (turn_of_moves (moves_of_step hStep))⟩

-- ---------------------------------------------------------------------------
-- The end of a call without a time-out
-- ---------------------------------------------------------------------------

/-- What a call has still to look at. -/
def Client.ahead (me : Client) : Nat :=
  if me.ordered then me.ids.length - me.index else me.iter.length

/-- Client `c` makes a pass of its `while` loop. -/
def Label.isScan (c : κ) : Label κ → Bool
  | .scan c' => decide (c' = c)
  | _ => false

theorem isScan_iff : l.isScan c = true ↔ l = .scan c := by
  cases l <;> simp [Label.isScan]

/-- A call without a time-out for `n` ids, after so many passes of its loop. -/
structure Advancing (n passes : Nat) (me : Client) : Prop where
  timeout : me.timeout = false
  pc : (me.pc = .scanning ∧ passes + me.ahead ≤ n) ∨ (∃ b, me.pc = .returned b) ∧ passes ≤ n + 1

theorem advancing_scanOrdered {n passes : Nat} (hOrdered : (s.client c).ordered = true)
    (hTimeout : (s.client c).timeout = false) (hPc : (s.client c).pc = .scanning)
    (hAhead : passes + (s.client c).ahead ≤ n) :
    Advancing n (passes + 1) ((s.scanOrdered c).client c) := by
  have hEnds : Advancing n (passes + 1) { s.client c with pc := .returned true } :=
    ⟨hTimeout, .inr ⟨⟨true, rfl⟩, by omega⟩⟩
  unfold Client.ahead at hAhead
  rw [if_pos hOrdered] at hAhead
  unfold State.scanOrdered
  dsimp only
  split
  · show Advancing n (passes + 1) ((s.set c _).client c)
    rw [client_set_self]
    exact hEnds
  · rename_i id hId
    have hLess := (List.getElem?_eq_some_iff.mp hId).1
    split
    · show Advancing n (passes + 1) ((s.set c _).client c)
      rw [client_set_self]
      refine ⟨hTimeout, .inl ⟨hPc, ?_⟩⟩
      unfold Client.ahead
      rw [if_pos hOrdered]
      dsimp only
      omega
    · rw [if_neg (by simp [hTimeout])]
      show Advancing n (passes + 1) ((s.set c _).client c)
      rw [client_set_self]
      exact hEnds

theorem advancing_scanUnordered {n passes : Nat} (hOrdered : (s.client c).ordered = false)
    (hTimeout : (s.client c).timeout = false) (hPc : (s.client c).pc = .scanning)
    (hAhead : passes + (s.client c).ahead ≤ n) :
    Advancing n (passes + 1) ((s.scanUnordered c).client c) := by
  have hNot : ¬ (s.client c).ordered = true := by simp [hOrdered]
  unfold Client.ahead at hAhead
  rw [if_neg hNot] at hAhead
  unfold State.scanUnordered
  dsimp only
  split
  · show Advancing n (passes + 1) ((s.set c _).client c)
    rw [client_set_self]
    exact ⟨hTimeout, .inr ⟨⟨_, rfl⟩, by omega⟩⟩
  · rename_i id rest hIter
    rw [hIter, List.length_cons] at hAhead
    -- one id less, found or not
    have hNext : ∀ {me : Client}, me.timeout = false → me.pc = .scanning → me.ordered = false →
        me.iter = rest → Advancing n (passes + 1) me := by
      intro me hTimeout hPc hOrdered hIter
      refine ⟨hTimeout, .inl ⟨hPc, ?_⟩⟩
      unfold Client.ahead
      rw [if_neg (by simp [hOrdered]), hIter]
      omega
    split
    · show Advancing n (passes + 1) ((s.set c _).client c)
      rw [client_set_self]
      exact hNext hTimeout hPc hOrdered rfl
    · rw [if_neg (by simp [hTimeout]), client_set_self]
      exact hNext hTimeout hPc hOrdered rfl

/-- One step: a pass of the loop has one id less ahead, and the others do not matter. -/
theorem advancing_step {n passes : Nat} (hRoles : Roles s) (h : Advancing n passes (s.client c))
    (hStep : step s l = some s') :
    Advancing n (passes + (l.isScan c).toNat) (s'.client c) := by
  rcases h.pc with ⟨hPc, hAhead⟩ | ⟨⟨b, hPc⟩, hPasses⟩
  · cases hScan : l.isScan c with
    | true =>
      obtain rfl := isScan_iff.mp hScan
      simp only [step, hPc, Option.some.injEq] at hStep
      rw [← hStep]
      split
      · rename_i hOrdered
        exact advancing_scanOrdered hOrdered h.timeout hPc hAhead
      · rename_i hOrdered
        exact advancing_scanUnordered (eq_false_of_ne_true hOrdered) h.timeout hPc hAhead
    | false =>
      rcases scanning_frame hRoles hPc hStep with hScan' | ⟨hClient, -⟩
      · exact absurd (hScan.symm.trans (isScan_iff.mpr hScan')) (by decide)
      · rw [hClient]
        exact h
  · have hSame : s'.client c = s.client c :=
      turn_of_returned hPc (turn_of_moves (moves_of_step hStep))
    have hScan : l.isScan c = false := by
      by_contra hScan
      obtain rfl := isScan_iff.mp (eq_true_of_ne_false hScan)
      simp [step, hPc] at hStep
    rw [hSame, hScan]
    exact h

/-- **A call without a time-out comes back.** It has returned after a pass for every id and one
more, and until then it can make the next one, whatever the others do. -/
theorem nonblocking_comes_back (hRoles : Roles s) (hLock : s.lock = none)
    (hOutside : (s.client c).pc.inside = false)
    (hRun : run step (s.entered c ordered ids false) labels = some s') :
    (∃ b, (s'.client c).pc = .returned b) ∧ labels.countP (·.isScan c) ≤ ids.length + 1 ∨
      (step s' (.scan c)).isSome ∧ labels.countP (·.isScan c) ≤ ids.length := by
  have hEnd := run_history
    (fun labels t => Roles t ∧ Advancing ids.length (labels.countP (·.isScan c)) (t.client c)) ?_ ?_
    hRun
  · rcases hEnd.2.pc with ⟨hPc, hAhead⟩ | hReturned
    · exact .inr ⟨by simp [step, hPc], by omega⟩
    · exact .inl hReturned
  · refine ⟨roles_entered hRoles hLock hOutside, ?_⟩
    rw [entered_client]
    refine ⟨rfl, .inl ⟨rfl, ?_⟩⟩
    cases ordered <;> simp [Client.ahead, Client.new]
  · rintro labels l t t' ⟨hRoles, hAdvancing⟩ hStep
    refine ⟨roles_step hRoles hStep, ?_⟩
    have hNext := advancing_step hRoles hAdvancing hStep
    rw [List.countP_append, List.countP_singleton]
    cases hScan : l.isScan c with
    | true =>
      rw [hScan] at hNext
      exact hNext
    | false =>
      rw [hScan] at hNext
      exact hNext

end HectorCore.Clients
