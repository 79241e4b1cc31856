import HectorCore.Clients.GetProcessed
import Mathlib.Data.List.Nodup

/-!
# Results — every result reaches the client that asked for it

Any number of clients call `GetProcessedResources` with disjoint sets of ids, and resources
with distinct ids arrive in any order.

* `Effect`, `effect_step`  — what a step can do to the resources: nothing, an arrival, a
  resource taken from the queue, or one that moves between two places;
* `Placed`, `placed_step`  — every resource taken from the queue is in exactly one place;
* `ClientOk`, `clientsOk_step` — the ids of a client are its first ids without those of its output;
* `results_reach_their_client` — both, after every run.
-/

namespace HectorCore.Clients

variable {κ : Type} [DecidableEq κ]

-- ---------------------------------------------------------------------------
-- Where a resource can be
-- ---------------------------------------------------------------------------

/-- The resource in the client's hand. -/
def Pc.held : Pc → Option Resource
  | .gotItem r => r
  | .storing r _ _ => some r
  | _ => none

inductive Place (κ : Type) where
  | held (c : κ)
  | finished
  | output (c : κ)

/-- The resource is at this place. -/
def At (s : State κ) (r : Resource) : Place κ → Prop
  | .held c => (s.client c).pc.held = some r
  | .finished => s.finishedResources r.id = some r
  | .output c => r ∈ (s.client c).output

/-- What the places see of a client. -/
def Client.view (me : Client) : Option Resource × List Resource := (me.pc.held, me.output)

/-- Nothing in hand before or after, and the same output. -/
theorem view_eq {me me' : Client} (hHeld : me.pc.held = none) (hHeld' : me'.pc.held = none)
    (hOutput : me'.output = me.output) : me'.view = me.view := by
  rw [Client.view, Client.view, hHeld, hHeld', hOutput]

omit [DecidableEq κ] in
@[simp] theorem view_signalSend (s : State κ) (c : κ) :
    (s.signalSend.client c).view = (s.client c).view := by
  simp only [State.signalSend, Client.view]
  split
  · rename_i b hPc
    rw [hPc]
    rfl
  · rfl

/-- A client's record changes, but not what the places see of it. -/
theorem view_set (s : State κ) (c : κ) {me : Client}
    (hView : me.view = (s.client c).view) (c' : κ) :
    ((s.set c me).client c').view = (s.client c').view := by
  by_cases hc : c' = c
  · rw [hc, client_set_self, hView]
  · rw [client_set_of_ne s me hc]

-- ---------------------------------------------------------------------------
-- What a step can do
-- ---------------------------------------------------------------------------

/-- No resource moves. -/
structure Quiet (s s' : State κ) : Prop where
  view : ∀ c, (s'.client c).view = (s.client c).view
  finished : s'.finishedResources = s.finishedResources
  taken : s'.taken = s.taken
  arrived : s'.arrived = s.arrived
  queue : s'.queue = s.queue

omit [DecidableEq κ] in
theorem Quiet.trans {s s' s'' : State κ} (h : Quiet s s') (h' : Quiet s' s'') : Quiet s s'' :=
  ⟨fun c => (h'.view c).trans (h.view c), h'.finished.trans h.finished, h'.taken.trans h.taken,
    h'.arrived.trans h.arrived, h'.queue.trans h.queue⟩

omit [DecidableEq κ] in
theorem quiet_signalSend (s : State κ) : Quiet s s.signalSend :=
  ⟨view_signalSend s, rfl, rfl, rfl, rfl⟩

theorem quiet_set {s : State κ} {c : κ} {me : Client} (hView : me.view = (s.client c).view) :
    Quiet s (s.set c me) :=
  ⟨view_set s c hView, rfl, rfl, rfl, rfl⟩

variable {l : Label κ}

/-- The effect of a step on the resources. -/
inductive Effect (l : Label κ) (s s' : State κ) : Prop where
  | quiet (hQuiet : Quiet s s')
  | empties (hView : ∀ c, (s'.client c).view = (s.client c).view)
      (hFinished : s'.finishedResources = s.finishedResources) (hTaken : s'.taken = s.taken)
      (hArrived : s'.arrived = s.arrived) (hQueue : s'.queue = [])
  | arrives (r : Resource) (hLabel : l = .arrive r)
      (hView : ∀ c, (s'.client c).view = (s.client c).view)
      (hFinished : s'.finishedResources = s.finishedResources) (hTaken : s'.taken = s.taken)
      (hArrived : s'.arrived = s.arrived ++ [r]) (hQueue : s'.queue = s.queue ++ [r])
  /-- From the queue into a client's hand. -/
  | takes (c : κ) (r : Resource) (hBefore : (s.client c).pc.held = none)
      (hAfter : (s'.client c).view = (some r, (s.client c).output))
      (hOthers : ∀ c', c' ≠ c → (s'.client c').view = (s.client c').view)
      (hFinished : s'.finishedResources = s.finishedResources) (hTaken : s'.taken = s.taken ++ [r])
      (hArrived : s'.arrived = s.arrived) (hQueue : s.queue = r :: s'.queue)
  /-- From a client's hand into its output. -/
  | keeps (c : κ) (r : Resource) (hBefore : (s.client c).pc.held = some r)
      (hAfter : (s'.client c).view = (none, (s.client c).output ++ [r]))
      (hOthers : ∀ c', c' ≠ c → (s'.client c').view = (s.client c').view)
      (hFinished : s'.finishedResources = s.finishedResources) (hTaken : s'.taken = s.taken)
      (hArrived : s'.arrived = s.arrived) (hQueue : s'.queue = s.queue)
  /-- From a client's hand into `finishedResources`. -/
  | shares (c : κ) (r : Resource) (hBefore : (s.client c).pc.held = some r)
      (hAfter : (s'.client c).view = (none, (s.client c).output))
      (hOthers : ∀ c', c' ≠ c → (s'.client c').view = (s.client c').view)
      (hFinished : s'.finishedResources = Function.update s.finishedResources r.id (some r))
      (hTaken : s'.taken = s.taken) (hArrived : s'.arrived = s.arrived)
      (hQueue : s'.queue = s.queue)
  /-- From `finishedResources` into a client's output. -/
  | collects (c : κ) (id : Int) (r : Resource) (hBefore : (s.client c).pc.held = none)
      (hFound : s.finishedResources id = some r)
      (hAfter : (s'.client c).view = (none, (s.client c).output ++ [r]))
      (hOthers : ∀ c', c' ≠ c → (s'.client c').view = (s.client c').view)
      (hFinished : s'.finishedResources = Function.update s.finishedResources id none)
      (hTaken : s'.taken = s.taken) (hArrived : s'.arrived = s.arrived)
      (hQueue : s'.queue = s.queue)

theorem quiet_giveUp {s : State κ} {c : κ} (hHeld : (s.client c).pc.held = none) :
    Quiet s (s.giveUp c) := by
  unfold State.giveUp
  dsimp only
  split
  · exact ⟨view_set s c (view_eq hHeld rfl rfl), rfl, rfl, rfl, rfl⟩
  · exact quiet_set (view_eq hHeld rfl rfl)

theorem quiet_await {s : State κ} {c : κ} (hHeld : (s.client c).pc.held = none) :
    Quiet s (s.await c) := by
  unfold State.await
  dsimp only
  split
  · exact ⟨view_set s c (view_eq hHeld rfl rfl), rfl, rfl, rfl, rfl⟩
  · exact ⟨view_set s c (view_eq hHeld rfl rfl), rfl, rfl, rfl, rfl⟩

/-- A call returns and gives the lock back. -/
theorem quiet_return {s : State κ} {c : κ} (hHeld : (s.client c).pc.held = none) (result : Bool) :
    Quiet s { s.set c { s.client c with pc := .returned result } with lock := none } :=
  ⟨view_set s c (view_eq hHeld rfl rfl), rfl, rfl, rfl, rfl⟩

/-- A client finds a result among the finished resources. -/
theorem effect_collects {s s' : State κ} {c : κ} {id : Int} {r : Resource} {me : Client}
    (hHeld : (s.client c).pc.held = none) (hFound : s.finishedResources id = some r)
    (hMe : me.view = (none, (s.client c).output ++ [r]))
    (hNext : s' = { s.set c me with
      finishedResources := Function.update s.finishedResources id none }) : Effect l s s' := by
  subst hNext
  refine .collects c id r hHeld hFound ?_ ?_ rfl rfl rfl rfl
  · show ((s.set c me).client c).view = _
    rw [client_set_self, hMe]
  · intro c' hNe
    show ((s.set c me).client c').view = _
    rw [client_set_of_ne s me hNe]

theorem effect_scanUnordered {s : State κ} {c : κ} (hPc : (s.client c).pc = .scanning) :
    Effect l s (s.scanUnordered c) := by
  have hHeld : (s.client c).pc.held = none := by rw [hPc]; rfl
  unfold State.scanUnordered
  dsimp only
  split
  · exact .quiet (quiet_return hHeld _)
  · split
    · rename_i r hFound
      exact effect_collects hHeld hFound (by simp [Client.view, hHeld]) rfl
    · split
      · exact .quiet (quiet_await hHeld)
      · exact .quiet (quiet_set rfl)

theorem effect_scanOrdered {s : State κ} {c : κ} (hPc : (s.client c).pc = .scanning) :
    Effect l s (s.scanOrdered c) := by
  have hHeld : (s.client c).pc.held = none := by rw [hPc]; rfl
  unfold State.scanOrdered
  dsimp only
  split
  · exact .quiet (quiet_return hHeld _)
  · split
    · rename_i r hFound
      exact effect_collects hHeld hFound (by simp [Client.view, hHeld]) rfl
    · split
      · exact .quiet (quiet_await hHeld)
      · exact .quiet (quiet_return hHeld _)

theorem effect_storeForeign {s : State κ} {c : κ} {r : Resource} {foundMy : Bool}
    (hHeld : (s.client c).pc.held = some r) : Effect l s (s.storeForeign c r foundMy) := by
  refine .shares c r hHeld ?_ ?_ rfl rfl rfl rfl
  · simp [State.storeForeign, State.set, Client.view, Pc.held]
  · intro c' hNe
    show ((s.set c _).client c').view = _
    rw [client_set_of_ne s _ hNe]

theorem effect_store {s : State κ} {c : κ} {r : Resource} {foundMy foundForeign : Bool} {past : Int}
    (hPc : (s.client c).pc = .storing r foundMy foundForeign) :
    Effect l s (s.store c r foundMy foundForeign past) := by
  have hHeld : (s.client c).pc.held = some r := by rw [hPc]; rfl
  -- both functions keep their own result in the same way
  have hKeeps : ∀ me : Client, me.view = (none, (s.client c).output ++ [r]) →
      Effect l s (s.set c me) := by
    intro me hView
    refine .keeps c r hHeld (by rw [client_set_self, hView]) ?_ rfl rfl rfl rfl
    intro c' hNe
    rw [client_set_of_ne s me hNe]
  unfold State.store
  dsimp only
  split
  · split
    · exact hKeeps _ rfl
    · exact effect_storeForeign hHeld
  · split
    · exact hKeeps _ rfl
    · exact effect_storeForeign hHeld

theorem quiet_finishDrain {s : State κ} {c : κ} {foundMy foundForeign : Bool}
    (hHeld : (s.client c).pc.held = none) : Quiet s (s.finishDrain c foundMy foundForeign) := by
  have hScanning : ∀ me : Client, me.view = (s.client c).view → Quiet s (s.set c me).signalSend :=
    fun me hView => (quiet_set hView).trans (quiet_signalSend _)
  unfold State.finishDrain
  dsimp only
  split
  · split
    · have hSignal := hScanning { s.client c with pc := .yielding }
        (view_eq hHeld rfl rfl)
      exact ⟨hSignal.view, rfl, rfl, rfl, rfl⟩
    · exact quiet_set (view_eq hHeld rfl rfl)
  · split
    · exact hScanning _ (view_eq hHeld rfl rfl)
    · exact quiet_set (view_eq hHeld rfl rfl)

/-- The front of the queue goes into a client's hand. -/
theorem effect_takes {s : State κ} {c : κ} {r : Resource} {rest : List Resource} {pc : Pc}
    (hBefore : (s.client c).pc.held = none) (hPc : pc.held = some r)
    (hFront : s.front = some (r, rest)) :
    Effect l s { s.set c { s.client c with pc } with queue := rest, taken := s.taken ++ [r] } := by
  have hQueue : s.queue = r :: rest := by
    unfold State.front at hFront
    split at hFront
    · exact absurd hFront (by simp)
    · split at hFront
      · exact absurd hFront (by simp)
      · rename_i r' rest' hQueue
        obtain ⟨rfl, rfl⟩ := Prod.mk.inj (Option.some.inj hFront)
        exact hQueue
  refine .takes c r hBefore ?_ ?_ rfl rfl rfl hQueue
  · simp [State.set, Client.view, hPc]
  · intro c' hNe
    show ((s.set c _).client c').view = _
    rw [client_set_of_ne s _ hNe]

/-- **What a step can do to the resources.** -/
theorem effect_step {s s' : State κ} (h : step s l = some s') : Effect l s s' := by
  cases moves_of_step h with
  | arrive r => exact .arrives r rfl (fun _ => rfl) rfl rfl rfl rfl
  | setCancel => exact .quiet ⟨fun _ => rfl, rfl, rfl, rfl, rfl⟩
  | stopQueue => exact .empties (fun _ => rfl) rfl rfl rfl rfl
  | call hPc => exact .quiet (quiet_set (by simp [Client.view, hPc, Pc.held]))
  | enter _ hPc =>
    exact .quiet ⟨view_set _ _ (by simp [Client.view, hPc, Pc.held]), rfl, rfl, rfl, rfl⟩
  | yielded _ hPc =>
    exact .quiet ⟨view_set _ _ (by simp [Client.view, hPc, Pc.held]), rfl, rfl, rfl, rfl⟩
  | @gotNothing c _ hPc =>
    -- the reader comes back with nothing, wakes the others and gives up
    have hFlag : Quiet s { s with lock := some c, waitingInQueue := false } :=
      ⟨fun _ => rfl, rfl, rfl, rfl, rfl⟩
    refine .quiet ((hFlag.trans (quiet_signalSend _)).trans (quiet_giveUp ?_))
    have hView := view_signalSend { s with lock := some c, waitingInQueue := false } c
    rw [Client.view, Client.view, Prod.mk.injEq] at hView
    rw [hView.1, hPc]
    rfl
  | gotItem _ hPc =>
    exact .quiet ⟨view_set _ _ (by simp [Client.view, hPc, Pc.held]), rfl, rfl, rfl, rfl⟩
  | @giveUp c _ _ _ hPc =>
    have hFlag : Quiet s { s with lock := some c, waiting := s.waiting - 1 } :=
      ⟨fun _ => rfl, rfl, rfl, rfl, rfl⟩
    exact .quiet (hFlag.trans (quiet_giveUp (by simp [hPc, Pc.held])))
  | @wake c _ _ _ hPc =>
    have hFlag : Quiet s { s with lock := some c, waiting := s.waiting - 1 } :=
      ⟨fun _ => rfl, rfl, rfl, rfl, rfl⟩
    exact .quiet (hFlag.trans (quiet_set (by simp [Client.view, hPc, Pc.held])))
  | take hPc hFront => exact effect_takes (by rw [hPc]; rfl) rfl hFront
  | takeNothing hPc => exact .quiet (quiet_set (view_eq (by rw [hPc]; rfl) rfl rfl))
  | scanOrdered hPc _ => exact effect_scanOrdered hPc
  | scanUnordered hPc _ => exact effect_scanUnordered hPc
  | store hPc => exact effect_store hPc
  | pollTake hPc hFront => exact effect_takes (by rw [hPc]; rfl) rfl hFront
  | pollEmpty hPc _ => exact .quiet (quiet_finishDrain (by rw [hPc]; rfl))

-- ---------------------------------------------------------------------------
-- Exactly one place
-- ---------------------------------------------------------------------------

/-- Every resource taken from the queue is in exactly one place. -/
structure Placed (s : State κ) : Prop where
  keyed : ∀ i r, s.finishedResources i = some r → r.id = i
  known : ∀ r pl, At s r pl → r ∈ s.taken
  placed : ∀ r ∈ s.taken, ∃ pl, At s r pl
  unique : ∀ r pl pl', At s r pl → At s r pl' → pl = pl'
  outputNodup : ∀ c, (s.client c).output.Nodup
  distinct : ((s.taken ++ s.queue).map Resource.id).Nodup
  arrived : ∀ r ∈ s.taken ++ s.queue, r ∈ s.arrived

variable {s s' : State κ}

omit [DecidableEq κ] in
/-- The places of two states agree when the clients' views and the finished resources do. -/
theorem at_congr (hView : ∀ c, (s'.client c).view = (s.client c).view)
    (hFinished : s'.finishedResources = s.finishedResources) (r : Resource) (pl : Place κ) :
    At s' r pl ↔ At s r pl := by
  cases pl with
  | held c => rw [At, At, (Prod.mk.inj (hView c)).1]
  | finished => rw [At, At, hFinished]
  | output c => rw [At, At, (Prod.mk.inj (hView c)).2]

omit [DecidableEq κ] in
theorem Placed.of_same (h : Placed s) (hView : ∀ c, (s'.client c).view = (s.client c).view)
    (hFinished : s'.finishedResources = s.finishedResources) (hTaken : s'.taken = s.taken)
    (hDistinct : ((s'.taken ++ s'.queue).map Resource.id).Nodup)
    (hArrived : ∀ r ∈ s'.taken ++ s'.queue, r ∈ s'.arrived) : Placed s' where
  keyed := by rw [hFinished]; exact h.keyed
  known r pl hAt := by
    rw [hTaken]
    exact h.known r pl ((at_congr hView hFinished r pl).mp hAt)
  placed r hMem := by
    obtain ⟨pl, hAt⟩ := h.placed r (hTaken ▸ hMem)
    exact ⟨pl, (at_congr hView hFinished r pl).mpr hAt⟩
  unique r pl pl' hAt hAt' := h.unique r pl pl' ((at_congr hView hFinished r pl).mp hAt)
    ((at_congr hView hFinished r pl').mp hAt')
  outputNodup c := by rw [(Prod.mk.inj (hView c)).2]; exact h.outputNodup c
  distinct := hDistinct
  arrived := hArrived

omit [DecidableEq κ] in
/-- Two taken resources with one id are one resource. -/
theorem Placed.eq_of_id (h : Placed s) {r r' : Resource} (hr : r ∈ s.taken) (hr' : r' ∈ s.taken)
    (hId : r.id = r'.id) : r = r' := by
  have hNodup : (s.taken.map Resource.id).Nodup := by
    have hBoth := h.distinct
    rw [List.map_append] at hBoth
    exact (List.nodup_append.mp hBoth).1
  exact List.inj_on_of_nodup_map hNodup hr hr' hId

omit [DecidableEq κ] in
/-- A resource that moves from one place to another is in exactly one place again. -/
theorem Placed.move (h : Placed s) {r : Resource} {src dst : Place κ} (hSrc : At s r src)
    (hHere : ∀ pl, At s' r pl ↔ pl = dst)
    (hThere : ∀ r', r' ≠ r → ∀ pl, At s' r' pl ↔ At s r' pl)
    (hKeyed : ∀ i r, s'.finishedResources i = some r → r.id = i)
    (hOutput : ∀ c, (s'.client c).output.Nodup) (hTaken : s'.taken = s.taken)
    (hArrived : s'.arrived = s.arrived) (hQueue : s'.queue = s.queue) : Placed s' where
  keyed := hKeyed
  known r' pl hAt := by
    rw [hTaken]
    by_cases hr : r' = r
    · exact hr ▸ h.known r src hSrc
    · exact h.known r' pl ((hThere r' hr pl).mp hAt)
  placed r' hMem := by
    by_cases hr : r' = r
    · exact ⟨dst, hr ▸ (hHere dst).mpr rfl⟩
    · obtain ⟨pl, hOld⟩ := h.placed r' (hTaken ▸ hMem)
      exact ⟨pl, (hThere r' hr pl).mpr hOld⟩
  unique r' pl pl' hAt hAt' := by
    by_cases hr : r' = r
    · subst hr
      rw [(hHere pl).mp hAt, (hHere pl').mp hAt']
    · exact h.unique r' pl pl' ((hThere r' hr pl).mp hAt) ((hThere r' hr pl').mp hAt')
  outputNodup := hOutput
  distinct := by rw [hTaken, hQueue]; exact h.distinct
  arrived := by rw [hTaken, hQueue, hArrived]; exact h.arrived

omit [DecidableEq κ] in
/-- A new resource in one place. -/
theorem Placed.take (h : Placed s) {r : Resource} {dst : Place κ}
    (hHere : ∀ pl, At s' r pl ↔ pl = dst)
    (hThere : ∀ r', r' ≠ r → ∀ pl, At s' r' pl ↔ At s r' pl)
    (hFinished : s'.finishedResources = s.finishedResources)
    (hOutput : ∀ c, (s'.client c).output = (s.client c).output)
    (hTaken : s'.taken = s.taken ++ [r]) (hArrived : s'.arrived = s.arrived)
    (hQueue : s.queue = r :: s'.queue) : Placed s' where
  keyed := by rw [hFinished]; exact h.keyed
  known r' pl hAt := by
    rw [hTaken, List.mem_append, List.mem_singleton]
    by_cases hr : r' = r
    · exact .inr hr
    · exact .inl (h.known r' pl ((hThere r' hr pl).mp hAt))
  placed r' hMem := by
    by_cases hr : r' = r
    · exact ⟨dst, hr ▸ (hHere dst).mpr rfl⟩
    · rw [hTaken, List.mem_append, List.mem_singleton] at hMem
      obtain ⟨pl, hOld⟩ := h.placed r' (hMem.resolve_right hr)
      exact ⟨pl, (hThere r' hr pl).mpr hOld⟩
  unique r' pl pl' hAt hAt' := by
    by_cases hr : r' = r
    · subst hr
      rw [(hHere pl).mp hAt, (hHere pl').mp hAt']
    · exact h.unique r' pl pl' ((hThere r' hr pl).mp hAt) ((hThere r' hr pl').mp hAt')
  outputNodup c := by rw [hOutput c]; exact h.outputNodup c
  distinct := by
    have hOld := h.distinct
    rw [hQueue] at hOld
    rw [hTaken, List.append_assoc, List.singleton_append]
    exact hOld
  arrived r' hMem := by
    rw [hArrived]
    refine h.arrived r' ?_
    rw [hQueue]
    rwa [hTaken, List.append_assoc, List.singleton_append] at hMem

/-- The resources arrive with distinct ids. -/
def FreshArrival (s : State κ) : Label κ → Prop
  | .arrive r => ∀ r' ∈ s.arrived, r'.id ≠ r.id
  | _ => True

instance (s : State κ) : DecidablePred (FreshArrival s)
  | .arrive r => inferInstanceAs (Decidable (∀ r' ∈ s.arrived, r'.id ≠ r.id))
  | .setCancel | .stopQueue | .call _ | .acquire _ | .wake _ _ | .getItem _ _ | .scan _
  | .store _ _ | .poll _ => inferInstanceAs (Decidable True)

omit [DecidableEq κ] in
/-- A new resource is appended to the queue. -/
theorem Placed.arrive (h : Placed s) {r : Resource} (hFresh : ∀ r' ∈ s.arrived, r'.id ≠ r.id)
    (hView : ∀ c, (s'.client c).view = (s.client c).view)
    (hFinished : s'.finishedResources = s.finishedResources) (hTaken : s'.taken = s.taken)
    (hArrived : s'.arrived = s.arrived ++ [r]) (hQueue : s'.queue = s.queue ++ [r]) :
    Placed s' := by
  refine h.of_same hView hFinished hTaken ?_ ?_
  · rw [hTaken, hQueue, ← List.append_assoc, List.map_append, List.nodup_append]
    refine ⟨h.distinct, by simp, ?_⟩
    intro i hi j hj hij
    obtain ⟨r', hMem, rfl⟩ := List.mem_map.mp hi
    obtain rfl : j = r.id := by simpa using hj
    exact hFresh r' (h.arrived r' hMem) hij
  · intro r' hMem
    rw [hTaken, hQueue, ← List.append_assoc, List.mem_append] at hMem
    rw [hArrived, List.mem_append]
    exact hMem.imp_left (h.arrived r')

section OneClient

variable {c : κ} (hOthers : ∀ c', c' ≠ c → (s'.client c').view = (s.client c').view)

include hOthers

omit [DecidableEq κ] in
/-- Only client `c` and the finished resources have to be looked at, for a resource that
other clients do not have... -/
theorem at_iff_dst {r : Resource} {dst : Place κ}
    (hOld : ∀ c', c' ≠ c → ¬ At s r (.held c') ∧ ¬ At s r (.output c'))
    (hDst : dst = .held c ∨ dst = .finished ∨ dst = .output c)
    (hHeld : At s' r (.held c) ↔ Place.held c = dst)
    (hFinished : At s' r .finished ↔ Place.finished = dst)
    (hOutput : At s' r (.output c) ↔ Place.output c = dst) (pl : Place κ) :
    At s' r pl ↔ pl = dst := by
  cases pl with
  | finished => exact hFinished
  | held c' =>
    by_cases hc : c' = c
    · exact hc ▸ hHeld
    · have hSame : At s' r (.held c') ↔ At s r (.held c') := by
        rw [At, At, (Prod.mk.inj (hOthers c' hc)).1]
      rw [hSame]
      refine iff_of_false (hOld c' hc).1 ?_
      rcases hDst with rfl | rfl | rfl <;> simp [hc]
  | output c' =>
    by_cases hc : c' = c
    · exact hc ▸ hOutput
    · have hSame : At s' r (.output c') ↔ At s r (.output c') := by
        rw [At, At, (Prod.mk.inj (hOthers c' hc)).2]
      rw [hSame]
      refine iff_of_false (hOld c' hc).2 ?_
      rcases hDst with rfl | rfl | rfl <;> simp [hc]

omit [DecidableEq κ] in
/-- ... and for a resource that does not move. -/
theorem at_iff_same {r : Resource} (hHeld : At s' r (.held c) ↔ At s r (.held c))
    (hFinished : At s' r .finished ↔ At s r .finished)
    (hOutput : At s' r (.output c) ↔ At s r (.output c)) (pl : Place κ) :
    At s' r pl ↔ At s r pl := by
  cases pl with
  | finished => exact hFinished
  | held c' =>
    by_cases hc : c' = c
    · exact hc ▸ hHeld
    · rw [At, At, (Prod.mk.inj (hOthers c' hc)).1]
  | output c' =>
    by_cases hc : c' = c
    · exact hc ▸ hOutput
    · rw [At, At, (Prod.mk.inj (hOthers c' hc)).2]

omit [DecidableEq κ] in
/-- The outputs stay without duplicates. -/
theorem output_nodup (hPlaced : Placed s) (hMine : (s'.client c).output.Nodup) (c' : κ) :
    (s'.client c').output.Nodup := by
  by_cases hc : c' = c
  · exact hc ▸ hMine
  · rw [(Prod.mk.inj (hOthers c' hc)).2]
    exact hPlaced.outputNodup c'

end OneClient

omit [DecidableEq κ] in
/-- A resource that is at one place is not in the hand or the output of another client. -/
theorem Placed.nowhere_else (h : Placed s) {r : Resource} {src : Place κ} {c : κ}
    (hSrc : At s r src)
    (hMine : src = .held c ∨ src = .finished) (c' : κ) (hNe : c' ≠ c) :
    ¬ At s r (.held c') ∧ ¬ At s r (.output c') := by
  constructor
  · intro hAt
    have hEq := h.unique r _ _ hSrc hAt
    rcases hMine with rfl | rfl
    · exact hNe (Place.held.inj hEq).symm
    · exact absurd hEq (by simp)
  · intro hAt
    have hEq := h.unique r _ _ hSrc hAt
    rcases hMine with rfl | rfl <;> exact absurd hEq (by simp)

omit [DecidableEq κ] in
/-- The output with one more resource, which was not in it. -/
theorem Placed.nodup_snoc (h : Placed s) {r : Resource} {src : Place κ} {c : κ} (hSrc : At s r src)
    (hMine : src ≠ .output c) : ((s.client c).output ++ [r]).Nodup := by
  rw [List.nodup_append]
  refine ⟨h.outputNodup c, by simp, ?_⟩
  rintro r' hMem r'' hr rfl
  obtain rfl : r' = r := by simpa using hr
  exact hMine (h.unique r' _ _ hSrc hMem)

omit [DecidableEq κ] in
/-- A slot of `finishedResources` is filled or emptied: the others are as before. -/
theorem Placed.keyed_update (h : Placed s) {i : Int} {o : Option Resource}
    (hFinished : s'.finishedResources = Function.update s.finishedResources i o)
    (ho : ∀ r, o = some r → r.id = i) :
    ∀ j r, s'.finishedResources j = some r → r.id = j := by
  intro j r hAt
  rw [hFinished] at hAt
  by_cases hj : j = i
  · rw [hj, Function.update_self] at hAt
    rw [hj]
    exact ho r hAt
  · rw [Function.update_of_ne hj] at hAt
    exact h.keyed j r hAt

omit [DecidableEq κ] in
/-- A resource that was not in that slot and is not put there stays where it was. -/
theorem at_finished_update {r : Resource} {i : Int} {o : Option Resource}
    (hFinished : s'.finishedResources = Function.update s.finishedResources i o)
    (hOld : r.id = i → s.finishedResources i ≠ some r) (hNew : o ≠ some r) :
    At s' r .finished ↔ At s r .finished := by
  rw [At, At, hFinished]
  by_cases hId : r.id = i
  · rw [hId, Function.update_self]
    exact iff_of_false hNew (hOld hId)
  · rw [Function.update_of_ne hId]

/-- **Every step keeps every resource in exactly one place.** -/
theorem placed_step (hFresh : FreshArrival s l) (hPlaced : Placed s)
    (hStep : step s l = some s') : Placed s' := by
  cases effect_step hStep with
  | quiet hQuiet =>
    refine hPlaced.of_same hQuiet.view hQuiet.finished hQuiet.taken ?_ ?_
    · rw [hQuiet.taken, hQuiet.queue]; exact hPlaced.distinct
    · rw [hQuiet.taken, hQuiet.queue, hQuiet.arrived]; exact hPlaced.arrived
  | empties hView hFinished hTaken hArrived hQueue =>
    refine hPlaced.of_same hView hFinished hTaken ?_ ?_
    · have hOld := hPlaced.distinct
      rw [List.map_append] at hOld
      rw [hTaken, hQueue, List.append_nil]
      exact (List.nodup_append.mp hOld).1
    · intro r hMem
      rw [hTaken, hQueue, List.append_nil] at hMem
      rw [hArrived]
      exact hPlaced.arrived r (List.mem_append_left _ hMem)
  | arrives r hLabel hView hFinished hTaken hArrived hQueue =>
    rw [hLabel] at hFresh
    exact hPlaced.arrive hFresh hView hFinished hTaken hArrived hQueue
  | takes c r hBefore hAfter hOthers hFinished hTaken hArrived hQueue =>
    obtain ⟨hHeld, hOutput⟩ := Prod.mk.inj hAfter
    -- the resource was still in the queue, so it was at no place
    have hNew : ∀ pl, ¬ At s r pl := by
      intro pl hAt
      have hDistinct := hPlaced.distinct
      rw [hQueue, List.map_append, List.nodup_append] at hDistinct
      exact hDistinct.2.2 r.id (List.mem_map_of_mem (hPlaced.known r pl hAt)) r.id (by simp) rfl
    refine hPlaced.take (r := r)
      (at_iff_dst hOthers (fun c' _ => ⟨hNew _, hNew _⟩) (.inl rfl) ?_ ?_ ?_)
      (fun r' hr => at_iff_same hOthers ?_ ?_ ?_) hFinished ?_ hTaken hArrived hQueue
    · simp [At, hHeld]
    · rw [At, hFinished]
      exact iff_of_false (hNew .finished) (by simp)
    · rw [At, hOutput]
      exact iff_of_false (hNew (.output c)) (by simp)
    · simp [At, hHeld, hBefore, Ne.symm hr]
    · rw [At, At, hFinished]
    · rw [At, At, hOutput]
    · intro c'
      by_cases hc : c' = c
      · rw [hc, hOutput]
      · exact (Prod.mk.inj (hOthers c' hc)).2
  | keeps c r hBefore hAfter hOthers hFinished hTaken hArrived hQueue =>
    obtain ⟨hHeld, hOutput⟩ := Prod.mk.inj hAfter
    have hSrc : At s r (.held c) := hBefore
    refine hPlaced.move hSrc (at_iff_dst hOthers (hPlaced.nowhere_else hSrc (.inl rfl))
      (.inr (.inr rfl)) ?_ ?_ ?_) (fun r' hr => at_iff_same hOthers ?_ ?_ ?_) ?_
      (output_nodup hOthers hPlaced ?_) hTaken hArrived hQueue
    · simp [At, hHeld]
    · rw [At, hFinished]
      refine iff_of_false (fun hAt => ?_) (by simp)
      exact absurd (hPlaced.unique r _ .finished hSrc hAt) (by simp)
    · simp [At, hOutput]
    · simp [At, hHeld, hBefore, Ne.symm hr]
    · rw [At, At, hFinished]
    · simp [At, hOutput, hr]
    · rw [hFinished]; exact hPlaced.keyed
    · rw [hOutput]
      exact hPlaced.nodup_snoc hSrc (by simp)
  | shares c r hBefore hAfter hOthers hFinished hTaken hArrived hQueue =>
    obtain ⟨hHeld, hOutput⟩ := Prod.mk.inj hAfter
    have hSrc : At s r (.held c) := hBefore
    refine hPlaced.move hSrc (at_iff_dst hOthers (hPlaced.nowhere_else hSrc (.inl rfl))
      (.inr (.inl rfl)) ?_ ?_ ?_) (fun r' hr => at_iff_same hOthers ?_ ?_ ?_) ?_
      (output_nodup hOthers hPlaced ?_) hTaken hArrived hQueue
    · simp [At, hHeld]
    · simp [At, hFinished]
    · rw [At, hOutput]
      refine iff_of_false (fun hAt => ?_) (by simp)
      exact absurd (hPlaced.unique r _ (.output c) hSrc hAt) (by simp)
    · simp [At, hHeld, hBefore, Ne.symm hr]
    · -- the slot was free: another resource there would have the same id
      refine at_finished_update hFinished ?_ fun hEq => hr (Option.some.inj hEq).symm
      intro hId hAt
      have hThere : At s r' .finished := by rw [At, hId]; exact hAt
      exact hr (hPlaced.eq_of_id (hPlaced.known r' _ hThere) (hPlaced.known r _ hSrc) hId)
    · rw [At, At, hOutput]
    · refine hPlaced.keyed_update hFinished ?_
      rintro r' ⟨⟩
      rfl
    · rw [hOutput]; exact hPlaced.outputNodup c
  | collects c id r hBefore hFound hAfter hOthers hFinished hTaken hArrived hQueue =>
    obtain ⟨hHeld, hOutput⟩ := Prod.mk.inj hAfter
    have hId : r.id = id := hPlaced.keyed id r hFound
    have hSrc : At s r .finished := by rw [At, hId]; exact hFound
    refine hPlaced.move hSrc (at_iff_dst hOthers (hPlaced.nowhere_else hSrc (.inr rfl))
      (.inr (.inr rfl)) ?_ ?_ ?_) (fun r' hr => at_iff_same hOthers ?_ ?_ ?_) ?_
      (output_nodup hOthers hPlaced ?_) hTaken hArrived hQueue
    · simp [At, hHeld]
    · simp [At, hFinished, hId]
    · simp [At, hOutput]
    · simp [At, hHeld, hBefore]
    · refine at_finished_update hFinished (fun _ hAt => hr ?_) nofun
      exact Option.some.inj (hAt.symm.trans hFound)
    · simp [At, hOutput, hr]
    · exact hPlaced.keyed_update hFinished nofun
    · rw [hOutput]
      exact hPlaced.nodup_snoc hSrc (by simp)

-- ---------------------------------------------------------------------------
-- The ids of a client
-- ---------------------------------------------------------------------------

/-- The iterator is stale: the inner loop has erased ids, and it will be set anew. -/
def Pc.foundMy : Pc → Bool
  | .storing _ foundMy _ => foundMy
  | .polling foundMy _ => foundMy
  | _ => false

/-- A call of `GetProcessedResources` that began with the ids `first`: the ids that are left
are those without a result, the iterator visits a final part of them, and every result was
asked for. -/
structure ClientOk (first : List Int) (me : Client) : Prop where
  unordered : me.ordered = false
  ids : me.ids = first.filter fun i => decide (i ∉ me.output.map Resource.id)
  iter : me.pc.foundMy = false → me.iter <:+ me.ids
  output : ∀ r ∈ me.output, r.id ∈ first

namespace ClientOk

variable {first : List Int} {me : Client}

theorem setPc (h : ClientOk first me) {pc : Pc} (hPc : pc.foundMy = false → me.pc.foundMy = false) :
    ClientOk first { me with pc } :=
  ⟨h.unordered, h.ids, fun hFound => h.iter (hPc hFound), h.output⟩

/-- The iterator starts again. -/
theorem restart (h : ClientOk first me) (timeout result : Bool) (index : Nat) (pc : Pc) :
    ClientOk first { me with timeout, iter := me.ids, result, index, pc } :=
  ⟨h.unordered, h.ids, fun _ => List.suffix_refl _, h.output⟩

/-- The ids with one more result. -/
theorem ids_erase (h : ClientOk first me) (hNodup : first.Nodup) (r : Resource) :
    me.ids.erase r.id =
      first.filter fun i => decide (i ∉ (me.output ++ [r]).map Resource.id) := by
  have hIds : me.ids.Nodup := by rw [h.ids]; exact hNodup.filter _
  rw [hIds.erase_eq_filter, h.ids, List.filter_filter]
  refine List.filter_congr fun i _ => ?_
  simp only [List.map_append, List.mem_append, List.map_cons, List.map_nil, List.mem_singleton,
    not_or, bne, Bool.decide_and]
  rw [Bool.and_comm]
  congr 1
  by_cases hi : i = r.id <;> simp [hi]

/-- A result for one of the remaining ids. -/
theorem gain (h : ClientOk first me) (hNodup : first.Nodup) {r : Resource} (hMem : r.id ∈ me.ids)
    {iter : List Int} {pc : Pc} (hIter : pc.foundMy = false → iter <:+ me.ids.erase r.id) :
    ClientOk first
      { me with output := me.output ++ [r], iter, ids := me.ids.erase r.id, pc } := by
  refine ⟨h.unordered, h.ids_erase hNodup r, hIter, ?_⟩
  intro r' hMem'
  rcases List.mem_append.mp hMem' with hOld | hNew
  · exact h.output r' hOld
  · rw [List.mem_singleton.mp hNew]
    rw [h.ids] at hMem
    exact List.mem_of_mem_filter hMem

end ClientOk

/-- The iterator moves on past an id that is erased. -/
theorem suffix_erase {id : Int} {rest l : List Int} (hSuffix : id :: rest <:+ l)
    (hNodup : l.Nodup) :
    rest <:+ l.erase id := by
  obtain ⟨pre, rfl⟩ := hSuffix
  have hNew : id ∉ pre := by
    intro hMem
    exact (List.nodup_append.mp hNodup).2.2 id hMem id (by simp) rfl
  rw [List.erase_append_right _ hNew, List.erase_cons_head]
  exact List.suffix_append pre rest

/-- Every client is in order. -/
def ClientsOk (first : κ → List Int) (s : State κ) : Prop :=
  ∀ c, ClientOk (first c) (s.client c)

variable {first : κ → List Int}

theorem ClientsOk.set (h : ClientsOk first s) {c : κ} {me : Client} (hMe : ClientOk (first c) me) :
    ClientsOk first (s.set c me) := by
  intro c'
  by_cases hc : c' = c
  · rw [hc, client_set_self]
    exact hMe
  · rw [client_set_of_ne s me hc]
    exact h c'

omit [DecidableEq κ] in
theorem ClientsOk.signalSend (h : ClientsOk first s) : ClientsOk first s.signalSend := by
  intro c
  have hOk := h c
  simp only [State.signalSend]
  split
  · rename_i b hPc
    exact hOk.setPc (fun _ => by rw [hPc]; rfl)
  · exact hOk

theorem ClientsOk.giveUp (h : ClientsOk first s) (c : κ) : ClientsOk first (s.giveUp c) := by
  unfold State.giveUp
  dsimp only
  rw [if_neg (by simp [(h c).unordered])]
  exact h.set ((h c).restart _ _ _ _)

theorem ClientsOk.scanUnordered (h : ClientsOk first s) (hNodup : ∀ c, (first c).Nodup)
    (hPlaced : Placed s) {c : κ} (hPc : (s.client c).pc = .scanning) :
    ClientsOk first (s.scanUnordered c) := by
  have hMe := h c
  have hFresh : (s.client c).pc.foundMy = false := by rw [hPc]; rfl
  unfold State.scanUnordered
  dsimp only
  split
  · exact h.set (hMe.setPc fun _ => hFresh)
  · rename_i id rest hIter
    have hSuffix := hMe.iter hFresh
    rw [hIter] at hSuffix
    split
    · -- found among the finished resources: the iterator moves on before the id is erased
      rename_i r hFound
      obtain rfl : r.id = id := hPlaced.keyed id r hFound
      have hIds : (s.client c).ids.Nodup := by rw [hMe.ids]; exact (hNodup c).filter _
      exact h.set (hMe.gain (hNodup c) (hSuffix.subset (by simp))
        fun _ => suffix_erase hSuffix hIds)
    · split
      · unfold State.await
        split
        · exact h.set (hMe.setPc fun _ => hFresh)
        · exact h.set (hMe.setPc fun _ => hFresh)
      · exact h.set ⟨hMe.unordered, hMe.ids,
          fun _ => (List.suffix_cons id rest).trans hSuffix, hMe.output⟩

theorem ClientsOk.store (h : ClientsOk first s) (hNodup : ∀ c, (first c).Nodup) {c : κ}
    {r : Resource}
    {foundMy foundForeign : Bool} {past : Int}
    (hPc : (s.client c).pc = .storing r foundMy foundForeign) :
    ClientsOk first (s.store c r foundMy foundForeign past) := by
  have hMe := h c
  unfold State.store
  dsimp only
  rw [if_neg (by simp [hMe.unordered])]
  split
  · rename_i hMem
    exact h.set (hMe.gain (hNodup c) hMem fun hFound => absurd hFound (by simp [Pc.foundMy]))
  · exact h.set (hMe.setPc fun hFound => by rw [hPc]; exact hFound)

theorem ClientsOk.finishDrain (h : ClientsOk first s) {c : κ} {foundMy foundForeign : Bool}
    (hPc : (s.client c).pc = .polling foundMy foundForeign) :
    ClientsOk first (s.finishDrain c foundMy foundForeign) := by
  have hMe := h c
  have hScanning : ClientOk (first c) { s.client c with
      iter := if foundMy then (s.client c).ids else (s.client c).iter, pc := .scanning } := by
    refine ⟨hMe.unordered, hMe.ids, fun _ => ?_, hMe.output⟩
    cases foundMy with
    | true => exact List.suffix_refl _
    | false => exact hMe.iter (by rw [hPc]; rfl)
  unfold State.finishDrain
  dsimp only
  rw [if_neg (by simp [hMe.unordered])]
  split
  · exact (h.set hScanning).signalSend
  · exact h.set hScanning

/-- **Every step keeps the clients in order.** -/
theorem clientsOk_step (hNodup : ∀ c, (first c).Nodup) (hPlaced : Placed s)
    (h : ClientsOk first s) (hStep : step s l = some s') : ClientsOk first s' := by
  -- the lock and the flags do not belong to the clients
  have hFlags : ∀ (lock : Option κ) (waiting : Nat) (waitingInQueue : Bool),
      ClientsOk first { s with lock, waiting, waitingInQueue } := fun _ _ _ => h
  cases moves_of_step hStep with
  | arrive r => exact h
  | setCancel => exact h
  | stopQueue => exact h
  | call hPc => exact h.set ((h _).setPc fun _ => by rw [hPc]; rfl)
  | @enter c _ _ => exact (hFlags (some c) s.waiting s.waitingInQueue).set ((h c).restart _ _ _ _)
  | @yielded c _ hPc =>
    exact (hFlags (some c) s.waiting s.waitingInQueue).set ((h c).setPc fun _ => by rw [hPc]; rfl)
  | @gotNothing c _ _ => exact (hFlags (some c) s.waiting false).signalSend.giveUp c
  | @gotItem c _ _ hPc =>
    exact (hFlags (some c) s.waiting false).set ((h c).setPc fun _ => by rw [hPc]; rfl)
  | @giveUp c _ _ _ _ => exact (hFlags (some c) (s.waiting - 1) s.waitingInQueue).giveUp c
  | @wake c _ _ _ hPc =>
    exact (hFlags (some c) (s.waiting - 1) s.waitingInQueue).set
      ((h c).setPc fun _ => by rw [hPc]; rfl)
  | @take c r _ hPc _ =>
    have hTook : ClientOk (first c) { s.client c with pc := .gotItem (some r) } :=
      (h c).setPc fun _ => by rw [hPc]; rfl
    exact h.set hTook
  | takeNothing hPc => exact h.set ((h _).setPc fun _ => by rw [hPc]; rfl)
  | @scanOrdered c hPc hOrdered => exact absurd hOrdered (by simp [(h c).unordered])
  | scanUnordered hPc _ => exact h.scanUnordered hNodup hPlaced hPc
  | store hPc => exact h.store hNodup hPc
  | @pollTake c r _ foundMy foundForeign hPc _ =>
    have hTook : ClientOk (first c) { s.client c with pc := .storing r foundMy foundForeign } :=
      (h c).setPc fun hFound => by rw [hPc]; exact hFound
    exact h.set hTook
  | pollEmpty hPc _ => exact h.finishDrain hPc

-- ---------------------------------------------------------------------------
-- Runs
-- ---------------------------------------------------------------------------

/-- Clients that call `GetProcessedResources` with these ids. -/
def askFor (first : κ → List Int) (timeout : κ → Bool) : State κ :=
  initial fun c => Client.new false (first c) (timeout c)

omit [DecidableEq κ] in
theorem placed_askFor (timeout : κ → Bool) : Placed (askFor first timeout) where
  keyed i r h := absurd h (by simp [askFor, initial])
  known r pl h := by cases pl <;> simp [At, askFor, initial, Client.new, Pc.held] at h
  placed r h := absurd h (by simp [askFor, initial])
  unique r pl pl' h := by cases pl <;> simp [At, askFor, initial, Client.new, Pc.held] at h
  outputNodup c := List.nodup_nil
  distinct := List.nodup_nil
  arrived r h := absurd h (by simp [askFor, initial])

omit [DecidableEq κ] in
theorem clientsOk_askFor (timeout : κ → Bool) : ClientsOk first (askFor first timeout) := by
  intro c
  refine ⟨rfl, ?_, fun _ => List.suffix_refl _, ?_⟩
  · simp [askFor, initial, Client.new]
  · simp [askFor, initial, Client.new]

/-- Both invariants hold after every run from the calls. -/
theorem placed_clientsOk_run {timeout : κ → Bool} {labels : List (Label κ)} {s : State κ}
    (hNodup : ∀ c, (first c).Nodup)
    (hFresh : Lib.AllOk step FreshArrival (askFor first timeout) labels)
    (hRun : Lib.run step (askFor first timeout) labels = some s) :
    Placed s ∧ ClientsOk first s := by
  refine Lib.run_invariant_of_ok (fun s => Placed s ∧ ClientsOk first s) ?_ hFresh hRun
    ⟨placed_askFor timeout, clientsOk_askFor timeout⟩
  rintro s l s' ⟨hPlaced, hOk⟩ hArrival hStep
  exact ⟨placed_step hArrival hPlaced hStep, clientsOk_step hNodup hPlaced hOk hStep⟩

/-- What a caller finds in its output, also of a call that was cancelled: resources under ids
that it asked for, each id once. -/
theorem output_ids_of_run {timeout : κ → Bool} {labels : List (Label κ)} {s : State κ}
    (hNodup : ∀ c, (first c).Nodup)
    (hFresh : Lib.AllOk step FreshArrival (askFor first timeout) labels)
    (hRun : Lib.run step (askFor first timeout) labels = some s) (c : κ) :
    ((s.client c).output.map Resource.id).Nodup ∧ ∀ r ∈ (s.client c).output, r.id ∈ first c := by
  obtain ⟨hPlaced, hOk⟩ := placed_clientsOk_run hNodup hFresh hRun
  refine ⟨(hPlaced.outputNodup c).map_on fun r hr r' hr' hId => ?_, (hOk c).output⟩
  exact hPlaced.eq_of_id (hPlaced.known r (.output c) hr) (hPlaced.known r' (.output c) hr') hId

/-- **Results reach exactly the client that asked for them.** Any number of clients with
disjoint sets of ids, any arrivals with distinct ids, any interleaving: every resource taken
from the queue is in exactly one place; the finished resources are stored under their ids;
the output of a client holds resources that it, and no other client, asked for; and when a
call returns, its ids are its first ids without those of its output. -/
theorem results_reach_their_client (first : κ → List Int) (timeout : κ → Bool)
    (labels : List (Label κ)) (s : State κ) (hNodup : ∀ c, (first c).Nodup)
    (hDisjoint : ∀ c c', c ≠ c' → ∀ i ∈ first c, i ∉ first c')
    (hFresh : Lib.AllOk step FreshArrival (askFor first timeout) labels)
    (hRun : Lib.run step (askFor first timeout) labels = some s) :
    (∀ r ∈ s.taken, ∃! pl, At s r pl) ∧
    (∀ i r, s.finishedResources i = some r → r.id = i) ∧
    (∀ c, (s.client c).output.Nodup ∧
      ∀ r ∈ (s.client c).output, r.id ∈ first c ∧ ∀ c', r.id ∈ first c' → c' = c) ∧
    (∀ c result, (s.client c).pc = .returned result →
      ∀ i, i ∈ (s.client c).ids ↔ i ∈ first c ∧ i ∉ (s.client c).output.map Resource.id) := by
  obtain ⟨hPlaced, hOk⟩ := placed_clientsOk_run hNodup hFresh hRun
  refine ⟨?_, hPlaced.keyed, ?_, ?_⟩
  · intro r hMem
    obtain ⟨pl, hAt⟩ := hPlaced.placed r hMem
    exact ⟨pl, hAt, fun pl' hAt' => hPlaced.unique r pl' pl hAt' hAt⟩
  · intro c
    refine ⟨hPlaced.outputNodup c, fun r hMem => ?_⟩
    have hMine := (hOk c).output r hMem
    refine ⟨hMine, fun c' hTheirs => ?_⟩
    by_contra hNe
    exact hDisjoint c c' (Ne.symm hNe) r.id hMine hTheirs
  · intro c result _ i
    rw [(hOk c).ids]
    simp

/-- Two clients, of which the reader also collects the other one's result. -/
def collectForTwo : List (Label Bool) :=
  [.call true, .acquire true, .scan true, .call false, .acquire false, .scan false,
    .arrive ⟨2, 20⟩, .arrive ⟨1, 10⟩, .getItem true true, .acquire true, .store true 0,
    .poll true, .store true 0, .poll true, .scan true, .wake false false, .scan false, .scan false]

theorem results_reach_their_client_two :
    ∃ s, Lib.run step (askFor (fun c => if c then [1] else [2]) fun _ => true)
    collectForTwo = some s ∧
      (s.client true).output = [⟨1, 10⟩] ∧ (s.client false).output = [⟨2, 20⟩] ∧
      (∀ r ∈ s.taken, ∃! pl, At s r pl) := by
  refine ⟨_, rfl, rfl, rfl, ?_⟩
  exact (results_reach_their_client (fun c => if c then [1] else [2]) (fun _ => true)
    collectForTwo _ (by decide) (by decide) (by decide) rfl).1

end HectorCore.Clients
