import HectorCore.Clients.Turn

/-!
# Deliveries — what one step hands over

An unordered call gets a resource in two ways: its iterator visits the id of a finished resource, or
a resource with one of its ids comes out of the output queue. Both can be told from the state before
the step and from who moves (`State.delivers`).

Main result: `output_step`, the output grows by what is delivered and by nothing else.
-/

namespace HectorCore.Clients

variable {κ : Type} [DecidableEq κ]

/-- The resource that the step hands over to client `c`, in an unordered call. -/
def State.delivers (s : State κ) (c : κ) : Label κ → Option Resource
  | .scan c' =>
    if c' = c ∧ (s.client c).pc = .scanning then (s.client c).iter.head?.bind s.finishedResources
    else none
  | .store c' _ =>
    if c' = c then
      match (s.client c).pc with
      | .storing r _ _ => if r.id ∈ (s.client c).ids then some r else none
      | _ => none
    else none
  | _ => none

variable {s s' t : State κ} {l : Label κ} {c c₀ : κ}

/-- The kind of the call, and what it has got. -/
def Client.kind (me : Client) : Bool × List Resource := (me.ordered, me.output)

theorem Client.kind_nothing (me : Client) :
    me.kind = (me.ordered, me.output ++ (none : Option Resource).toList) := by
  rw [Option.toList_none, List.append_nil]
  rfl

/-- Another client, or the same one with its mode and its output. -/
theorem kind_set (t : State κ) (me : Client) (h : me.kind = (t.client c₀).kind) :
    ((t.set c₀ me).client c).kind = (t.client c).kind := by
  by_cases hMe : c = c₀
  · rw [hMe, client_set_self, h]
  · rw [client_set_of_ne t me hMe]

omit [DecidableEq κ] in
/-- A signal wakes clients and gives them nothing. -/
theorem kind_signalSend : (t.signalSend.client c).kind = (t.client c).kind := by
  rcases signalSend_client t c with hSame | ⟨b, -, hNew⟩
  · rw [hSame]
  · rw [hNew]
    rfl

/-- Giving up leaves the output as it is. -/
theorem kind_giveUp : ((t.giveUp c₀).client c).kind = (t.client c).kind := by
  unfold State.giveUp
  dsimp only
  split
  · exact kind_set t { t.client c₀ with pc := .returned false } rfl
  · exact kind_set _ _ rfl

/-- So does going to sleep. -/
theorem kind_await : ((t.await c₀).client c).kind = (t.client c).kind := by
  unfold State.await
  dsimp only
  split
  · exact kind_set t { t.client c₀ with pc := .blocked false } rfl
  · exact kind_set t { t.client c₀ with pc := .inQueue } rfl

/-- So does the end of a sweep over the queue. -/
theorem kind_finishDrain {my foreign : Bool} :
    ((t.finishDrain c₀ my foreign).client c).kind = (t.client c).kind := by
  unfold State.finishDrain
  dsimp only
  split
  · split
    · exact kind_signalSend.trans (kind_set _ _ rfl)
    · exact kind_set _ _ rfl
  · split
    · exact kind_signalSend.trans (kind_set _ _ rfl)
    · exact kind_set _ _ rfl

/-- Another client does not touch the call. -/
theorem kind_scanOrdered_of_ne (hNe : c ≠ c₀) :
    ((s.scanOrdered c₀).client c).kind = (s.client c).kind := by
  unfold State.scanOrdered
  dsimp only
  split
  · exact congrArg Client.kind (client_set_of_ne s _ hNe)
  · split
    · exact congrArg Client.kind (client_set_of_ne s _ hNe)
    · split
      · exact kind_await
      · exact congrArg Client.kind (client_set_of_ne s _ hNe)

/-- A scan takes one of the finished resources, if it finds one. -/
theorem kind_scanUnordered (hPc : (s.client c₀).pc = .scanning) :
    ((s.scanUnordered c₀).client c).kind =
      ((s.client c).ordered, (s.client c).output ++ (s.delivers c (.scan c₀)).toList) := by
  by_cases hMe : c₀ = c
  · subst hMe
    have hDelivers : s.delivers c₀ (.scan c₀) = (s.client c₀).iter.head?.bind s.finishedResources :=
      if_pos ⟨rfl, hPc⟩
    unfold State.scanUnordered
    dsimp only
    split
    · rename_i hIter
      rw [hIter] at hDelivers
      rw [hDelivers]
      refine Eq.trans ?_ (Client.kind_nothing _)
      exact kind_set s { s.client c₀ with pc := .returned (s.client c₀).result } rfl
    · rename_i id rest hIter
      rw [hIter, List.head?_cons, Option.bind_some] at hDelivers
      rw [hDelivers]
      split
      · rename_i r hFound
        rw [hFound]
        exact congrArg Client.kind (client_set_self s c₀ _)
      · rename_i hNone
        rw [hNone]
        refine Eq.trans ?_ (Client.kind_nothing _)
        split
        · exact kind_await
        · exact kind_set _ _ rfl
  · rw [State.delivers, if_neg fun hBoth => hMe hBoth.1]
    refine Eq.trans ?_ (Client.kind_nothing _)
    have hNe : c ≠ c₀ := Ne.symm hMe
    unfold State.scanUnordered
    dsimp only
    split
    · exact congrArg Client.kind (client_set_of_ne s _ hNe)
    · split
      · exact congrArg Client.kind (client_set_of_ne s _ hNe)
      · split
        · exact kind_await
        · exact kind_set _ _ rfl

/-- What was read from the queue goes to the output if the client has asked for it. -/
theorem kind_store {r : Resource} {my foreign : Bool} {past : Int}
    (hOrdered : (s.client c).ordered = false) (hPc : (s.client c₀).pc = .storing r my foreign) :
    ((s.store c₀ r my foreign past).client c).kind =
      ((s.client c).ordered, (s.client c).output ++ (s.delivers c (.store c₀ past)).toList) := by
  have hForeign : ((s.storeForeign c₀ r my).client c).kind = (s.client c).kind :=
    kind_set s { s.client c₀ with pc := .polling my true } rfl
  by_cases hMe : c₀ = c
  · subst hMe
    unfold State.store
    rw [State.delivers, if_pos rfl, hPc]
    dsimp only
    rw [if_neg (by rw [hOrdered]; exact Bool.false_ne_true)]
    split
    · exact congrArg Client.kind (client_set_self s c₀ _)
    · exact hForeign.trans (Client.kind_nothing _)
  · rw [State.delivers, if_neg hMe]
    refine Eq.trans ?_ (Client.kind_nothing _)
    have hNe : c ≠ c₀ := Ne.symm hMe
    unfold State.store
    dsimp only
    split
    · split
      · exact congrArg Client.kind (client_set_of_ne s _ hNe)
      · exact hForeign
    · split
      · exact congrArg Client.kind (client_set_of_ne s _ hNe)
      · exact hForeign

/-- A step that delivers nothing to `c`. -/
theorem kind_of_quiet (hKind : (s'.client c).kind = (s.client c).kind)
    (hNothing : s.delivers c l = none) :
    (s'.client c).kind =
      ((s.client c).ordered, (s.client c).output ++ (s.delivers c l).toList) := by
  rw [hNothing]
  exact hKind.trans (Client.kind_nothing _)

/-- A step of anybody adds to the output what it delivers, at its end. -/
theorem kind_step (hOrdered : (s.client c).ordered = false) (hStep : step s l = some s') :
    (s'.client c).kind =
      ((s.client c).ordered, (s.client c).output ++ (s.delivers c l).toList) := by
  cases moves_of_step hStep with
  | arrive r => exact kind_of_quiet rfl rfl
  | setCancel => exact kind_of_quiet rfl rfl
  | stopQueue => exact kind_of_quiet rfl rfl
  | call hPc => exact kind_of_quiet (kind_set _ _ rfl) rfl
  | @enter c₀ hLock hPc => exact kind_of_quiet (kind_set { s with lock := some c₀ } _ rfl) rfl
  | @yielded c₀ hLock hPc =>
    exact kind_of_quiet (kind_set { s with lock := some c₀ } _ rfl) rfl
  | @gotNothing c₀ hLock hPc =>
    exact kind_of_quiet
      (kind_giveUp.trans (kind_signalSend
      (t := { s with lock := some c₀, waitingInQueue := false })))
      rfl
  | @gotItem c₀ r hLock hPc =>
    exact kind_of_quiet (kind_set { s with lock := some c₀, waitingInQueue := false } _ rfl) rfl
  | @giveUp c₀ _ _ hLock hPc =>
    exact kind_of_quiet
      (kind_giveUp (t := { s with lock := some c₀, waiting := s.waiting - 1 })) rfl
  | @wake c₀ _ _ hLock hPc =>
    exact kind_of_quiet (kind_set { s with lock := some c₀, waiting := s.waiting - 1 } _ rfl) rfl
  | @take c₀ r _ hPc hFront =>
    exact kind_of_quiet (kind_set s { s.client c₀ with pc := .gotItem (some r) } rfl) rfl
  | takeNothing hPc => exact kind_of_quiet (kind_set _ _ rfl) rfl
  | @scanOrdered c₀ hPc hOther =>
    have hNe : c ≠ c₀ := by
      rintro rfl
      exact absurd (hOther.symm.trans hOrdered) (by decide)
    exact kind_of_quiet (kind_scanOrdered_of_ne hNe) (if_neg fun hBoth => hNe hBoth.1.symm)
  | scanUnordered hPc hOther => exact kind_scanUnordered hPc
  | store hPc => exact kind_store hOrdered hPc
  | @pollTake c₀ r _ my foreign hPc hFront =>
    exact kind_of_quiet (kind_set s { s.client c₀ with pc := .storing r my foreign } rfl) rfl
  | pollEmpty hPc hFront => exact kind_of_quiet kind_finishDrain rfl

/-- **The output grows by what is delivered.** -/
theorem output_step (hOrdered : (s.client c).ordered = false) (hStep : step s l = some s') :
    (s'.client c).output = (s.client c).output ++ (s.delivers c l).toList :=
  congrArg Prod.snd (kind_step hOrdered hStep)

/-- The mode of a call does not change. -/
theorem unordered_step (hOrdered : (s.client c).ordered = false) (hStep : step s l = some s') :
    (s'.client c).ordered = false :=
  (congrArg Prod.fst (kind_step hOrdered hStep)).trans hOrdered

end HectorCore.Clients
