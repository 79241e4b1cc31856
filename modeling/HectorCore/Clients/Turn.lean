import HectorCore.Clients.Handover

/-!
# Turn — what a step can do to one client

A step of the engine's clients, seen from client `c`: it does nothing to `c`, or wakes it up, or it
is one of the turns of the call of `c`. `turn_of_moves` says that there are no others.
-/

namespace HectorCore.Clients

variable {κ : Type} [DecidableEq κ]

/-- What client `c` is after a step. -/
inductive Turn (s : State κ) (l : Label κ) (c : κ) : Client → Prop where
  | stays : Turn s l c (s.client c)
  | signalled {b : Bool} (hPc : (s.client c).pc = .blocked b) :
    Turn s l c { s.client c with pc := .blocked true }
  | calls (hPc : (s.client c).pc = .idle) : Turn s l c { s.client c with pc := .entering }
  | enters (hPc : (s.client c).pc = .entering) :
    Turn s l c { s.client c with iter := (s.client c).ids, index := 0, pc := .scanning }
  | resumes (hPc : (s.client c).pc = .yielding ∨ ∃ b, (s.client c).pc = .blocked b) :
    Turn s l c { s.client c with pc := .scanning }
  | gets (r : Option Resource) (hPc : (s.client c).pc = .inQueue) :
    Turn s l c { s.client c with pc := .gotItem r }
  | holds {r : Resource} (hPc : (s.client c).pc = .gotItem (some r)) :
    Turn s l c { s.client c with pc := .storing r false false }
  | fails (hOrdered : (s.client c).ordered = true)
    (hPc : (s.client c).pc = .gotItem none ∨ ∃ b, (s.client c).pc = .blocked b) :
    Turn s l c { s.client c with pc := .returned false }
  | restarts (hOrdered : (s.client c).ordered = false)
    (hPc : (s.client c).pc = .gotItem none ∨ ∃ b, (s.client c).pc = .blocked b) :
    Turn s l c { s.client c with
      timeout := false, iter := (s.client c).ids, result := false, pc := .scanning }
  | endsOrdered (hOrdered : (s.client c).ordered = true) (hPc : (s.client c).pc = .scanning)
    (hEnd : (s.client c).ids[(s.client c).index]? = none ∨ (s.client c).timeout = false) :
    Turn s l c { s.client c with pc := .returned true }
  | endsUnordered (hOrdered : (s.client c).ordered = false) (hPc : (s.client c).pc = .scanning)
    (hIter : (s.client c).iter = []) :
    Turn s l c { s.client c with pc := .returned (s.client c).result }
  | awaits {id : Int} {pc : Pc} (hPc : (s.client c).pc = .scanning)
    (hTimeout : (s.client c).timeout = true)
    (hId : (s.client c).ordered = true → (s.client c).ids[(s.client c).index]? = some id)
    (hNew : pc = .blocked false ∨ pc = .inQueue) : Turn s l c { s.client c with pc }
  | skips {id : Int} {rest : List Int} (hOrdered : (s.client c).ordered = false)
    (hPc : (s.client c).pc = .scanning) (hIter : (s.client c).iter = id :: rest)
    (hNone : s.finishedResources id = none) (hTimeout : (s.client c).timeout = false) :
    Turn s l c { s.client c with iter := rest }
  | collectsOrdered {id : Int} {r : Resource} (hOrdered : (s.client c).ordered = true)
    (hPc : (s.client c).pc = .scanning) (hId : (s.client c).ids[(s.client c).index]? = some id)
    (hFound : s.finishedResources id = some r) :
    Turn s l c { s.client c with
      output := (s.client c).output ++ [r], index := (s.client c).index + 1 }
  | collectsUnordered {id : Int} {rest : List Int} {r : Resource}
    (hOrdered : (s.client c).ordered = false) (hPc : (s.client c).pc = .scanning)
    (hIter : (s.client c).iter = id :: rest) (hFound : s.finishedResources id = some r) :
    Turn s l c { s.client c with
      output := (s.client c).output ++ [r], iter := rest, ids := (s.client c).ids.erase id }
  | appendsOrdered {r : Resource} {my foreign : Bool} {past : Int}
    (hOrdered : (s.client c).ordered = true) (hPc : (s.client c).pc = .storing r my foreign)
    (hSame : (s.client c).ids[(s.client c).index]?.getD past = r.id) :
    Turn s l c { s.client c with
      output := (s.client c).output ++ [r], index := (s.client c).index + 1,
      pc := .polling my foreign }
  | appendsUnordered {r : Resource} {my foreign : Bool} (hOrdered : (s.client c).ordered = false)
    (hPc : (s.client c).pc = .storing r my foreign) (hMem : r.id ∈ (s.client c).ids) :
    Turn s l c { s.client c with
      output := (s.client c).output ++ [r], ids := (s.client c).ids.erase r.id
      pc := .polling true foreign }
  | shares {r : Resource} {my foreign : Bool} (hPc : (s.client c).pc = .storing r my foreign) :
    Turn s l c { s.client c with pc := .polling my true }
  | polls {r : Resource} {rest : List Resource} {my foreign : Bool} (hLabel : l = .poll c)
    (hPc : (s.client c).pc = .polling my foreign) (hFront : s.front = some (r, rest)) :
    Turn s l c { s.client c with pc := .storing r my foreign }
  | yields {my foreign : Bool} (hOrdered : (s.client c).ordered = true)
    (hPc : (s.client c).pc = .polling my foreign) : Turn s l c { s.client c with pc := .yielding }
  | drains {my foreign : Bool} {iter : List Int} (hPc : (s.client c).pc = .polling my foreign)
    (hIter : (s.client c).ordered = false →
      iter = if my then (s.client c).ids else (s.client c).iter) :
    Turn s l c { s.client c with iter, pc := .scanning }

variable {s s' : State κ} {l : Label κ} {c : κ}

/-- One client's record changes. -/
theorem turn_set {c₀ : κ} {me : Client} (hMine : c = c₀ → Turn s l c me) :
    Turn s l c ((s.set c₀ me).client c) := by
  by_cases hMe : c = c₀
  · subst hMe
    rw [client_set_self]
    exact hMine rfl
  · rw [client_set_of_ne s me hMe]
    exact .stays

omit [DecidableEq κ] in
/-- A broadcast afterwards. -/
theorem turn_signalSend {t : State κ} (h : Turn s l c (t.client c))
    (hBlocked : ∀ b, (t.client c).pc = .blocked b → t.client c = s.client c) :
    Turn s l c (t.signalSend.client c) := by
  rcases signalSend_client t c with hSame | ⟨b, hPc, hNew⟩
  · rw [hSame]
    exact h
  · have hClient := hBlocked b hPc
    rw [hNew, hClient]
    exact .signalled (hClient ▸ hPc)

/-- The client gives up, on a cancelled queue or when its time is over. -/
theorem turn_giveUp {t : State κ} {c₀ : κ} (hClient : t.client c₀ = s.client c₀)
    (hOthers : Turn s l c (t.client c))
    (hPc : (s.client c₀).pc = .gotItem none ∨ ∃ b, (s.client c₀).pc = .blocked b) :
    Turn s l c ((t.giveUp c₀).client c) := by
  by_cases hMe : c = c₀
  · subst hMe
    unfold State.giveUp
    dsimp only
    rw [hClient]
    split
    · rename_i hOrdered
      show Turn s l c ((t.set c { s.client c with pc := .returned false }).client c)
      rw [client_set_self]
      exact .fails hOrdered hPc
    · rename_i hOrdered
      rw [client_set_self]
      exact .restarts (eq_false_of_ne_true hOrdered) hPc
  · have hSame : (t.giveUp c₀).client c = t.client c := by
      unfold State.giveUp
      dsimp only
      split
      · exact client_set_of_ne t _ hMe
      · exact client_set_of_ne t _ hMe
    rw [hSame]
    exact hOthers

/-- It goes to sleep until a resource is stored. -/
theorem turn_await {c₀ : κ} {id : Int} (hPc : (s.client c₀).pc = .scanning)
    (hTimeout : (s.client c₀).timeout = true)
    (hId : c = c₀ → (s.client c).ordered = true → (s.client c).ids[(s.client c).index]? = some id) :
    Turn s l c ((s.await c₀).client c) := by
  unfold State.await
  dsimp only
  split
  · show Turn s l c ((s.set c₀ { s.client c₀ with pc := .blocked false }).client c)
    refine turn_set ?_
    rintro rfl
    exact .awaits hPc hTimeout (hId rfl) (.inl rfl)
  · show Turn s l c ((s.set c₀ { s.client c₀ with pc := .inQueue }).client c)
    refine turn_set ?_
    rintro rfl
    exact .awaits hPc hTimeout (hId rfl) (.inr rfl)

/-- Mode `ordered`: it looks for the next id of its list. -/
theorem turn_scanOrdered {c₀ : κ} (hOrdered : (s.client c₀).ordered = true)
    (hPc : (s.client c₀).pc = .scanning) : Turn s l c ((s.scanOrdered c₀).client c) := by
  unfold State.scanOrdered
  dsimp only
  split
  · rename_i hEnd
    show Turn s l c ((s.set c₀ { s.client c₀ with pc := .returned true }).client c)
    refine turn_set ?_
    rintro rfl
    exact .endsOrdered hOrdered hPc (.inl hEnd)
  · rename_i id hId
    split
    · rename_i r hFound
      show Turn s l c ((s.set c₀ { s.client c₀ with
        output := (s.client c₀).output ++ [r], index := (s.client c₀).index + 1 }).client c)
      refine turn_set ?_
      rintro rfl
      exact .collectsOrdered hOrdered hPc hId hFound
    · split
      · rename_i hTimeout
        exact turn_await hPc hTimeout fun hMe _ => hMe ▸ hId
      · rename_i hTimeout
        show Turn s l c ((s.set c₀ { s.client c₀ with pc := .returned true }).client c)
        refine turn_set ?_
        rintro rfl
        exact .endsOrdered hOrdered hPc (.inr (eq_false_of_ne_true hTimeout))

/-- The other mode: it looks for any of its ids. -/
theorem turn_scanUnordered {c₀ : κ} (hOrdered : (s.client c₀).ordered = false)
    (hPc : (s.client c₀).pc = .scanning) : Turn s l c ((s.scanUnordered c₀).client c) := by
  unfold State.scanUnordered
  dsimp only
  split
  · rename_i hIter
    show Turn s l c ((s.set c₀ { s.client c₀ with pc := .returned (s.client c₀).result }).client c)
    refine turn_set ?_
    rintro rfl
    exact .endsUnordered hOrdered hPc hIter
  · rename_i id rest hIter
    split
    · rename_i r hFound
      show Turn s l c ((s.set c₀ { s.client c₀ with
        output := (s.client c₀).output ++ [r], iter := rest
        ids := (s.client c₀).ids.erase id }).client c)
      refine turn_set ?_
      rintro rfl
      exact .collectsUnordered hOrdered hPc hIter hFound
    · rename_i hNone
      split
      · rename_i hTimeout
        have hId : c = c₀ → (s.client c).ordered = true →
            (s.client c).ids[(s.client c).index]? = some id := by
          rintro rfl hMine
          exact absurd (hOrdered.symm.trans hMine) (by decide)
        exact turn_await hPc hTimeout hId
      · rename_i hTimeout
        refine turn_set ?_
        rintro rfl
        exact .skips hOrdered hPc hIter hNone (eq_false_of_ne_true hTimeout)

/-- What it has read from the queue is its own, or is put down for the others. -/
theorem turn_store {c₀ : κ} {r : Resource} {my foreign : Bool} {past : Int}
    (hPc : (s.client c₀).pc = .storing r my foreign) :
    Turn s l c ((s.store c₀ r my foreign past).client c) := by
  have hForeign : Turn s l c ((s.storeForeign c₀ r my).client c) := by
    show Turn s l c ((s.set c₀ { s.client c₀ with pc := .polling my true }).client c)
    refine turn_set ?_
    rintro rfl
    exact .shares hPc
  unfold State.store
  dsimp only
  split
  · rename_i hOrdered
    split
    · rename_i hSame
      refine turn_set ?_
      rintro rfl
      exact .appendsOrdered hOrdered hPc hSame
    · exact hForeign
  · rename_i hOrdered
    split
    · rename_i hMem
      refine turn_set ?_
      rintro rfl
      exact .appendsUnordered (eq_false_of_ne_true hOrdered) hPc hMem
    · exact hForeign

/-- The queue is empty for now. -/
theorem turn_finishDrain {c₀ : κ} {my foreign : Bool}
    (hPc : (s.client c₀).pc = .polling my foreign) :
    Turn s l c ((s.finishDrain c₀ my foreign).client c) := by
  -- nobody is blocked by this but those who were
  have hBlocked : ∀ {pc : Pc} {iter : List Int}, (∀ b, pc ≠ .blocked b) → ∀ b,
      ((s.set c₀ { s.client c₀ with iter, pc }).client c).pc = .blocked b →
      (s.set c₀ { s.client c₀ with iter, pc }).client c = s.client c := by
    intro pc iter hNew b hb
    by_cases hMe : c = c₀
    · subst hMe
      rw [client_set_self] at hb
      exact absurd hb (hNew b)
    · exact client_set_of_ne s _ hMe
  unfold State.finishDrain
  dsimp only
  split
  · rename_i hOrdered
    split
    · refine turn_signalSend (turn_set ?_) (hBlocked (by simp))
      rintro rfl
      exact .yields hOrdered hPc
    · refine turn_set ?_
      rintro rfl
      exact .drains hPc fun hMine => absurd (hMine.symm.trans hOrdered) (by decide)
  · have hTurn : Turn s l c ((s.set c₀ { s.client c₀ with
        iter := if my then (s.client c₀).ids else (s.client c₀).iter,
        pc := .scanning }).client c) := by
      refine turn_set ?_
      rintro rfl
      exact .drains hPc fun _ => rfl
    split
    · exact turn_signalSend hTurn (hBlocked (by simp))
    · exact hTurn

/-- **Every step is a turn of every client.** -/
theorem turn_of_moves (h : Moves s l s') : Turn s l c (s'.client c) := by
  cases h with
  | arrive r => exact .stays
  | setCancel => exact .stays
  | stopQueue => exact .stays
  | call hPc =>
    refine turn_set ?_
    rintro rfl
    exact .calls hPc
  | enter hLock hPc =>
    refine turn_set ?_
    rintro rfl
    exact .enters hPc
  | yielded hLock hPc =>
    refine turn_set ?_
    rintro rfl
    exact .resumes (.inl hPc)
  | gotNothing hLock hPc =>
    refine turn_giveUp ?_ (turn_signalSend .stays fun _ _ => rfl) (.inl hPc)
    rename_i c₀
    rcases signalSend_client { s with lock := some c₀, waitingInQueue := false } c₀ with
      hSame | ⟨b, hb, -⟩
    · exact hSame
    · exact absurd (hPc.symm.trans hb) (by simp)
  | gotItem hLock hPc =>
    refine turn_set ?_
    rintro rfl
    exact .holds hPc
  | giveUp hLock hPc => exact turn_giveUp rfl .stays (.inr ⟨_, hPc⟩)
  | wake hLock hPc =>
    refine turn_set ?_
    rintro rfl
    exact .resumes (.inr ⟨_, hPc⟩)
  | take hPc hFront =>
    refine turn_set ?_
    rintro rfl
    exact .gets _ hPc
  | takeNothing hPc =>
    refine turn_set ?_
    rintro rfl
    exact .gets none hPc
  | scanOrdered hPc hOrdered => exact turn_scanOrdered hOrdered hPc
  | scanUnordered hPc hOrdered => exact turn_scanUnordered hOrdered hPc
  | store hPc => exact turn_store hPc
  | pollTake hPc hFront =>
    refine turn_set ?_
    rintro rfl
    exact .polls rfl hPc hFront
  | pollEmpty hPc hFront => exact turn_finishDrain hPc

end HectorCore.Clients
