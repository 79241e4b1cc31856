import HectorCore.Clients.Handover
import Mathlib.Data.Finset.Card
import Mathlib.Data.Fintype.Option

/-!
# Stopping — StopSync against the clients that wait

The part of `ProcessingEngine::StopSync` (`lib/processing_engine/ProcessingEngine.cc`) that
cancels the waiting clients:

    cancel = true;
    while (waiting > 0) {
        finishedLock.SignalRecv();
        finishedLock.Unlock();
        sched_yield();
        finishedLock.Lock();
    }

A `CondLock` has two conditions. Clients wait in `WaitSend`, on the first one; `SignalRecv` is a
broadcast on the second one. The loop starts without `finishedLock` and ends with it.

`StopSync` is one more thread beside the clients of `GetProcessed.lean`: clients are `some c`,
and `finishedLock` held by `StopSync` is `some none`. `pthread_mutex_unlock` by a thread that
does not hold the mutex sets it free; `unlockedUnheld` remembers that it happened.

* `counted_step`          — `waiting` is the number of clients in `WaitSend`;
* `lock_of_moves`         — a client takes the lock for itself only;
* `stop_releases_clients` — `StopSync` releases clients and lock when its loop is not entered,
  and only then.
-/

namespace HectorCore.Clients

variable {κ : Type}

-- ---------------------------------------------------------------------------
-- StopSync
-- ---------------------------------------------------------------------------

/-- Where `StopSync` stands. -/
inductive StopPc where
  | outside
  /-- Behind `cancel = true`, in front of the first test of the loop. -/
  | first
  /-- In the loop, in front of `SignalRecv` and `Unlock`. -/
  | unlocking
  /-- In `sched_yield()`, in front of `Lock`. -/
  | yielding
  /-- At the test again, with the lock. -/
  | again
  /-- Behind the loop, in front of `outputQueue->Stop()`. -/
  | leaving
  | returned
  deriving DecidableEq, Repr

/-- In the body of the loop. -/
def StopPc.inLoop : StopPc → Bool
  | .unlocking | .yielding | .again => true
  | _ => false

/-- In front of it. -/
def StopPc.beforeLoop : StopPc → Bool
  | .outside | .first => true
  | _ => false

/-- The clients, and the thread that stops the engine. -/
structure StopState (κ : Type) where
  clients : State (Option κ)
  pc : StopPc
  unlockedUnheld : Bool

/-- `finishedLock.SignalRecv()`: no client waits on `condRecv`. -/
def State.signalRecv (s : State κ) : State κ := s

/-- The same step for clients of another type. -/
def Label.map {κ' : Type} (f : κ → κ') : Label κ → Label κ'
  | .arrive r => .arrive r
  | .setCancel => .setCancel
  | .stopQueue => .stopQueue
  | .call c => .call (f c)
  | .acquire c => .acquire (f c)
  | .wake c timedOut => .wake (f c) timedOut
  | .getItem c got => .getItem (f c) got
  | .scan c => .scan (f c)
  | .store c past => .store (f c) past
  | .poll c => .poll (f c)

/-- The steps that belong to `StopSync`. -/
def Label.ofStop : Label κ → Bool
  | .setCancel | .stopQueue => true
  | _ => false

/-- A step of a client, or of the thread that stops. -/
inductive StopLabel (κ : Type) where
  | client (l : Label κ)
  | stop

variable [DecidableEq κ]

/-- The next step of `StopSync`. -/
def StopState.stopSync (s : StopState κ) : Option (StopState κ) :=
  match s.pc with
  | .outside => some { s with clients := { s.clients with cancel := true }, pc := .first }
  | .first | .again =>
    some { s with pc := if s.clients.waiting > 0 then .unlocking else .leaving }
  | .unlocking =>
    some { clients := { s.clients.signalRecv with lock := none }, pc := .yielding
           unlockedUnheld := s.unlockedUnheld || s.clients.lock != some none }
  | .yielding =>
    if s.clients.lock.isSome then none
    else some { s with clients := { s.clients with lock := some none }, pc := .again }
  | .leaving =>
    some { s with clients := { s.clients with queue := [], queueCancel := true }, pc := .returned }
  | .returned => none

/-- What `StopSync` does itself is not a step of the clients. -/
def stopStep (s : StopState κ) : StopLabel κ → Option (StopState κ)
  | .stop => s.stopSync
  | .client l =>
    if l.ofStop then none
    else (step s.clients (l.map some)).map fun clients => { s with clients }

/-- A running engine, before the first call and before `StopSync`. -/
def runningEngine (ordered : κ → Bool) (ids : κ → List Int) (timeout : κ → Bool) : StopState κ :=
  { clients := initial fun
      | some c => Client.new (ordered c) (ids c) (timeout c)
      | none => Client.new false [] false
    pc := .outside
    unlockedUnheld := false }

-- ---------------------------------------------------------------------------
-- What StopSync is for
-- ---------------------------------------------------------------------------

/-- In `WaitRecv`. -/
def Pc.isBlocked : Pc → Bool
  | .blocked _ => true
  | _ => false

/-- A step that needs more than the threads of the engine: a resource that arrives, a new call,
a time-out, or a wake-up without a signal. -/
def External (s : StopState κ) : Label κ → Prop
  | .arrive _ | .call _ | .getItem _ false => True
  | .wake c _ => Waits s.clients (some c)
  | _ => False

/-- `StopSync` is in its loop, a client waits without a signal, and nothing but that loop and the
outside world can move. -/
def Stuck (s : StopState κ) : Prop :=
  s.pc.inLoop = true ∧ (∃ c, Waits s.clients (some c)) ∧
    ∀ l s', stopStep s (.client l) = some s' → External s l

structure Released (s : StopState κ) : Prop where
  /-- The waiting clients are woken up. -/
  awake : ¬ Stuck s
  /-- Every `Unlock` was executed by the thread with the lock. -/
  held : s.unlockedUnheld = false
  /-- `StopSync` does not keep the lock. -/
  free : s.pc = .returned → s.clients.lock ≠ some none

/-- **The condition.** When `StopSync` tests its loop for the first time, no client is in
`WaitSend`. -/
def Unwaited (s : StopState κ) : StopLabel κ → Prop
  | .stop => s.pc = .first → ∀ c, (s.clients.client (some c)).pc.isBlocked = false
  | .client _ => True

-- ---------------------------------------------------------------------------
-- Who is in WaitSend
-- ---------------------------------------------------------------------------

/-- Whose step it is. -/
def Label.who : Label κ → Option κ
  | .arrive _ | .setCancel | .stopQueue => none
  | .call c | .acquire c | .wake c _ | .getItem c _ | .scan c | .store c _ | .poll c => some c

/-- What a step of `who` does to the clients in `WaitSend` and to their number. -/
inductive Shift (s s' : State κ) : Option κ → Prop where
  | same {who : Option κ} (hWaiting : s'.waiting = s.waiting)
    (hAll : ∀ c, (s'.client c).pc.isBlocked = (s.client c).pc.isBlocked) : Shift s s' who
  | blocks {c : κ} (hWaiting : s'.waiting = s.waiting + 1)
    (hBefore : (s.client c).pc.isBlocked = false) (hAfter : (s'.client c).pc.isBlocked = true)
    (hOthers : ∀ c', c' ≠ c → (s'.client c').pc.isBlocked = (s.client c').pc.isBlocked) :
    Shift s s' (some c)
  | unblocks {c : κ} (hWaiting : s'.waiting = s.waiting - 1)
    (hBefore : (s.client c).pc.isBlocked = true) (hAfter : (s'.client c).pc.isBlocked = false)
    (hOthers : ∀ c', c' ≠ c → (s'.client c').pc.isBlocked = (s.client c').pc.isBlocked) :
    Shift s s' (some c)

variable {s s' : State κ}

/-- A client that is not in `WaitSend` moves to another place that is not. -/
theorem isBlocked_set {c : κ} {me : Client} (hBefore : (s.client c).pc.isBlocked = false)
    (hAfter : me.pc.isBlocked = false) (c' : κ) :
    ((s.set c me).client c').pc.isBlocked = (s.client c').pc.isBlocked := by
  by_cases hc : c' = c
  · rw [hc, client_set_self, hBefore, hAfter]
  · rw [client_set_of_ne s me hc]

omit [DecidableEq κ] in
/-- A broadcast wakes nobody up before the lock is free. -/
theorem isBlocked_signalSend (s : State κ) (c : κ) :
    (s.signalSend.client c).pc.isBlocked = (s.client c).pc.isBlocked := by
  rcases signalSend_client s c with hSame | ⟨b, hPc, hNew⟩
  · rw [hSame]
  · rw [hNew, hPc]
    rfl

/-- Giving up from the wait takes the client out of the count. -/
theorem giveUp_waiting (s : State κ) (c : κ) : (s.giveUp c).waiting = s.waiting := by
  unfold State.giveUp
  dsimp only
  split <;> rfl

theorem giveUp_isBlocked (s : State κ) (c : κ) :
    ((s.giveUp c).client c).pc.isBlocked = false := by
  unfold State.giveUp
  dsimp only
  split
  · show ((s.set c _).client c).pc.isBlocked = false
    rw [client_set_self]
    rfl
  · rw [client_set_self]
    rfl

theorem giveUp_others (s : State κ) {c c' : κ} (hc : c' ≠ c) :
    (s.giveUp c).client c' = s.client c' := by
  unfold State.giveUp
  dsimp only
  split
  · exact client_set_of_ne s _ hc
  · exact client_set_of_ne s _ hc

/-- Going to sleep is counted. -/
theorem shift_await {c : κ} (hPc : (s.client c).pc = .scanning) :
    Shift s (s.await c) (some c) := by
  have hBefore : (s.client c).pc.isBlocked = false := by
    rw [hPc]
    rfl
  unfold State.await
  dsimp only
  split
  · refine .blocks rfl hBefore ?_ fun c' hc => ?_
    · show ((s.set c _).client c).pc.isBlocked = true
      rw [client_set_self]
      rfl
    · show ((s.set c _).client c').pc.isBlocked = _
      rw [client_set_of_ne s _ hc]
  · exact .same rfl (isBlocked_set hBefore rfl)

/-- A scan ends in a wait or goes on. -/
theorem shift_scanOrdered {c : κ} (hPc : (s.client c).pc = .scanning) :
    Shift s (s.scanOrdered c) (some c) := by
  have hBefore : (s.client c).pc.isBlocked = false := by
    rw [hPc]
    rfl
  unfold State.scanOrdered
  dsimp only
  split
  · exact .same rfl (isBlocked_set hBefore rfl)
  · split
    · exact .same rfl (isBlocked_set hBefore hBefore)
    · split
      · exact shift_await hPc
      · exact .same rfl (isBlocked_set hBefore rfl)

theorem shift_scanUnordered {c : κ} (hPc : (s.client c).pc = .scanning) :
    Shift s (s.scanUnordered c) (some c) := by
  have hBefore : (s.client c).pc.isBlocked = false := by
    rw [hPc]
    rfl
  unfold State.scanUnordered
  dsimp only
  split
  · exact .same rfl (isBlocked_set hBefore rfl)
  · split
    · exact .same rfl (isBlocked_set hBefore hBefore)
    · split
      · exact shift_await hPc
      · exact .same rfl (isBlocked_set hBefore hBefore)

/-- Storing a resource is not counted. -/
theorem shift_store {c : κ} {r : Resource} {foundMy foundForeign : Bool} (past : Int)
    (hPc : (s.client c).pc = .storing r foundMy foundForeign) :
    Shift s (s.store c r foundMy foundForeign past) (some c) := by
  have hBefore : (s.client c).pc.isBlocked = false := by
    rw [hPc]
    rfl
  unfold State.store State.storeForeign
  dsimp only
  split
  · split
    · exact .same rfl (isBlocked_set hBefore rfl)
    · exact .same rfl (isBlocked_set hBefore rfl)
  · split
    · exact .same rfl (isBlocked_set hBefore rfl)
    · exact .same rfl (isBlocked_set hBefore rfl)

/-- The end of a sweep goes back to the scan, or out. -/
theorem shift_finishDrain {c : κ} {foundMy foundForeign : Bool}
    (hPc : (s.client c).pc = .polling foundMy foundForeign) :
    Shift s (s.finishDrain c foundMy foundForeign) (some c) := by
  have hBefore : (s.client c).pc.isBlocked = false := by
    rw [hPc]
    rfl
  unfold State.finishDrain
  dsimp only
  split
  · split
    · refine .same rfl fun c' => ?_
      show ((s.set c _).signalSend.client c').pc.isBlocked = _
      rw [isBlocked_signalSend]
      exact isBlocked_set hBefore rfl c'
    · exact .same rfl (isBlocked_set hBefore rfl)
  · split
    · refine .same rfl fun c' => ?_
      rw [isBlocked_signalSend]
      exact isBlocked_set hBefore rfl c'
    · exact .same rfl (isBlocked_set hBefore rfl)

/-- **Only the client that moves enters or leaves `WaitSend`, and counts itself.** -/
theorem shift_of_moves {l : Label κ} (h : Moves s l s') : Shift s s' l.who := by
  -- every place but WaitSend
  have hOut : ∀ {c : κ} {pc : Pc}, (s.client c).pc = pc → pc.isBlocked = false →
      (s.client c).pc.isBlocked = false := by
    intro c pc hPc hNot
    rw [hPc, hNot]
  cases h with
  | arrive r => exact .same rfl fun _ => rfl
  | setCancel => exact .same rfl fun _ => rfl
  | stopQueue => exact .same rfl fun _ => rfl
  | call hPc => exact .same rfl (isBlocked_set (hOut hPc rfl) rfl)
  | enter _ hPc => exact .same rfl (isBlocked_set (s := { s with lock := _ }) (hOut hPc rfl) rfl)
  | yielded _ hPc => exact .same rfl (isBlocked_set (s := { s with lock := _ }) (hOut hPc rfl) rfl)
  | @gotNothing c _ hPc =>
    refine .same (giveUp_waiting _ c) fun c' => ?_
    by_cases hc : c' = c
    · rw [hc, giveUp_isBlocked, hOut hPc rfl]
    · rw [giveUp_others _ hc]
      exact isBlocked_signalSend _ c'
  | gotItem _ hPc =>
    exact .same rfl
      (isBlocked_set (s := { s with lock := _, waitingInQueue := _ }) (hOut hPc rfl) rfl)
  | @giveUp c _ _ _ hPc =>
    refine .unblocks (giveUp_waiting _ c) ?_ (giveUp_isBlocked _ c) fun c' hc => ?_
    · rw [hPc]
      rfl
    · rw [giveUp_others _ hc]
  | @wake c _ _ _ hPc =>
    refine .unblocks rfl ?_ ?_ fun c' hc => ?_
    · rw [hPc]
      rfl
    · rw [client_set_self]
      rfl
    · rw [client_set_of_ne _ _ hc]
  | take hPc _ => exact .same rfl (isBlocked_set (hOut hPc rfl) rfl)
  | takeNothing hPc => exact .same rfl (isBlocked_set (hOut hPc rfl) rfl)
  | scanOrdered hPc _ => exact shift_scanOrdered hPc
  | scanUnordered hPc _ => exact shift_scanUnordered hPc
  | store hPc => exact shift_store _ hPc
  | pollTake hPc _ => exact .same rfl (isBlocked_set (hOut hPc rfl) rfl)
  | pollEmpty hPc _ => exact shift_finishDrain hPc

/-- `waiting` is the number of clients in `WaitSend`. -/
def Counted (s : State κ) : Prop :=
  ∃ blocked : Finset κ, (∀ c, c ∈ blocked ↔ (s.client c).pc.isBlocked = true) ∧
    s.waiting = blocked.card

/-- **Every step counts the clients in `WaitSend`.** -/
theorem counted_step {who : Option κ} (hShift : Shift s s' who) (h : Counted s) : Counted s' := by
  obtain ⟨blocked, hMem, hCard⟩ := h
  cases hShift with
  | same hWaiting hAll =>
    refine ⟨blocked, fun c => ?_, by rw [hWaiting, hCard]⟩
    rw [hAll c]
    exact hMem c
  | @blocks c hWaiting hBefore hAfter hOthers =>
    have hNew : c ∉ blocked := by
      rw [hMem c, hBefore]
      simp
    refine ⟨insert c blocked, fun c' => ?_, ?_⟩
    · by_cases hc : c' = c
      · simp [hc, hAfter]
      · rw [Finset.mem_insert, hOthers c' hc, ← hMem c']
        simp [hc]
    · rw [Finset.card_insert_of_notMem hNew, hWaiting, hCard]
  | @unblocks c hWaiting hBefore hAfter hOthers =>
    have hOld : c ∈ blocked := (hMem c).mpr hBefore
    refine ⟨blocked.erase c, fun c' => ?_, ?_⟩
    · by_cases hc : c' = c
      · simp [hc, hAfter]
      · rw [Finset.mem_erase, hOthers c' hc, ← hMem c']
        simp [hc]
    · rw [Finset.card_erase_of_mem hOld, hWaiting, hCard]

omit [DecidableEq κ] in
/-- The count is positive if somebody waits. -/
theorem Counted.waiting_pos_iff (h : Counted s) :
    s.waiting > 0 ↔ ∃ c, (s.client c).pc.isBlocked = true := by
  obtain ⟨blocked, hMem, hCard⟩ := h
  rw [hCard, gt_iff_lt, Finset.card_pos]
  exact exists_congr hMem

-- ---------------------------------------------------------------------------
-- Who has the lock
-- ---------------------------------------------------------------------------

/-- Giving up leaves the lock as it is, or frees it. -/
theorem lock_giveUp (s : State κ) (c : κ) :
    (s.giveUp c).lock = s.lock ∨ (s.giveUp c).lock = none := by
  unfold State.giveUp
  dsimp only
  split
  · exact .inr rfl
  · exact .inl rfl

/-- Going to sleep frees it. -/
theorem lock_await (s : State κ) (c : κ) : (s.await c).lock = none := by
  unfold State.await
  dsimp only
  split <;> rfl

theorem lock_scanOrdered (s : State κ) (c : κ) :
    (s.scanOrdered c).lock = s.lock ∨ (s.scanOrdered c).lock = none := by
  unfold State.scanOrdered
  dsimp only
  split
  · exact .inr rfl
  · split
    · exact .inl rfl
    · split
      · exact .inr (lock_await s c)
      · exact .inr rfl

theorem lock_scanUnordered (s : State κ) (c : κ) :
    (s.scanUnordered c).lock = s.lock ∨ (s.scanUnordered c).lock = none := by
  unfold State.scanUnordered
  dsimp only
  split
  · exact .inr rfl
  · split
    · exact .inl rfl
    · split
      · exact .inr (lock_await s c)
      · exact .inl rfl

/-- Storing keeps it. -/
theorem lock_store (s : State κ) (c : κ) (r : Resource) (foundMy foundForeign : Bool)
    (past : Int) : (s.store c r foundMy foundForeign past).lock = s.lock := by
  unfold State.store State.storeForeign
  dsimp only
  split <;> split <;> rfl

theorem lock_finishDrain (s : State κ) (c : κ) (foundMy foundForeign : Bool) :
    (s.finishDrain c foundMy foundForeign).lock = s.lock ∨
      (s.finishDrain c foundMy foundForeign).lock = none := by
  unfold State.finishDrain
  dsimp only
  split
  · split
    · exact .inr rfl
    · exact .inl rfl
  · split
    · exact .inl rfl
    · exact .inl rfl

/-- **A client leaves the lock as it is, sets it free, or has it.** -/
theorem lock_of_moves {l : Label κ} (h : Moves s l s') :
    s'.lock = s.lock ∨ s'.lock = none ∨ s'.lock = l.who := by
  -- with the lock just taken, a client keeps it or gives it back
  have hTaken : ∀ {u : State κ} {c : κ}, u.lock = some c → (s'.lock = u.lock ∨ s'.lock = none) →
      s'.lock = s.lock ∨ s'.lock = none ∨ s'.lock = some c := by
    intro u c hHeld hAfter
    rcases hAfter with hSame | hFree
    · exact .inr (.inr (by rw [hSame, hHeld]))
    · exact .inr (.inl hFree)
  cases h with
  | arrive r => exact .inl rfl
  | setCancel => exact .inl rfl
  | stopQueue => exact .inl rfl
  | call _ => exact .inl rfl
  | enter _ _ => exact .inr (.inr rfl)
  | yielded _ _ => exact .inr (.inr rfl)
  | @gotNothing c _ _ => exact hTaken rfl (lock_giveUp _ c)
  | gotItem _ _ => exact .inr (.inr rfl)
  | @giveUp c _ _ _ _ => exact hTaken rfl (lock_giveUp _ c)
  | wake _ _ => exact .inr (.inr rfl)
  | take _ _ => exact .inl rfl
  | takeNothing _ => exact .inl rfl
  | @scanOrdered c _ _ => exact (lock_scanOrdered s c).imp id .inl
  | @scanUnordered c _ _ => exact (lock_scanUnordered s c).imp id .inl
  | store _ => exact .inl (lock_store s ..)
  | pollTake _ _ => exact .inl rfl
  | pollEmpty _ _ => exact (lock_finishDrain s ..).imp id .inl

-- ---------------------------------------------------------------------------
-- Clients and StopSync
-- ---------------------------------------------------------------------------

variable {t t' : StopState κ}

/-- A step of a client is a step of `GetProcessed.lean`, and not one of `StopSync`'s. -/
theorem clients_of_stopStep {l : Label κ} (h : stopStep t (.client l) = some t') :
    ∃ clients, Moves t.clients (l.map some) clients ∧ t' = { t with clients } := by
  simp only [stopStep] at h
  split at h
  · cases h
  · obtain ⟨clients, hStep, rfl⟩ := Option.map_eq_some_iff.mp h
    exact ⟨clients, moves_of_step hStep, rfl⟩

omit [DecidableEq κ] in
theorem who_map (l : Label κ) : (l.map some).who = l.who.map some := by
  cases l <;> rfl

/-- What holds whatever `StopSync` does: the clients are counted, and `StopSync` is none of
them. -/
structure Sound (t : StopState κ) : Prop where
  counted : Counted t.clients
  noClient : (t.clients.client none).pc.isBlocked = false

omit [DecidableEq κ] in
theorem Sound.waiting_pos_iff (h : Sound t) :
    t.clients.waiting > 0 ↔ ∃ c, (t.clients.client (some c)).pc.isBlocked = true := by
  rw [h.counted.waiting_pos_iff]
  constructor
  · rintro ⟨c, hBlocked⟩
    cases c with
    | none =>
      rw [h.noClient] at hBlocked
      cases hBlocked
    | some c => exact ⟨c, hBlocked⟩
  · rintro ⟨c, hBlocked⟩
    exact ⟨some c, hBlocked⟩

/-- `StopSync` moves no client. -/
theorem stopSync_clients (h : t.stopSync = some t') :
    t'.clients.client = t.clients.client ∧ t'.clients.waiting = t.clients.waiting := by
  unfold StopState.stopSync at h
  split at h
  · obtain rfl := Option.some.inj h
    exact ⟨rfl, rfl⟩
  · obtain rfl := Option.some.inj h
    exact ⟨rfl, rfl⟩
  · obtain rfl := Option.some.inj h
    exact ⟨rfl, rfl⟩
  · obtain rfl := Option.some.inj h
    exact ⟨rfl, rfl⟩
  · split at h
    · cases h
    · obtain rfl := Option.some.inj h
      exact ⟨rfl, rfl⟩
  · obtain rfl := Option.some.inj h
    exact ⟨rfl, rfl⟩
  · cases h

/-- The step lemma. -/
theorem sound_step {l : StopLabel κ} (h : Sound t) (hStep : stopStep t l = some t') :
    Sound t' := by
  cases l with
  | stop =>
    obtain ⟨hClient, hWaiting⟩ := stopSync_clients hStep
    have hShift : Shift t.clients t'.clients none := .same hWaiting fun c => by rw [hClient]
    refine ⟨counted_step hShift h.counted, ?_⟩
    rw [hClient]
    exact h.noClient
  | client l =>
    obtain ⟨clients, hMoves, rfl⟩ := clients_of_stopStep hStep
    have hShift := shift_of_moves hMoves
    refine ⟨counted_step hShift h.counted, ?_⟩
    rw [who_map] at hShift
    generalize hWho : l.who.map some = who at hShift
    have hNone : who ≠ some none := by
      rintro rfl
      simp at hWho
    rw [← h.noClient]
    cases hShift with
    | same _ hAll => exact hAll none
    | blocks _ _ _ hOthers => exact hOthers none fun hc => hNone (by rw [← hc])
    | unblocks _ _ _ hOthers => exact hOthers none fun hc => hNone (by rw [← hc])

/-- `StopSync` has neither taken nor released `finishedLock`. -/
def Apart (t : StopState κ) : Prop :=
  t.unlockedUnheld = false ∧ t.clients.lock ≠ some none

/-- **Clients keep `StopSync` and the lock apart.** -/
theorem apart_client {l : Label κ} (h : Apart t) (hStep : stopStep t (.client l) = some t') :
    Apart t' := by
  obtain ⟨clients, hMoves, rfl⟩ := clients_of_stopStep hStep
  refine ⟨h.1, ?_⟩
  rcases lock_of_moves hMoves with hSame | hFree | hMine
  · show clients.lock ≠ some none
    rw [hSame]
    exact h.2
  · show clients.lock ≠ some none
    rw [hFree]
    simp
  · show clients.lock ≠ some none
    rw [hMine, who_map]
    simp

/-- In front of its loop `StopSync` has not touched the lock. -/
theorem apart_before_step {l : StopLabel κ} (h : t.pc.beforeLoop = true → Apart t)
    (hStep : stopStep t l = some t') : t'.pc.beforeLoop = true → Apart t' := by
  cases l with
  | client l =>
    obtain ⟨clients, -, rfl⟩ := clients_of_stopStep hStep
    intro hBefore
    exact apart_client (h hBefore) hStep
  | stop =>
    intro hBefore
    change t.stopSync = some t' at hStep
    unfold StopState.stopSync at hStep
    split at hStep
    · rename_i hPc
      obtain rfl := Option.some.inj hStep
      exact h (by rw [hPc]; rfl)
    · obtain rfl := Option.some.inj hStep
      dsimp only at hBefore
      split at hBefore <;> cases hBefore
    · obtain rfl := Option.some.inj hStep
      dsimp only at hBefore
      split at hBefore <;> cases hBefore
    · obtain rfl := Option.some.inj hStep
      cases hBefore
    · split at hStep
      · cases hStep
      · obtain rfl := Option.some.inj hStep
        cases hBefore
    · obtain rfl := Option.some.inj hStep
      cases hBefore
    · cases hStep

/-- Outside the loop, and the lock untouched. -/
def Clear (t : StopState κ) : Prop := Apart t ∧ t.pc.inLoop = false

/-- **When no client is in `WaitSend` at the first test, `StopSync` never touches the lock.** -/
theorem clear_step {l : StopLabel κ} (hSound : Sound t) (h : Clear t) (hOk : Unwaited t l)
    (hStep : stopStep t l = some t') : Clear t' := by
  obtain ⟨hApart, hOut⟩ := h
  cases l with
  | client l =>
    obtain ⟨clients, -, rfl⟩ := clients_of_stopStep hStep
    exact ⟨apart_client hApart hStep, hOut⟩
  | stop =>
    change t.stopSync = some t' at hStep
    unfold StopState.stopSync at hStep
    split at hStep
    · obtain rfl := Option.some.inj hStep
      exact ⟨hApart, rfl⟩
    · rename_i hPc
      obtain rfl := Option.some.inj hStep
      have hNobody : ¬ t.clients.waiting > 0 := by
        rw [hSound.waiting_pos_iff]
        rintro ⟨c, hBlocked⟩
        rw [hOk hPc c] at hBlocked
        cases hBlocked
      refine ⟨hApart, ?_⟩
      show (if t.clients.waiting > 0 then StopPc.unlocking else .leaving).inLoop = false
      rw [if_neg hNobody]
      rfl
    · rename_i hPc
      rw [hPc] at hOut
      cases hOut
    · rename_i hPc
      rw [hPc] at hOut
      cases hOut
    · rename_i hPc
      rw [hPc] at hOut
      cases hOut
    · obtain rfl := Option.some.inj hStep
      exact ⟨hApart, rfl⟩
    · cases hStep

omit [DecidableEq κ] in
/-- Nobody waits in an engine that has just been started. -/
theorem sound_runningEngine (ordered : κ → Bool) (ids : κ → List Int) (timeout : κ → Bool) :
    Sound (runningEngine ordered ids timeout) := by
  refine ⟨⟨∅, fun c => ?_, rfl⟩, rfl⟩
  cases c with
  | none => simp [runningEngine, initial, Client.new, Pc.isBlocked]
  | some c => simp [runningEngine, initial, Client.new, Pc.isBlocked]

/-- Behind the loop nobody is left. -/
theorem Clear.released (h : Clear t) : Released t where
  awake := by
    rintro ⟨hLoop, -⟩
    rw [h.2] at hLoop
    cases hLoop
  held := h.1.1
  free _ := h.1.2

/-- A client in `WaitSend` at the first test: `StopSync` unlocks a lock that it does not hold. -/
theorem unlocks_unheld (hSound : Sound t) (hApart : Apart t) (hPc : t.pc = .first) {c : κ}
    (hBlocked : (t.clients.client (some c)).pc.isBlocked = true) :
    ∃ t', Lib.run stopStep t [.stop, .stop] = some t' ∧ t'.unlockedUnheld = true := by
  have hWaiting : t.clients.waiting > 0 := hSound.waiting_pos_iff.mpr ⟨c, hBlocked⟩
  have hTest : stopStep t .stop = some { t with pc := .unlocking } := by
    simp [stopStep, StopState.stopSync, hPc, hWaiting]
  refine ⟨{ clients := { t.clients with lock := none }, pc := .yielding, unlockedUnheld := true },
    Lib.run_cons_eq_some.mpr ⟨_, hTest, Lib.run_cons_eq_some.mpr ⟨_, ?_, rfl⟩⟩, rfl⟩
  have hUnheld : (t.clients.lock != some none) = true := bne_iff_ne.mpr hApart.2
  simp [stopStep, StopState.stopSync, State.signalRecv, hUnheld]

/-- **Stopping releases the waiting clients and the lock, if none waits at the first test.** For
any calls of any number of clients, in every run in which no client is in `WaitSend` when
`StopSync` tests its loop for the first time: no state reached has `StopSync` stuck in its loop,
every `Unlock` was executed with the lock held, and `StopSync` returns without it. And when some
client is in `WaitSend` at that test, the next two steps of `StopSync` break this. -/
theorem stop_releases_clients (ordered : κ → Bool) (ids : κ → List Int) (timeout : κ → Bool)
    (labels : List (StopLabel κ)) (t : StopState κ)
    (hRun : Lib.run stopStep (runningEngine ordered ids timeout) labels = some t) :
    (Lib.AllOk stopStep Unwaited (runningEngine ordered ids timeout) labels → Released t) ∧
    (t.pc = .first → (∃ c, (t.clients.client (some c)).pc.isBlocked = true) →
      ∃ t', Lib.run stopStep t [.stop, .stop] = some t' ∧ ¬ Released t') := by
  have hInitial := sound_runningEngine ordered ids timeout
  constructor
  · intro hOk
    have hClear : Sound t ∧ Clear t := by
      refine Lib.run_invariant_of_ok (fun t => Sound t ∧ Clear t) ?_ hOk hRun
        ⟨hInitial, ⟨rfl, by simp [runningEngine, initial]⟩, rfl⟩
      rintro t l t' ⟨hSound, hClear⟩ hUnwaited hStep
      exact ⟨sound_step hSound hStep, clear_step hSound hClear hUnwaited hStep⟩
    exact hClear.2.released
  · rintro hPc ⟨c, hBlocked⟩
    have hBefore : Sound t ∧ (t.pc.beforeLoop = true → Apart t) := by
      refine Lib.run_invariant (fun t => Sound t ∧ (t.pc.beforeLoop = true → Apart t)) ?_ hRun
        ⟨hInitial, fun _ => ⟨rfl, by simp [runningEngine, initial]⟩⟩
      rintro t l t' ⟨hSound, hApart⟩ hStep
      exact ⟨sound_step hSound hStep, apart_before_step hApart hStep⟩
    obtain ⟨t', hNext, hUnheld⟩ :=
      unlocks_unheld hBefore.1 (hBefore.2 (by rw [hPc]; rfl)) hPc hBlocked
    refine ⟨t', hNext, fun hReleased => ?_⟩
    rw [hReleased.held] at hUnheld
    cases hUnheld

instance [Fintype κ] (t : StopState κ) : ∀ l : StopLabel κ, Decidable (Unwaited t l)
  | .stop => inferInstanceAs
      (Decidable (t.pc = .first → ∀ c, (t.clients.client (some c)).pc.isBlocked = false))
  | .client _ => isTrue trivial

/-- One client reads the queue while the engine stops, and gives up. -/
def stoppedReader : List (StopLabel Bool) :=
  [.client (.call true), .client (.acquire true), .client (.scan true), .stop, .stop, .stop,
    .client (.getItem true false), .client (.acquire true)]

theorem stop_releases_clients_stoppedReader :
    ∃ t, Lib.run stopStep (runningEngine (fun _ => true) (fun _ : Bool => [1]) fun _ => true)
      stoppedReader = some t ∧ t.pc = .returned ∧ Released t := by
  refine ⟨_, rfl, rfl, ?_⟩
  exact (stop_releases_clients (fun _ => true) (fun _ => [1]) (fun _ => true) stoppedReader _
    rfl).1 (by decide)

/-- The first client reads the queue and the second one waits. `StopSync` signals the wrong
condition, unlocks a lock that it does not hold, and goes round and round. -/
theorem stop_stuck_with_waiter :
    ∃ t, Lib.run stopStep (runningEngine (fun _ => true) (fun _ : Bool => [1]) fun _ => true)
        ([.client (.call true), .client (.acquire true), .client (.scan true),
          .client (.call false), .client (.acquire false), .client (.scan false),
          .stop, .stop, .stop, .stop]) = some t ∧
      t.unlockedUnheld = true ∧ Stuck t := by
  refine ⟨_, rfl, rfl, rfl, ⟨false, rfl⟩, ?_⟩
  intro l t' hStep
  cases l with
  | arrive r => trivial
  | setCancel => cases hStep
  | stopQueue => cases hStep
  | call c => trivial
  | acquire c => cases c <;> cases hStep
  | wake c timedOut => cases c <;> cases hStep
  | getItem c got =>
    cases got with
    | true => cases c <;> cases hStep
    | false => trivial
  | scan c => cases c <;> cases hStep
  | store c past => cases c <;> cases hStep
  | poll c => cases c <;> cases hStep

end HectorCore.Clients
