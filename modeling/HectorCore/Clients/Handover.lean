import HectorCore.Clients.GetProcessed

/-!
# Handover — a waiting client needs a reader

A client that waits on `finishedLock` without a pending signal relies on some other client
that is reading the output queue. When the reader comes back and does not read on, it must
wake the others, so that one of them takes its place.

* `Roles`, `roles_step`   — who has the lock, and who reads the queue;
* `Served`, `served_step` — a waiting client is served: some client reads the queue, or the
  lock is held by one that will read it next;
* `waiting_client_has_reader` — so whenever the lock is free a waiting client has a reader,
  in every run in which the reader hands over (`HandsOver`);
* `reader_leaves_without_signal` — a run in which it does not.
-/

namespace HectorCore.Clients

variable {κ : Type} [DecidableEq κ]

-- ---------------------------------------------------------------------------
-- Who waits, who reads
-- ---------------------------------------------------------------------------

/-- Blocked in `WaitSend` with no pending signal. -/
def Waits (s : State κ) (c : κ) : Prop := (s.client c).pc = .blocked false

/-- Inside `outputQueue->GetItem(timeout)`: from `finishedLock.Unlock()` until the lock is
taken again. -/
def Pc.inside : Pc → Bool
  | .inQueue | .gotItem _ => true
  | _ => false

/-- The call has `finishedLock`. -/
def Pc.locked : Pc → Bool
  | .scanning | .storing .. | .polling .. => true
  | _ => false

/-- The call came here because it may wait. -/
def Pc.mayWait : Pc → Bool
  | .blocked _ | .inQueue | .gotItem _ | .storing .. | .polling .. => true
  | _ => false

/-- The call still lacks a result that is not among the finished ones. -/
def Client.stillNeeds (me : Client) (finished : Int → Option Resource) : Prop :=
  if me.ordered then ∃ j id, me.index ≤ j ∧ me.ids[j]? = some id ∧ finished id = none
  else ∃ id ∈ me.ids, finished id = none

/-- The same for what the iterator has still to visit. -/
def Client.willNeed (me : Client) (finished : Int → Option Resource) : Prop :=
  if me.ordered then ∃ j id, me.index ≤ j ∧ me.ids[j]? = some id ∧ finished id = none
  else ∃ id ∈ me.iter, finished id = none

/-- The client with the lock will become the reader, or is the reader that came back. -/
def Client.willRead (me : Client) (finished : Int → Option Resource) : Prop :=
  match me.pc with
  | .storing .. | .polling .. => True
  | .scanning => me.timeout = true ∧ me.willNeed finished
  | _ => False

/-- **The condition on the reader.** When the queue is drained, the reader found a result of
another client (and signals), or it still needs one that is not there (and reads on), or
nobody waits. -/
def HandsOver (s : State κ) : Label κ → Prop
  | .poll c =>
    match (s.client c).pc with
    | .polling _ foundForeign =>
      s.front.isSome ∨ foundForeign = true ∨ (s.client c).stillNeeds s.finishedResources ∨
        ∀ c', ¬ Waits s c'
    | _ => True
  | _ => True

-- ---------------------------------------------------------------------------
-- One client at a time
-- ---------------------------------------------------------------------------

/-- `o` is the one client that has the property, if there is one. -/
def Tracks (f : κ → Bool) (o : Option κ) : Prop := ∀ c, f c = true ↔ o = some c

omit [DecidableEq κ] in
theorem Tracks.same {f f' : κ → Bool} {o : Option κ} (h : Tracks f o) (hSame : ∀ c, f' c = f c) :
    Tracks f' o := by
  intro c
  rw [hSame c]
  exact h c

omit [DecidableEq κ] in
/-- The client that had the property, or that gets it while no other one has it. -/
theorem Tracks.update {f f' : κ → Bool} {o : Option κ} {c : κ} (h : Tracks f o)
    (hOthers : ∀ c', c' ≠ c → f' c' = f c') (hFree : o = none ∨ o = some c) :
    Tracks f' (if f' c = true then some c else none) := by
  intro c'
  by_cases hc : c' = c
  · subst hc
    by_cases hMine : f' c' = true <;> simp [hMine]
  · have hNot : ¬ f c' = true := by
      rw [h c']
      rcases hFree with rfl | rfl
      · simp
      · simp [Ne.symm hc]
    rw [hOthers c' hc]
    refine iff_of_false hNot ?_
    split
    · simp [Ne.symm hc]
    · simp

/-- Who has the lock and who reads the queue, and why. -/
structure Roles (s : State κ) : Prop where
  lock : Tracks (fun c => (s.client c).pc.locked) s.lock
  reader : ∃ o, Tracks (fun c => (s.client c).pc.inside) o ∧ s.waitingInQueue = o.isSome
  timeout : ∀ c, (s.client c).pc.mayWait = true → (s.client c).timeout = true
  found : ∀ c foundMy foundForeign, (s.client c).pc = .polling foundMy foundForeign →
    (s.client c).ordered = true ∨ foundMy = true ∨ foundForeign = true

/-- A waiting client is served: there is a reader, or the lock is held by the next one. -/
def Served (s : State κ) : Prop :=
  (∃ c, Waits s c) → s.waitingInQueue = false →
    ∃ c, s.lock = some c ∧ (s.client c).willRead s.finishedResources

variable {s s' : State κ}

omit [DecidableEq κ] in
/-- While the lock is free, a waiting client has a reader. -/
theorem Served.waiting_of_free (h : Served s) (hLock : s.lock = none) {c : κ} (hWaits : Waits s c) :
    s.waitingInQueue = true := by
  by_contra hFlag
  obtain ⟨c', hHeld, -⟩ := h ⟨c, hWaits⟩ (by simpa using hFlag)
  rw [hLock] at hHeld
  exact absurd hHeld (by simp)

omit [DecidableEq κ] in
/-- One client moves: it leaves the lock alone, or takes, keeps or gives back the free lock;
and likewise the role of the reader. -/
theorem Roles.turn (h : Roles s) {c : κ} (hOthers : ∀ c', c' ≠ c → s'.client c' = s.client c')
    (hLock : (s'.lock = s.lock ∧ (s'.client c).pc.locked = (s.client c).pc.locked) ∨
      ((s.lock = none ∨ s.lock = some c) ∧
        s'.lock = if (s'.client c).pc.locked = true then some c else none))
    (hReader : (s'.waitingInQueue = s.waitingInQueue ∧
        (s'.client c).pc.inside = (s.client c).pc.inside) ∨
      ((s.waitingInQueue = false ∨ (s.client c).pc.inside = true) ∧
        s'.waitingInQueue = (s'.client c).pc.inside))
    (hTimeout : (s'.client c).pc.mayWait = true → (s'.client c).timeout = true)
    (hFound : ∀ foundMy foundForeign, (s'.client c).pc = .polling foundMy foundForeign →
      (s'.client c).ordered = true ∨ foundMy = true ∨ foundForeign = true) : Roles s' where
  lock := by
    rcases hLock with ⟨hSame, hPc⟩ | ⟨hFree, hNew⟩
    · rw [hSame]
      refine h.lock.same fun c' => ?_
      by_cases hc : c' = c
      · rw [hc, hPc]
      · rw [hOthers c' hc]
    · rw [hNew]
      exact h.lock.update (fun c' hc => by rw [hOthers c' hc]) hFree
  reader := by
    obtain ⟨o, hTracks, hFlag⟩ := h.reader
    rcases hReader with ⟨hSame, hPc⟩ | ⟨hFree, hNew⟩
    · refine ⟨o, hTracks.same fun c' => ?_, by rw [hSame, hFlag]⟩
      by_cases hc : c' = c
      · rw [hc, hPc]
      · rw [hOthers c' hc]
    · have hFree' : o = none ∨ o = some c := by
        rcases hFree with hNone | hMine
        · left
          rw [hNone] at hFlag
          simpa using hFlag.symm
        · exact .inr ((hTracks c).mp hMine)
      refine ⟨_, hTracks.update (fun c' hc => by rw [hOthers c' hc]) hFree', ?_⟩
      rw [hNew]
      cases (s'.client c).pc.inside <;> rfl
  timeout c' hMay := by
    by_cases hc : c' = c
    · rw [hc] at hMay ⊢
      exact hTimeout hMay
    · rw [hOthers c' hc] at hMay ⊢
      exact h.timeout c' hMay
  found c' foundMy foundForeign hPc := by
    by_cases hc : c' = c
    · rw [hc] at hPc ⊢
      exact hFound foundMy foundForeign hPc
    · rw [hOthers c' hc] at hPc ⊢
      exact h.found c' foundMy foundForeign hPc

-- ---------------------------------------------------------------------------
-- SignalSend
-- ---------------------------------------------------------------------------

omit [DecidableEq κ] in
/-- A broadcast changes nothing but blocked clients. -/
theorem signalSend_client (s : State κ) (c : κ) :
    s.signalSend.client c = s.client c ∨ ∃ b, (s.client c).pc = .blocked b ∧
      s.signalSend.client c = { s.client c with pc := .blocked true } := by
  simp only [State.signalSend]
  split
  · rename_i b hPc
    exact .inr ⟨b, hPc, rfl⟩
  · exact .inl rfl

omit [DecidableEq κ] in
/-- Nobody is left without a signal. -/
theorem not_waits_signalSend (s : State κ) (c : κ) : ¬ Waits s.signalSend c := by
  intro hWaits
  unfold Waits at hWaits
  rcases signalSend_client s c with hSame | ⟨b, -, hNew⟩
  · have hBlocked : (s.client c).pc = .blocked false := by rw [← hSame, hWaits]
    simp [State.signalSend, hBlocked] at hWaits
  · rw [hNew] at hWaits
    exact absurd hWaits (by simp)

omit [DecidableEq κ] in
theorem Roles.signalSend (h : Roles s) : Roles s.signalSend where
  lock := by
    refine h.lock.same fun c => ?_
    rcases signalSend_client s c with hSame | ⟨b, hPc, hNew⟩
    · rw [hSame]
    · rw [hNew, hPc]
      rfl
  reader := by
    obtain ⟨o, hTracks, hFlag⟩ := h.reader
    refine ⟨o, hTracks.same fun c => ?_, hFlag⟩
    rcases signalSend_client s c with hSame | ⟨b, hPc, hNew⟩
    · rw [hSame]
    · rw [hNew, hPc]
      rfl
  timeout c hMay := by
    rcases signalSend_client s c with hSame | ⟨b, hPc, hNew⟩
    · rw [hSame] at hMay ⊢
      exact h.timeout c hMay
    · rw [hNew]
      exact h.timeout c (by rw [hPc]; rfl)
  found c foundMy foundForeign hPc := by
    rcases signalSend_client s c with hSame | ⟨b, -, hNew⟩
    · rw [hSame] at hPc ⊢
      exact h.found c foundMy foundForeign hPc
    · rw [hNew] at hPc
      exact absurd hPc (by simp)

-- ---------------------------------------------------------------------------
-- The roles, step by step
-- ---------------------------------------------------------------------------

/-- Giving up, with the lock just taken. -/
theorem Roles.giveUp {u : State κ} {c : κ} (h : Roles s)
    (hOthers : ∀ c', c' ≠ c → u.client c' = s.client c')
    (hLock : s.lock = none) (hHeld : u.lock = some c)
    (hReader : (u.waitingInQueue = s.waitingInQueue ∧ (s.client c).pc.inside = false) ∨
      ((s.client c).pc.inside = true ∧ u.waitingInQueue = false)) : Roles (u.giveUp c) := by
  have hNew : (u.giveUp c).waitingInQueue = u.waitingInQueue := by
    unfold State.giveUp
    dsimp only
    split <;> rfl
  have hPc : ((u.giveUp c).client c).pc =
      if (u.client c).ordered = true then .returned false else .scanning := by
    unfold State.giveUp
    dsimp only
    split
    · show ((u.set c _).client c).pc = _
      rw [client_set_self]
    · rw [client_set_self]
  have hAfter : (u.giveUp c).lock =
      if ((u.giveUp c).client c).pc.locked = true then some c else none := by
    rw [hPc]
    unfold State.giveUp
    dsimp only
    split
    · rfl
    · exact hHeld
  have hOut : ((u.giveUp c).client c).pc.inside = false := by
    rw [hPc]
    split <;> rfl
  refine h.turn (c := c) ?_ (.inr ⟨.inl hLock, hAfter⟩) ?_ ?_ ?_
  · intro c' hc
    rw [← hOthers c' hc]
    unfold State.giveUp
    dsimp only
    split
    · show (u.set c _).client c' = _
      rw [client_set_of_ne u _ hc]
    · rw [client_set_of_ne u _ hc]
  · rcases hReader with ⟨hSame, hInside⟩ | ⟨hInside, hFlag⟩
    · exact .inl ⟨by rw [hNew, hSame], by rw [hOut, hInside]⟩
    · exact .inr ⟨.inr hInside, by rw [hNew, hFlag, hOut]⟩
  · rw [hPc]
    split <;> simp [Pc.mayWait]
  · intro foundMy foundForeign hPolling
    rw [hPc] at hPolling
    split at hPolling <;> exact absurd hPolling (by simp)

/-- Waiting, as the reader or behind it. -/
theorem Roles.await {c : κ} (h : Roles s) (hPc : (s.client c).pc = .scanning)
    (hTimeout : (s.client c).timeout = true) : Roles (s.await c) := by
  have hMine : s.lock = some c := (h.lock c).mp (by simp only [hPc]; rfl)
  unfold State.await
  dsimp only
  split
  · refine h.turn (c := c) (fun c' hc => client_set_of_ne s _ hc) (.inr ⟨.inr hMine, ?_⟩)
      (.inl ⟨rfl, ?_⟩) (fun _ => ?_) (fun _ _ hPolling => ?_)
    · simp [State.set, Pc.locked]
    · simp [State.set, Pc.inside, hPc]
    · simp [State.set, hTimeout]
    · simp [State.set] at hPolling
  · rename_i hFlag
    refine h.turn (c := c) (fun c' hc => client_set_of_ne s _ hc) (.inr ⟨.inr hMine, ?_⟩)
      (.inr ⟨.inl (by simpa using hFlag), ?_⟩) (fun _ => ?_) (fun _ _ hPolling => ?_)
    · simp [State.set, Pc.locked]
    · simp [State.set, Pc.inside]
    · simp [State.set, hTimeout]
    · simp [State.set] at hPolling

omit [DecidableEq κ] in
/-- A scanning client moves on to another place in its own code, with the lock or without. -/
theorem Roles.scanned {c : κ} {me : Client} (h : Roles s) (hPc : (s.client c).pc = .scanning)
    (hSelf : s'.client c = me) (hOthers : ∀ c', c' ≠ c → s'.client c' = s.client c')
    (hFlag : s'.waitingInQueue = s.waitingInQueue)
    (hLock : s'.lock = if me.pc.locked = true then some c else none)
    (hQuiet : me.pc.inside = false ∧ me.pc.mayWait = false) : Roles s' := by
  have hMine : s.lock = some c := (h.lock c).mp (by simp only [hPc]; rfl)
  refine h.turn (c := c) hOthers (.inr ⟨.inr hMine, by rw [hSelf]; exact hLock⟩)
    (.inl ⟨hFlag, ?_⟩) (fun hMay => ?_) (fun foundMy foundForeign hPolling => ?_)
  · rw [hSelf, hQuiet.1, hPc]
    rfl
  · rw [hSelf, hQuiet.2] at hMay
    exact absurd hMay (by simp)
  · rw [hSelf] at hPolling
    rw [hPolling] at hQuiet
    exact absurd hQuiet.2 (by simp [Pc.mayWait])

theorem Roles.scanUnordered {c : κ} (h : Roles s) (hPc : (s.client c).pc = .scanning) :
    Roles (s.scanUnordered c) := by
  have hMine : s.lock = some c := (h.lock c).mp (by simp only [hPc]; rfl)
  unfold State.scanUnordered
  dsimp only
  split
  · exact h.scanned hPc (client_set_self s c _) (fun c' hc => client_set_of_ne s _ hc) rfl rfl
      ⟨rfl, rfl⟩
  · split
    · refine h.scanned hPc (client_set_self s c _) (fun c' hc => client_set_of_ne s _ hc) rfl ?_ ?_
      · simp [State.set, hPc, Pc.locked, hMine]
      · simp [hPc, Pc.inside, Pc.mayWait]
    · split
      · rename_i hTimeout
        exact h.await hPc hTimeout
      · refine h.scanned hPc (client_set_self s c _)
          (fun c' hc => client_set_of_ne s _ hc) rfl ?_ ?_
        · simp [State.set, hPc, Pc.locked, hMine]
        · simp [hPc, Pc.inside, Pc.mayWait]

theorem Roles.scanOrdered {c : κ} (h : Roles s) (hPc : (s.client c).pc = .scanning) :
    Roles (s.scanOrdered c) := by
  have hMine : s.lock = some c := (h.lock c).mp (by simp only [hPc]; rfl)
  unfold State.scanOrdered
  dsimp only
  split
  · exact h.scanned hPc (client_set_self s c _) (fun c' hc => client_set_of_ne s _ hc) rfl rfl
      ⟨rfl, rfl⟩
  · split
    · refine h.scanned hPc (client_set_self s c _) (fun c' hc => client_set_of_ne s _ hc) rfl ?_ ?_
      · simp [State.set, hPc, Pc.locked, hMine]
      · simp [hPc, Pc.inside, Pc.mayWait]
    · split
      · rename_i hTimeout
        exact h.await hPc hTimeout
      · exact h.scanned hPc (client_set_self s c _) (fun c' hc => client_set_of_ne s _ hc) rfl rfl
          ⟨rfl, rfl⟩

omit [DecidableEq κ] in
/-- A client in the inner loop moves on within it. -/
theorem Roles.looped {c : κ} {me : Client} (h : Roles s) (hLocked : (s.client c).pc.locked = true)
    (hMay : (s.client c).pc.mayWait = true) (hSelf : s'.client c = me)
    (hOthers : ∀ c', c' ≠ c → s'.client c' = s.client c')
    (hFlag : s'.waitingInQueue = s.waitingInQueue) (hLock : s'.lock = s.lock)
    (hPc : me.pc.locked = true ∧ me.pc.inside = false)
    (hTimeout : me.timeout = (s.client c).timeout)
    (hFound : ∀ foundMy foundForeign, me.pc = .polling foundMy foundForeign →
      me.ordered = true ∨ foundMy = true ∨ foundForeign = true) : Roles s' := by
  have hNotInside : (s.client c).pc.inside = false := by
    cases hOld : (s.client c).pc <;> simp [hOld, Pc.locked, Pc.inside] at hLocked ⊢
  subst hSelf
  refine h.turn (c := c) hOthers (.inl ⟨hLock, by rw [hPc.1, hLocked]⟩)
    (.inl ⟨hFlag, by rw [hPc.2, hNotInside]⟩) (fun _ => ?_) hFound
  rw [hTimeout]
  exact h.timeout c hMay

theorem Roles.store {c : κ} {r : Resource} {foundMy foundForeign : Bool} {past : Int} (h : Roles s)
    (hPc : (s.client c).pc = .storing r foundMy foundForeign) :
    Roles (s.store c r foundMy foundForeign past) := by
  have hLocked : (s.client c).pc.locked = true := by rw [hPc]; rfl
  have hMay : (s.client c).pc.mayWait = true := by rw [hPc]; rfl
  have hForeign : Roles (s.storeForeign c r foundMy) := by
    refine h.looped hLocked hMay (client_set_self s c _) (fun c' hc => client_set_of_ne s _ hc)
      rfl rfl ⟨rfl, rfl⟩ rfl ?_
    rintro m f hPolling
    obtain ⟨-, rfl⟩ := Pc.polling.inj hPolling
    exact .inr (.inr rfl)
  unfold State.store
  dsimp only
  split
  · rename_i hOrdered
    split
    · exact h.looped hLocked hMay (client_set_self s c _) (fun c' hc => client_set_of_ne s _ hc)
        rfl rfl ⟨rfl, rfl⟩ rfl (fun _ _ _ => .inl hOrdered)
    · exact hForeign
  · split
    · refine h.looped hLocked hMay (client_set_self s c _) (fun c' hc => client_set_of_ne s _ hc)
        rfl rfl ⟨rfl, rfl⟩ rfl ?_
      rintro m f hPolling
      obtain ⟨rfl, -⟩ := Pc.polling.inj hPolling
      exact .inr (.inl rfl)
    · exact hForeign

theorem Roles.finishDrain {c : κ} {foundMy foundForeign : Bool} (h : Roles s)
    (hPc : (s.client c).pc = .polling foundMy foundForeign) :
    Roles (s.finishDrain c foundMy foundForeign) := by
  have hLocked : (s.client c).pc.locked = true := by rw [hPc]; rfl
  have hMay : (s.client c).pc.mayWait = true := by rw [hPc]; rfl
  have hMine : s.lock = some c := (h.lock c).mp hLocked
  -- the head of the outer loop, with or without a new iterator
  have hScanning : ∀ me : Client, me.pc = .scanning → me.timeout = (s.client c).timeout →
      Roles (s.set c me) := by
    intro me hMe hTimeout
    exact h.looped hLocked hMay (client_set_self s c me) (fun c' hc => client_set_of_ne s me hc)
      rfl rfl (by rw [hMe]; exact ⟨rfl, rfl⟩) hTimeout
      (fun m f hPolling => absurd hPolling (by simp [hMe]))
  unfold State.finishDrain
  dsimp only
  split
  · split
    · have hYield : Roles { s.set c { s.client c with pc := .yielding } with lock := none } := by
        refine h.turn (c := c) (fun c' hc => client_set_of_ne s _ hc) (.inr ⟨.inr hMine, ?_⟩)
          (.inl ⟨rfl, ?_⟩) (fun hNo => ?_) (fun _ _ hPolling => ?_)
        · simp [State.set, Pc.locked]
        · simp [State.set, Pc.inside, hPc]
        · simp [State.set, Pc.mayWait] at hNo
        · simp [State.set] at hPolling
      exact hYield.signalSend
    · exact hScanning { s.client c with pc := .scanning } rfl rfl
  · have hAgain := hScanning { s.client c with
      iter := if foundMy = true then (s.client c).ids else (s.client c).iter,
      pc := .scanning } rfl rfl
    split
    · exact hAgain.signalSend
    · exact hAgain

omit [DecidableEq κ] in
/-- A client outside gets the lock and goes through its loop. -/
theorem Roles.scanning {c : κ} (h : Roles s) (hLock : s.lock = none)
    (hOutside : (s.client c).pc.inside = false) (hPc : (s'.client c).pc = .scanning)
    (hOthers : ∀ {c'}, c' ≠ c → s'.client c' = s.client c') (hLock' : s'.lock = some c)
    (hFlag : s'.waitingInQueue = s.waitingInQueue) : Roles s' := by
  refine h.turn (c := c) (fun c' hc => hOthers hc) (.inr ⟨.inl hLock, ?_⟩) (.inl ⟨hFlag, ?_⟩)
    (fun hNo => ?_) (fun _ _ hPolling => ?_)
  · simp [hPc, hLock', Pc.locked]
  · rw [hPc, hOutside]
    rfl
  · rw [hPc] at hNo
    simp [Pc.mayWait] at hNo
  · rw [hPc] at hPolling
    simp at hPolling

omit [DecidableEq κ] in
/-- The reader comes out of `GetItem`. -/
theorem Roles.gotItem {c : κ} {o : Option Resource} (h : Roles s) (hPc : (s.client c).pc = .inQueue)
    (hSelf : s'.client c = { s.client c with pc := .gotItem o })
    (hOthers : ∀ {c'}, c' ≠ c → s'.client c' = s.client c') (hLock : s'.lock = s.lock)
    (hFlag : s'.waitingInQueue = s.waitingInQueue) : Roles s' := by
  refine h.turn (c := c) (fun c' hc => hOthers hc) (.inl ⟨hLock, ?_⟩) (.inl ⟨hFlag, ?_⟩)
    (fun _ => ?_) (fun _ _ hPolling => ?_)
  · rw [hSelf, hPc]; rfl
  · rw [hSelf, hPc]; rfl
  · rw [hSelf]
    exact h.timeout c (by rw [hPc]; rfl)
  · rw [hSelf] at hPolling
    exact absurd hPolling (by simp)

/-- **Every step keeps the roles.** -/
theorem roles_step {l : Label κ} (h : Roles s) (hStep : step s l = some s') : Roles s' := by
  cases moves_of_step hStep with
  | arrive r => exact ⟨h.lock, h.reader, h.timeout, h.found⟩
  | setCancel => exact ⟨h.lock, h.reader, h.timeout, h.found⟩
  | stopQueue => exact ⟨h.lock, h.reader, h.timeout, h.found⟩
  | @call c hPc =>
    refine h.turn (c := c) (fun c' hc => client_set_of_ne s _ hc) (.inl ⟨rfl, ?_⟩)
      (.inl ⟨rfl, ?_⟩) (fun hNo => ?_) (fun _ _ hPolling => ?_)
    · simp [hPc, Pc.locked]
    · simp [hPc, Pc.inside]
    · simp [Pc.mayWait] at hNo
    · simp at hPolling
  | enter hLock hPc =>
    exact h.scanning hLock (by rw [hPc]; rfl) (by simp)
      (client_set_of_ne _ _) rfl rfl
  | yielded hLock hPc =>
    exact h.scanning hLock (by rw [hPc]; rfl) (by simp)
      (client_set_of_ne _ _) rfl rfl
  | @gotNothing c hLock hPc =>
    refine h.signalSend.giveUp (fun c' _ => rfl) hLock rfl (.inr ⟨?_, rfl⟩)
    have hSame : s.signalSend.client c = s.client c := by simp [State.signalSend, hPc]
    rw [hSame, hPc]
    rfl
  | @gotItem c r hLock hPc =>
    have hInside : (s.client c).pc.inside = true := by rw [hPc]; rfl
    refine h.turn (c := c) (fun c' hc => client_set_of_ne _ _ hc) (.inr ⟨.inl hLock, ?_⟩)
      (.inr ⟨.inr hInside, ?_⟩) (fun _ => ?_) (fun _ _ hPolling => ?_)
    · simp [State.set, Pc.locked]
    · simp [State.set, Pc.inside]
    · simp only [client_set_self]
      exact h.timeout c (by rw [hPc]; rfl)
    · simp at hPolling
  | giveUp hLock hPc => exact h.giveUp (fun c' _ => rfl) hLock rfl (.inl ⟨rfl, by rw [hPc]; rfl⟩)
  | wake hLock hPc =>
    exact h.scanning hLock (by rw [hPc]; rfl) (by simp)
      (client_set_of_ne _ _) rfl rfl
  | take hPc _ => exact h.gotItem hPc (client_set_self s _ _) (client_set_of_ne s _) rfl rfl
  | takeNothing hPc => exact h.gotItem hPc (client_set_self s _ _) (client_set_of_ne s _) rfl rfl
  | scanOrdered hPc _ => exact h.scanOrdered hPc
  | scanUnordered hPc _ => exact h.scanUnordered hPc
  | store hPc => exact h.store hPc
  | @pollTake c r _ foundMy foundForeign hPc _ =>
    exact h.looped (by rw [hPc]; rfl) (by rw [hPc]; rfl) (client_set_self s c _)
      (fun c' hc => client_set_of_ne s _ hc) rfl rfl ⟨rfl, rfl⟩ rfl (by rintro _ _ ⟨⟩)
  | pollEmpty hPc _ => exact h.finishDrain hPc

-- ---------------------------------------------------------------------------
-- Waiting clients are served
-- ---------------------------------------------------------------------------

omit [DecidableEq κ] in
/-- Nobody starts to wait, and the flag is as before: the state is served while the lock is
free. -/
theorem Served.of_free (h : Served s) (hLock : s.lock = none)
    (hWaits : ∀ c, Waits s' c → Waits s c) (hFlag : s'.waitingInQueue = s.waitingInQueue) :
    Served s' := by
  rintro ⟨c, hWaiting⟩ hNo
  rw [hFlag, h.waiting_of_free hLock (hWaits c hWaiting)] at hNo
  exact absurd hNo (by simp)

omit [DecidableEq κ] in
theorem served_of_nobody (hNobody : ∀ c, ¬ Waits s' c) : Served s' := by
  rintro ⟨c, hWaits⟩
  exact absurd hWaits (hNobody c)

omit [DecidableEq κ] in
theorem served_of_reader (hFlag : s'.waitingInQueue = true) : Served s' := by
  intro _ hNo
  rw [hFlag] at hNo
  exact absurd hNo (by simp)

theorem waits_set {c : κ} {me : Client} (hMe : me.pc ≠ .blocked false) (c' : κ)
    (hWaits : Waits (s.set c me) c') : Waits s c' := by
  unfold Waits at *
  by_cases hc : c' = c
  · rw [hc, client_set_self] at hWaits
    exact absurd hWaits hMe
  · rwa [client_set_of_ne s me hc] at hWaits

theorem served_await (s : State κ) (c : κ) : Served (s.await c) := by
  refine served_of_reader ?_
  unfold State.await
  dsimp only
  split
  · assumption
  · rfl

theorem served_giveUp {u : State κ} {c : κ} (h : Served s) (hLock : s.lock = none)
    (hWaits : ∀ c, Waits u c → Waits s c) (hFlag : u.waitingInQueue = s.waitingInQueue) :
    Served (u.giveUp c) := by
  have hSame : (u.giveUp c).waitingInQueue = s.waitingInQueue := by
    rw [← hFlag]
    unfold State.giveUp
    dsimp only
    split <;> rfl
  refine h.of_free hLock (fun c' hWaiting => hWaits c' ?_) hSame
  unfold State.giveUp at hWaiting
  dsimp only at hWaiting
  split at hWaiting
  · exact waits_set (s := u) (by simp) c' hWaiting
  · exact waits_set (s := u) (by simp) c' hWaiting

omit [DecidableEq κ] in
/-- The client with the lock is the one that will read, if one has to. -/
theorem Served.mine (h : Served s) {c : κ} (hMine : s.lock = some c) (hWaits : ∃ c, Waits s c)
    (hFlag : s.waitingInQueue = false) : (s.client c).willRead s.finishedResources := by
  obtain ⟨c', hLock, hWill⟩ := h hWaits hFlag
  rw [hMine] at hLock
  exact Option.some.inj hLock ▸ hWill

theorem served_scanUnordered {c : κ} (hRoles : Roles s) (h : Served s)
    (hOrdered : (s.client c).ordered = false) (hPc : (s.client c).pc = .scanning) :
    Served (s.scanUnordered c) := by
  have hMine : s.lock = some c := (hRoles.lock c).mp (by simp only [hPc]; rfl)
  -- what is known when somebody waits and nobody reads
  have hWill : (∃ c, Waits s c) → s.waitingInQueue = false → (s.client c).timeout = true ∧
      ∃ id ∈ (s.client c).iter, s.finishedResources id = none := by
    intro hWaits hFlag
    have hRead := h.mine hMine hWaits hFlag
    simpa [Client.willRead, hPc, Client.willNeed, hOrdered] using hRead
  unfold State.scanUnordered
  dsimp only
  split
  · rename_i hIter
    rintro ⟨c', hWaits⟩ hFlag
    obtain ⟨-, id, hMem, -⟩ := hWill ⟨c', waits_set (s := s) (by simp) c' hWaits⟩ hFlag
    rw [hIter] at hMem
    exact absurd hMem (by simp)
  · rename_i id rest hIter
    split
    · rename_i r hFound
      rintro ⟨c', hWaits⟩ hFlag
      obtain ⟨hTimeout, i, hMem, hNone⟩ :=
        hWill ⟨c', waits_set (s := s) (by simp [hPc]) c' hWaits⟩ hFlag
      -- the id it needs is not the one that was found
      have hNe : i ≠ id := by
        rintro rfl
        rw [hFound] at hNone
        exact absurd hNone (by simp)
      have hRest : i ∈ rest := by
        rw [hIter] at hMem
        exact (List.mem_cons.mp hMem).resolve_left hNe
      refine ⟨c, hMine, ?_⟩
      simp only [State.set, Function.update_self, Client.willRead, hPc, Client.willNeed, hOrdered]
      exact ⟨hTimeout, i, hRest, by rw [Function.update_of_ne hNe]; exact hNone⟩
    · rename_i hNone
      split
      · exact served_await s c
      · rename_i hTimeout
        rintro ⟨c', hWaits⟩ hFlag
        obtain ⟨hYes, -⟩ := hWill ⟨c', waits_set (s := s) (by simp [hPc]) c' hWaits⟩ hFlag
        exact absurd hYes hTimeout

theorem served_scanOrdered {c : κ} (hRoles : Roles s) (h : Served s)
    (hOrdered : (s.client c).ordered = true) (hPc : (s.client c).pc = .scanning) :
    Served (s.scanOrdered c) := by
  have hMine : s.lock = some c := (hRoles.lock c).mp (by simp only [hPc]; rfl)
  have hWill : (∃ c, Waits s c) → s.waitingInQueue = false → (s.client c).timeout = true ∧
      ∃ j id, (s.client c).index ≤ j ∧ (s.client c).ids[j]? = some id ∧
        s.finishedResources id = none := by
    intro hWaits hFlag
    have hRead := h.mine hMine hWaits hFlag
    simpa [Client.willRead, hPc, Client.willNeed, hOrdered] using hRead
  unfold State.scanOrdered
  dsimp only
  split
  · -- past the end of the vector nothing is needed
    rename_i hEnd
    rintro ⟨c', hWaits⟩ hFlag
    obtain ⟨-, j, id, hLe, hId, -⟩ := hWill ⟨c', waits_set (s := s) (by simp) c' hWaits⟩ hFlag
    have hLength := List.getElem?_eq_none_iff.mp hEnd
    have hLt := (List.getElem?_eq_some_iff.mp hId).1
    omega
  · rename_i id hId
    split
    · rename_i r hFound
      rintro ⟨c', hWaits⟩ hFlag
      obtain ⟨hTimeout, j, i, hLe, hAt, hNone⟩ :=
        hWill ⟨c', waits_set (s := s) (by simp [hPc]) c' hWaits⟩ hFlag
      have hNe : i ≠ id := by
        rintro rfl
        rw [hFound] at hNone
        exact absurd hNone (by simp)
      have hLater : (s.client c).index ≠ j := by
        rintro rfl
        rw [hId] at hAt
        exact hNe (Option.some.inj hAt).symm
      refine ⟨c, hMine, ?_⟩
      simp only [State.set, Function.update_self, Client.willRead, hPc, Client.willNeed, hOrdered]
      exact ⟨hTimeout, j, i, by omega, hAt, by rw [Function.update_of_ne hNe]; exact hNone⟩
    · rename_i hNone
      split
      · exact served_await s c
      · rename_i hTimeout
        rintro ⟨c', hWaits⟩ hFlag
        obtain ⟨hYes, -⟩ := hWill ⟨c', waits_set (s := s) (by simp) c' hWaits⟩ hFlag
        exact absurd hYes hTimeout

omit [DecidableEq κ] in
/-- A client that stays in the inner loop will scan again. -/
theorem served_looped {c : κ} {me : Client} (hSelf : s'.client c = me) (hLock : s'.lock = some c)
    (hPc : (∃ r m f, me.pc = .storing r m f) ∨ ∃ m f, me.pc = .polling m f) : Served s' := by
  intro _ _
  refine ⟨c, hLock, ?_⟩
  rw [hSelf]
  rcases hPc with ⟨r, m, f, hMe⟩ | ⟨m, f, hMe⟩ <;> simp [Client.willRead, hMe]

theorem served_store {c : κ} {r : Resource} {foundMy foundForeign : Bool} {past : Int}
    (hRoles : Roles s) (hPc : (s.client c).pc = .storing r foundMy foundForeign) :
    Served (s.store c r foundMy foundForeign past) := by
  have hMine : s.lock = some c := (hRoles.lock c).mp (by simp only [hPc]; rfl)
  unfold State.store
  dsimp only
  split
  · split
    · exact served_looped (client_set_self s c _) hMine (.inr ⟨_, _, rfl⟩)
    · exact served_looped (client_set_self s c _) hMine (.inr ⟨_, _, rfl⟩)
  · split
    · exact served_looped (client_set_self s c _) hMine (.inr ⟨_, _, rfl⟩)
    · exact served_looped (client_set_self s c _) hMine (.inr ⟨_, _, rfl⟩)

/-- **The end of the inner loop**, where the reader has to hand over. -/
theorem served_finishDrain {c : κ} {foundMy foundForeign : Bool} (hRoles : Roles s)
    (hPc : (s.client c).pc = .polling foundMy foundForeign)
    (hOver : foundForeign = true ∨ (s.client c).stillNeeds s.finishedResources ∨
      ∀ c', ¬ Waits s c') :
    Served (s.finishDrain c foundMy foundForeign) := by
  have hMine : s.lock = some c := (hRoles.lock c).mp (by simp only [hPc]; rfl)
  have hTimeout : (s.client c).timeout = true := hRoles.timeout c (by rw [hPc]; rfl)
  have hFound := hRoles.found c foundMy foundForeign hPc
  unfold State.finishDrain
  dsimp only
  split
  · rename_i hOrdered
    split
    · exact served_of_nobody fun c' => not_waits_signalSend
        (s.set c { s.client c with pc := .yielding }) c'
    · rename_i hForeign
      rintro ⟨c', hWaits⟩ hFlag
      have hWaiting : Waits s c' := waits_set (s := s) (by simp) c' hWaits
      rcases hOver with hSignal | hNeeds | hNobody
      · exact absurd hSignal hForeign
      · refine ⟨c, hMine, ?_⟩
        rw [client_set_self]
        simp only [Client.stillNeeds, hOrdered, if_true] at hNeeds
        simp only [Client.willRead, Client.willNeed, hOrdered, if_true]
        exact ⟨hTimeout, hNeeds⟩
      · exact absurd hWaiting (hNobody c')
  · rename_i hOrdered
    split
    · exact served_of_nobody fun c' => not_waits_signalSend _ c'
    · rename_i hForeign
      -- the batch was not empty, so some of it was its own: the iterator starts again
      have hMy : foundMy = true := (hFound.resolve_left hOrdered).resolve_right hForeign
      rintro ⟨c', hWaits⟩ hFlag
      have hWaiting : Waits s c' := waits_set (s := s) (by simp) c' hWaits
      rcases hOver with hSignal | hNeeds | hNobody
      · exact absurd hSignal hForeign
      · refine ⟨c, hMine, ?_⟩
        rw [client_set_self]
        simp only [Client.stillNeeds, hOrdered] at hNeeds
        simp only [Client.willRead, Client.willNeed, hOrdered, hMy, if_true]
        exact ⟨hTimeout, hNeeds⟩
      · exact absurd hWaiting (hNobody c')

/-- **Every step at which the reader hands over keeps the waiting clients served.** -/
theorem served_step {l : Label κ} (hRoles : Roles s) (h : Served s) (hOver : HandsOver s l)
    (hStep : step s l = some s') : Served s' := by
  -- whoever is inside GetItem is the reader
  have hReader : ∀ {c}, (s.client c).pc = .inQueue → s.waitingInQueue = true := by
    intro c hPc
    obtain ⟨o, hTracks, hFlag⟩ := hRoles.reader
    rw [hFlag, (hTracks c).mp (by simp only [hPc]; rfl)]
    rfl
  cases moves_of_step hStep with
  | arrive r => exact h
  | setCancel => exact h
  | stopQueue => exact h
  | @call c hPc =>
    rintro ⟨c', hWaits⟩ hFlag
    obtain ⟨d, hLock, hWill⟩ := h ⟨c', waits_set (s := s) (by simp) c' hWaits⟩ hFlag
    have hNe : d ≠ c := by
      rintro rfl
      simp [Client.willRead, hPc] at hWill
    exact ⟨d, hLock, by rw [client_set_of_ne s _ hNe]; exact hWill⟩
  | @enter c hLock _ =>
    exact h.of_free hLock (fun c' hWaits => waits_set (s := { s with lock := some c })
      (by simp) c' hWaits) rfl
  | @yielded c hLock _ =>
    exact h.of_free hLock (fun c' hWaits => waits_set (s := { s with lock := some c })
      (by simp) c' hWaits) rfl
  | @gotNothing c _ _ =>
    -- everybody has a signal, and giving up makes nobody wait
    refine served_of_nobody fun c' hWaits => not_waits_signalSend
      { s with lock := some c, waitingInQueue := false } c' ?_
    unfold State.giveUp at hWaits
    dsimp only at hWaits
    split at hWaits
    · exact waits_set (by simp) c' hWaits
    · exact waits_set (by simp) c' hWaits
  | gotItem _ _ => exact served_looped (client_set_self _ _ _) rfl (.inl ⟨_, _, _, rfl⟩)
  | giveUp hLock _ => exact served_giveUp h hLock (fun c' hWaits => hWaits) rfl
  | @wake c _ _ hLock _ =>
    exact h.of_free hLock (fun c' hWaits => waits_set
      (s := { s with lock := some c, waiting := s.waiting - 1 }) (by simp) c' hWaits) rfl
  | take hPc _ => exact served_of_reader (hReader hPc)
  | takeNothing hPc => exact served_of_reader (hReader hPc)
  | scanOrdered hPc hOrdered => exact served_scanOrdered hRoles h hOrdered hPc
  | scanUnordered hPc hOrdered => exact served_scanUnordered hRoles h hOrdered hPc
  | store hPc => exact served_store hRoles hPc
  | @pollTake c _ _ _ _ hPc _ =>
    have hMine : s.lock = some c := (hRoles.lock c).mp (by simp only [hPc]; rfl)
    exact served_looped (client_set_self s c _) hMine (.inl ⟨_, _, _, rfl⟩)
  | @pollEmpty c foundMy foundForeign hPc hFront =>
    have hCases : foundForeign = true ∨ (s.client c).stillNeeds s.finishedResources ∨
        ∀ c', ¬ Waits s c' := by
      simpa [HandsOver, hPc, hFront] using hOver
    exact served_finishDrain hRoles hPc hCases

-- ---------------------------------------------------------------------------
-- Runs
-- ---------------------------------------------------------------------------

/-- Any calls of the two functions, before they begin. -/
def callers (ordered : κ → Bool) (ids : κ → List Int) (timeout : κ → Bool) : State κ :=
  initial fun c => Client.new (ordered c) (ids c) (timeout c)

omit [DecidableEq κ] in
theorem roles_callers (ordered : κ → Bool) (ids : κ → List Int) (timeout : κ → Bool) :
    Roles (callers ordered ids timeout) where
  lock c := by simp [callers, initial, Client.new, Pc.locked]
  reader := ⟨none, fun c => by simp [callers, initial, Client.new, Pc.inside], rfl⟩
  timeout c h := absurd h (by simp [callers, initial, Client.new, Pc.mayWait])
  found c _ _ h := absurd h (by simp [callers, initial, Client.new])

/-- **A waiting client is never left without a queue reader, when readers hand over.** In
every run of any number of calls in which every reader hands over at the end of its inner
loop: whenever `finishedLock` is free and some client waits without a pending signal,
`waitingInQueue` is set and another client is inside `GetItem`. -/
theorem waiting_client_has_reader (ordered : κ → Bool) (ids : κ → List Int) (timeout : κ → Bool)
    (labels : List (Label κ)) (s : State κ)
    (hOver : Lib.AllOk step HandsOver (callers ordered ids timeout) labels)
    (hRun : Lib.run step (callers ordered ids timeout) labels = some s) (hLock : s.lock = none)
    (c : κ) (hWaits : Waits s c) :
    s.waitingInQueue = true ∧ ∃ c', c' ≠ c ∧ (s.client c').pc.inside = true := by
  obtain ⟨hRoles, hServed⟩ : Roles s ∧ Served s := by
    refine Lib.run_invariant_of_ok (fun s => Roles s ∧ Served s) ?_ hOver hRun
      ⟨roles_callers ordered ids timeout, ?_⟩
    · rintro s l s' ⟨hRoles, hServed⟩ hHands hStep
      exact ⟨roles_step hRoles hStep, served_step hRoles hServed hHands hStep⟩
    · exact served_of_nobody fun c hWaiting => by
        simp [Waits, callers, initial, Client.new] at hWaiting
  have hFlag := hServed.waiting_of_free hLock hWaits
  refine ⟨hFlag, ?_⟩
  obtain ⟨o, hTracks, hSome⟩ := hRoles.reader
  rw [hFlag] at hSome
  obtain ⟨c', rfl⟩ := Option.isSome_iff_exists.mp hSome.symm
  have hInside := (hTracks c').mpr rfl
  refine ⟨c', ?_, hInside⟩
  rintro rfl
  rw [Waits] at hWaits
  simp only [hWaits] at hInside
  exact absurd hInside (by simp [Pc.inside])

/-- Two calls, of which the first reads the queue and the second waits. -/
def readerAndWaiter : List (Label Bool) :=
  [.call true, .acquire true, .scan true, .call false, .acquire false, .scan false]

/-- As long as nobody leaves, the second call has its reader. -/
theorem waiting_client_has_reader_two :
    ∃ s, Lib.run step (callers (fun _ => false) (fun c : Bool => if c then [1] else [2])
        fun _ => true) readerAndWaiter = some s ∧ Waits s false ∧
      s.waitingInQueue = true ∧ ∃ c', c' ≠ false ∧ (s.client c').pc.inside = true := by
  refine ⟨_, rfl, rfl, ?_⟩
  refine waiting_client_has_reader (fun _ => false) (fun c : Bool => if c then [1] else [2])
    (fun _ => true) readerAndWaiter _ ?_ rfl rfl false rfl
  refine Lib.AllOk.of_forall fun s l hMem => ?_
  simp only [readerAndWaiter, List.mem_cons, List.not_mem_nil, or_false] at hMem
  rcases hMem with rfl | rfl | rfl | rfl | rfl | rfl <;> trivial

/-- The result of the first call arrives; it is all the reader finds and all it needs, so it
returns and signals nobody. The second call waits, and nobody reads the queue. -/
theorem reader_leaves_without_signal :
    ∃ s, Lib.run step (callers (fun _ => false) (fun c : Bool => if c then [1] else [2])
        fun _ => true) (readerAndWaiter ++ [.arrive ⟨1, 10⟩, .getItem true true, .acquire true,
          .store true 0, .poll true, .scan true]) = some s ∧
      s.lock = none ∧ Waits s false ∧ s.waitingInQueue = false ∧
      ∀ c, (s.client c).pc.inside = false := by
  refine ⟨_, rfl, rfl, rfl, rfl, ?_⟩
  decide

end HectorCore.Clients
