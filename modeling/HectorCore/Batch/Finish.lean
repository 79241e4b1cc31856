import HectorCore.Lib.Run
import HectorCore.Lib.Lock

/-!
# Finish — the locks behind the end of a batch run

`Server::ProcessingEngineSleeping` and `ProcessingEngineWakeup`, which the threads of the
engines call, and `Server::Start(true)` and `Stop`, at the level of their lock operations: the
object lock of the server, `usingWokenUp`, and the mutex and the condition of `batchSleep`.
Every lock operation is one step, together with the code up to the next one.

* Any thread may call `ProcessingEngineSleeping` and `ProcessingEngineWakeup` at any time;
  `Start` is called once.
* A wait ends by a signal or spuriously; the mutex is taken again before it returns.

`ProcessingEngineSleeping` takes `usingWokenUp` under the object lock, gives the object lock
away for its `pthread_yield`s and takes it again under `usingWokenUp`. `Start` waits without
testing anything.

Main results: `sleeping_never_deadlocks`, `finish_signal_heard`.
-/

namespace HectorCore.Batch.Finish

open HectorCore.Lib

/-- The lock operation a thread has before it. -/
inductive Pc where
  | idle
  /-- `ProcessingEngineSleeping`: the first `ObjectLockWrite`, -/
  | sleepEnter
  /-- with the object lock, `usingWokenUp.Lock()`, -/
  | sleepUsing
  /-- with both, the `ObjectUnlock` in the middle, -/
  | sleepYield
  /-- with `usingWokenUp`, the second `ObjectLockWrite`, -/
  | sleepAgain
  /-- with both, `usingWokenUp.Unlock()`. -/
  | sleepDecided (finished : Bool)
  /-- The last `ObjectUnlock` of both functions. -/
  | leave (finished : Bool)
  /-- `ProcessingEngineWakeup`: `ObjectLockWrite`. -/
  | wakeEnter
  /-- The finish signal: `batchSleep.Lock()`, `SignalRecv()`, `Unlock()`. -/
  | signalLock
  | signalSend
  | signalUnlock
  /-- `Start`: the engines are being started; `batchSleep.Lock()`, -/
  | startLock
  /-- `batchSleep.WaitRecv(NULL)`, -/
  | startWait
  /-- inside it, -/
  | waiting (signalled : Bool)
  /-- `batchSleep.Unlock()`, and after it. -/
  | startUnlock
  | started
  deriving DecidableEq, Repr

/-- The three locks with who holds them, the members of the server, and where each thread is. -/
structure State (Tid : Type) where
  pc : Tid → Pc
  objectLock : Option Tid
  usingWokenUp : Option Tid
  batchSleep : Option Tid
  sleepingProcessingEngines : Int
  wokenUp : Bool
  /-- The thread in `Start`. -/
  main : Option Tid
  /-- History: the finish signal has been sent. -/
  sent : Bool

/-- A thread begins a call, or goes on with the one it is in. -/
inductive Label (Tid : Type) where
  | sleeping (t : Tid)
  | wakeup (t : Tid)
  | start (t : Tid)
  | stop (t : Tid)
  /-- The next lock operation of the thread. -/
  | go (t : Tid)
  deriving DecidableEq

/-- `pthread_cond_broadcast` on the condition of `batchSleep`. -/
def Pc.signalRecv : Pc → Pc
  | .waiting _ => .waiting true
  | pc => pc

variable {Tid : Type} [DecidableEq Tid]

def State.setPc (s : State Tid) (t : Tid) (pc : Pc) : State Tid :=
  { s with pc := Function.update s.pc t pc }

/-- Take a lock that must be free. -/
def whenFree (lock : Option Tid) (s : State Tid) : Option (State Tid) :=
  if lock.isNone then some s else none

/-- The next lock operation of thread `t`, for a server of `n` engines. -/
def go (n : Nat) (s : State Tid) (t : Tid) : Option (State Tid) :=
  match s.pc t with
  | .sleepEnter =>
    let sleeping := s.sleepingProcessingEngines + 1
    whenFree s.objectLock { s.setPc t (if sleeping = n then .sleepUsing else .leave false) with
      objectLock := some t, sleepingProcessingEngines := sleeping }
  | .sleepUsing =>
    whenFree s.usingWokenUp { s.setPc t .sleepYield with usingWokenUp := some t, wokenUp := false }
  | .sleepYield => some { s.setPc t .sleepAgain with objectLock := none }
  | .sleepAgain =>
    whenFree s.objectLock { s.setPc t (.sleepDecided !s.wokenUp) with objectLock := some t }
  | .sleepDecided finished => some { s.setPc t (.leave finished) with usingWokenUp := none }
  | .leave finished =>
    some { s.setPc t (if finished then .signalLock else .idle) with objectLock := none }
  | .wakeEnter =>
    whenFree s.objectLock { s.setPc t (.leave false) with
      objectLock := some t, sleepingProcessingEngines := s.sleepingProcessingEngines - 1
      wokenUp := true }
  | .signalLock => whenFree s.batchSleep { s.setPc t .signalSend with batchSleep := some t }
  | .signalSend =>
    some { s with
      pc := Function.update (fun u => (s.pc u).signalRecv) t .signalUnlock, sent := true }
  | .signalUnlock => some { s.setPc t .idle with batchSleep := none }
  | .startLock => whenFree s.batchSleep { s.setPc t .startWait with batchSleep := some t }
  | .startWait => some { s.setPc t (.waiting false) with batchSleep := none }
  | .waiting _ => whenFree s.batchSleep { s.setPc t .startUnlock with batchSleep := some t }
  | .startUnlock => some { s.setPc t .started with batchSleep := none }
  | .idle | .started => none

def step (n : Nat) (s : State Tid) : Label Tid → Option (State Tid)
  | .sleeping t => if s.pc t = .idle then some (s.setPc t .sleepEnter) else none
  | .wakeup t => if s.pc t = .idle then some (s.setPc t .wakeEnter) else none
  | .start t =>
    if s.pc t = .idle ∧ s.main.isNone then some { s.setPc t .startLock with main := some t }
    else none
  | .stop t => if s.pc t = .idle then some (s.setPc t .signalLock) else none
  | .go t => go n s t

def initial : State Tid :=
  { pc := fun _ => .idle, objectLock := none, usingWokenUp := none, batchSleep := none
    sleepingProcessingEngines := 0, wokenUp := false, main := none, sent := false }

-- ---------------------------------------------------------------------------
-- What a step can do
-- ---------------------------------------------------------------------------

/-- The steps, with what they need and what they change. -/
inductive Moves (n : Nat) (s : State Tid) (t : Tid) : State Tid → Prop
  | called {pc : Pc} (hPc : s.pc t = .idle)
      (hCall : pc = .sleepEnter ∨ pc = .wakeEnter ∨ pc = .signalLock) : Moves n s t (s.setPc t pc)
  | started (hPc : s.pc t = .idle) (hFirst : s.main = none) :
      Moves n s t { s.setPc t .startLock with main := some t }
  | complete (hPc : s.pc t = .sleepEnter) (hFree : s.objectLock = none)
      (hAll : s.sleepingProcessingEngines + 1 = n) :
      Moves n s t { s.setPc t .sleepUsing with
        objectLock := some t, sleepingProcessingEngines := s.sleepingProcessingEngines + 1 }
  | counted {k : Int} {woken : Bool} (hPc : s.pc t = .sleepEnter ∨ s.pc t = .wakeEnter)
      (hFree : s.objectLock = none) :
      Moves n s t { s.setPc t (.leave false) with
        objectLock := some t, sleepingProcessingEngines := k, wokenUp := woken }
  | tookUsing (hPc : s.pc t = .sleepUsing) (hFree : s.usingWokenUp = none) :
      Moves n s t { s.setPc t .sleepYield with usingWokenUp := some t, wokenUp := false }
  | yielded (hPc : s.pc t = .sleepYield) :
      Moves n s t { s.setPc t .sleepAgain with objectLock := none }
  | decided (hPc : s.pc t = .sleepAgain) (hFree : s.objectLock = none) :
      Moves n s t { s.setPc t (.sleepDecided !s.wokenUp) with objectLock := some t }
  | gaveUsing {finished : Bool} (hPc : s.pc t = .sleepDecided finished) :
      Moves n s t { s.setPc t (.leave finished) with usingWokenUp := none }
  | left {finished : Bool} (hPc : s.pc t = .leave finished) :
      Moves n s t { s.setPc t (if finished then .signalLock else .idle) with objectLock := none }
  | signalled (hPc : s.pc t = .signalSend) :
      Moves n s t { s with
        pc := Function.update (fun u => (s.pc u).signalRecv) t .signalUnlock, sent := true }
  | batch {pc : Pc} {lock : Option Tid}
      (hPc : (s.pc t = .signalLock ∧ pc = .signalSend) ∨ (s.pc t = .signalUnlock ∧ pc = .idle) ∨
        (s.pc t = .startLock ∧ pc = .startWait) ∨ (s.pc t = .startWait ∧ pc = .waiting false) ∨
        ((∃ signalled, s.pc t = .waiting signalled) ∧ pc = .startUnlock) ∨
        (s.pc t = .startUnlock ∧ pc = .started)) :
      Moves n s t { s.setPc t pc with batchSleep := lock }

omit [DecidableEq Tid] in
theorem whenFree_eq_some {lock : Option Tid} {s s' : State Tid} (h : whenFree lock s = some s') :
    lock = none ∧ s = s' := by
  unfold whenFree at h
  split at h
  · exact ⟨Option.isNone_iff_eq_none.mp ‹_›, Option.some.inj h⟩
  · cases h

theorem moves_of_go {n : Nat} {s s' : State Tid} {t : Tid} (h : go n s t = some s') :
    Moves n s t s' := by
  cases hPc : s.pc t with
  | idle => simp [go, hPc] at h
  | started => simp [go, hPc] at h
  | sleepEnter =>
    simp only [go, hPc] at h
    obtain ⟨hFree, rfl⟩ := whenFree_eq_some h
    split
    · exact .complete hPc hFree ‹_›
    · exact .counted (Or.inl hPc) hFree
  | sleepUsing =>
    simp only [go, hPc] at h
    obtain ⟨hFree, rfl⟩ := whenFree_eq_some h
    exact .tookUsing hPc hFree
  | sleepYield =>
    simp only [go, hPc, Option.some.injEq] at h
    exact h ▸ .yielded hPc
  | sleepAgain =>
    simp only [go, hPc] at h
    obtain ⟨hFree, rfl⟩ := whenFree_eq_some h
    exact .decided hPc hFree
  | sleepDecided finished =>
    simp only [go, hPc, Option.some.injEq] at h
    exact h ▸ .gaveUsing hPc
  | leave finished =>
    simp only [go, hPc, Option.some.injEq] at h
    exact h ▸ .left hPc
  | wakeEnter =>
    simp only [go, hPc] at h
    obtain ⟨hFree, rfl⟩ := whenFree_eq_some h
    exact .counted (Or.inr hPc) hFree
  | signalSend =>
    simp only [go, hPc, Option.some.injEq] at h
    exact h ▸ .signalled hPc
  -- the mutex of `batchSleep`
  | signalLock =>
    simp only [go, hPc] at h
    obtain ⟨-, rfl⟩ := whenFree_eq_some h
    exact .batch (Or.inl ⟨hPc, rfl⟩)
  | signalUnlock =>
    simp only [go, hPc, Option.some.injEq] at h
    exact h ▸ .batch (Or.inr (Or.inl ⟨hPc, rfl⟩))
  | startLock =>
    simp only [go, hPc] at h
    obtain ⟨-, rfl⟩ := whenFree_eq_some h
    exact .batch (Or.inr (Or.inr (Or.inl ⟨hPc, rfl⟩)))
  | startWait =>
    simp only [go, hPc, Option.some.injEq] at h
    exact h ▸ .batch (Or.inr (Or.inr (Or.inr (Or.inl ⟨hPc, rfl⟩))))
  | waiting signalled =>
    simp only [go, hPc] at h
    obtain ⟨-, rfl⟩ := whenFree_eq_some h
    exact .batch (Or.inr (Or.inr (Or.inr (Or.inr (Or.inl ⟨⟨signalled, hPc⟩, rfl⟩)))))
  | startUnlock =>
    simp only [go, hPc, Option.some.injEq] at h
    exact h ▸ .batch (Or.inr (Or.inr (Or.inr (Or.inr (Or.inr ⟨hPc, rfl⟩)))))

/-- The thread that takes the step. -/
def Label.thread : Label Tid → Tid
  | .sleeping t | .wakeup t | .start t | .stop t | .go t => t

/-- Each step is a move of the thread that takes it. -/
theorem moves_of_step {n : Nat} {s s' : State Tid} {a : Label Tid} (h : step n s a = some s') :
    Moves n s a.thread s' := by
  cases a with
  | sleeping t =>
    simp only [step] at h
    split at h
    · exact Option.some.inj h ▸ .called ‹_› (Or.inl rfl)
    · cases h
  | wakeup t =>
    simp only [step] at h
    split at h
    · exact Option.some.inj h ▸ .called ‹_› (Or.inr (Or.inl rfl))
    · cases h
  | start t =>
    simp only [step] at h
    split at h
    · rename_i hGuard
      exact Option.some.inj h ▸ .started hGuard.1 (Option.isNone_iff_eq_none.mp hGuard.2)
    · cases h
  | stop t =>
    simp only [step] at h
    split at h
    · exact Option.some.inj h ▸ .called ‹_› (Or.inr (Or.inr rfl))
    · cases h
  | go t => exact moves_of_go h

-- ---------------------------------------------------------------------------
-- Sleep detection
-- ---------------------------------------------------------------------------

namespace Pc

/-- The thread has the object lock, `usingWokenUp`. -/
def holdsObject : Pc → Bool
  | sleepUsing | sleepYield | sleepDecided _ | leave _ => true
  | _ => false

/-- The thread has `usingWokenUp`. -/
def holdsUsing : Pc → Bool
  | sleepYield | sleepAgain | sleepDecided _ => true
  | _ => false

@[simp] theorem holdsObject_signalRecv (pc : Pc) : pc.signalRecv.holdsObject = pc.holdsObject := by
  cases pc <;> rfl

@[simp] theorem holdsUsing_signalRecv (pc : Pc) : pc.signalRecv.holdsUsing = pc.holdsUsing := by
  cases pc <;> rfl

theorem signalRecv_eq_sleepUsing {pc : Pc} : pc.signalRecv = sleepUsing ↔ pc = sleepUsing := by
  cases pc <;> simp [signalRecv]

end Pc

/-- **The condition of the sleep detection.** A call of `ProcessingEngineSleeping` that makes
the count complete finds `usingWokenUp` free: no other call is between its completion of the
count and its decision. -/
def UsingFree (n : Nat) (s : State Tid) (a : Label Tid) : Prop :=
  s.pc a.thread = .sleepEnter → s.sleepingProcessingEngines + 1 = n → s.usingWokenUp = none

instance decidableUsingFree (n : Nat) (s : State Tid) (a : Label Tid) :
    Decidable (UsingFree n s a) :=
  inferInstanceAs (Decidable (_ = _ → _ = _ → _ = _))

/-- The locks are where the program counters say, and a thread that wants `usingWokenUp` can
have it. -/
structure Held (s : State Tid) : Prop where
  object : Owns (fun t => (s.pc t).holdsObject) s.objectLock
  wokenUp : Owns (fun t => (s.pc t).holdsUsing) s.usingWokenUp
  free : ∀ t, s.pc t = .sleepUsing → s.usingWokenUp = none

/-- The other threads stay where they are. -/
theorem setPc_other {s : State Tid} {t u : Tid} (pc : Pc) (hu : u ≠ t) :
    (s.setPc t pc).pc u = s.pc u :=
  Function.update_of_ne hu _ _

theorem setPc_off {α : Type} (f : Pc → α) (s : State Tid) (t : Tid) (pc : Pc) :
    ∀ u, u ≠ t → f ((s.setPc t pc).pc u) = f (s.pc u) := by
  intro u hu
  rw [setPc_other pc hu]

theorem setPc_self (s : State Tid) (t : Tid) (pc : Pc) : (s.setPc t pc).pc t = pc :=
  Function.update_self ..

/-- A step that leaves a lock alone leaves its holder alone. -/
theorem setPc_same {α : Type} (f : Pc → α) {s : State Tid} {t : Tid} {pc : Pc}
    (h : f pc = f (s.pc t)) : ∀ u, f ((s.setPc t pc).pc u) = f (s.pc u) := by
  intro u
  by_cases hu : u = t
  · subst hu
    rw [setPc_self, h]
  · exact setPc_off f s t pc u hu

/-- A thread that goes anywhere but in front of `usingWokenUp.Lock()`. -/
theorem Held.free_setPc {s : State Tid} (h : Held s) {t : Tid} {pc : Pc} (hPc : pc ≠ .sleepUsing) :
    ∀ u, (s.setPc t pc).pc u = .sleepUsing → s.usingWokenUp = none := by
  intro u hu
  by_cases hEq : u = t
  · subst hEq
    rw [setPc_self] at hu
    exact absurd hu hPc
  · rw [setPc_other pc hEq] at hu
    exact h.free u hu

/-- A step that leaves `usingWokenUp` alone: what is left to show is about the object lock. -/
theorem Held.of_object {s s' : State Tid} {t : Tid} {pc : Pc} (h : Held s)
    (hPc : s'.pc = (s.setPc t pc).pc) (hSame : s'.usingWokenUp = s.usingWokenUp)
    (hUsing : pc.holdsUsing = (s.pc t).holdsUsing) (hNe : pc ≠ .sleepUsing)
    (hObject : Owns (fun u => ((s.setPc t pc).pc u).holdsObject) s'.objectLock) : Held s' := by
  refine ⟨?_, ?_, ?_⟩
  · rw [hPc]
    exact hObject
  · rw [hPc, hSame]
    exact h.wokenUp.keep (setPc_same Pc.holdsUsing hUsing)
  · rw [hPc, hSame]
    exact h.free_setPc hNe

/-- Who finds the object lock free and takes it owns it, -/
theorem Held.takes_object {s : State Tid} {t : Tid} {pc : Pc} (h : Held s)
    (hFree : s.objectLock = none) (hHolds : pc.holdsObject = true) :
    Owns (fun u => ((s.setPc t pc).pc u).holdsObject) (some t) := by
  have hObject := h.object
  rw [hFree] at hObject
  refine hObject.acquire (setPc_off Pc.holdsObject s t pc) ?_
  rw [setPc_self]
  exact hHolds

/-- and nobody owns it when its holder has left. -/
theorem Held.gives_object {s : State Tid} {t : Tid} {pc : Pc} (h : Held s)
    (hHeld : (s.pc t).holdsObject = true) (hHolds : pc.holdsObject = false) :
    Owns (fun u => ((s.setPc t pc).pc u).holdsObject) none := by
  refine h.object.release hHeld (setPc_off Pc.holdsObject s t pc) ?_
  rw [setPc_self]
  exact hHolds

/-- The condition is needed where the count becomes complete, and nowhere else. -/
theorem held_step {n : Nat} {s s' : State Tid} {a : Label Tid} (h : Held s)
    (hOk : UsingFree n s a) (hStep : step n s a = some s') : Held s' := by
  generalize hThread : a.thread = t at *
  have hMoves : Moves n s t s' := hThread ▸ moves_of_step hStep
  cases hMoves with
  | called hPc hCall =>
    have hPlain : ∀ pc : Pc, pc = .sleepEnter ∨ pc = .wakeEnter ∨ pc = .signalLock →
        pc.holdsObject = false ∧ pc.holdsUsing = false ∧ pc ≠ .sleepUsing := by
      rintro pc (rfl | rfl | rfl) <;> exact ⟨rfl, rfl, Pc.noConfusion⟩
    obtain ⟨hObject, hUsing, hNe⟩ := hPlain _ hCall
    exact h.of_object rfl rfl (by rw [hPc]; exact hUsing) hNe
      (h.object.keep (setPc_same Pc.holdsObject (by rw [hPc]; exact hObject)))
  | started hPc hFirst =>
    exact h.of_object rfl rfl (by rw [hPc]; rfl) Pc.noConfusion
      (h.object.keep (setPc_same Pc.holdsObject (by rw [hPc]; rfl)))
  | complete hPc hFree hAll =>
    refine ⟨h.takes_object hFree rfl,
      h.wokenUp.keep (setPc_same Pc.holdsUsing (by rw [hPc]; rfl)), fun _ _ => ?_⟩
    rw [UsingFree, hThread] at hOk
    exact hOk hPc hAll
  | counted hPc hFree =>
    refine h.of_object rfl rfl ?_ Pc.noConfusion (h.takes_object hFree rfl)
    rcases hPc with hPc | hPc <;> rw [hPc] <;> rfl
  | tookUsing hPc hFree =>
    have hUsing := h.wokenUp
    rw [hFree] at hUsing
    refine ⟨h.object.keep (setPc_same Pc.holdsObject (by rw [hPc]; rfl)),
      hUsing.acquire (setPc_off Pc.holdsUsing s t _) (by rw [setPc_self]; rfl), fun u hu => ?_⟩
    -- another thread in front of `usingWokenUp.Lock()` would hold the object lock as well
    have hOther : (s.setPc t .sleepYield).pc u = .sleepUsing := hu
    by_cases hEq : u = t
    · subst hEq
      rw [setPc_self] at hOther
      cases hOther
    · rw [setPc_other _ hEq] at hOther
      exact absurd (h.object.unique (by rw [hOther]; rfl) (by rw [hPc]; rfl)) hEq
  | yielded hPc =>
    exact h.of_object rfl rfl (by rw [hPc]; rfl) Pc.noConfusion
      (h.gives_object (by rw [hPc]; rfl) rfl)
  | decided hPc hFree =>
    exact h.of_object rfl rfl (by rw [hPc]; rfl) Pc.noConfusion (h.takes_object hFree rfl)
  | gaveUsing hPc =>
    exact ⟨h.object.keep (setPc_same Pc.holdsObject (by rw [hPc]; rfl)),
      h.wokenUp.release (t := t) (by rw [hPc]; rfl) (setPc_off Pc.holdsUsing s t _)
        (by rw [setPc_self]; rfl), fun _ _ => rfl⟩
  | @left finished hPc =>
    have hPlain : ∀ b : Bool, (if b then Pc.signalLock else Pc.idle).holdsObject = false ∧
        (if b then Pc.signalLock else Pc.idle).holdsUsing = false ∧
        (if b then Pc.signalLock else Pc.idle) ≠ .sleepUsing := by decide
    obtain ⟨hObject, hUsing, hNe⟩ := hPlain finished
    exact h.of_object rfl rfl (by rw [hPc]; exact hUsing) hNe
      (h.gives_object (by rw [hPc]; rfl) hObject)
  | signalled hPc =>
    have hSelf : ∀ {α : Type} (f : Pc → α), (∀ pc : Pc, f pc.signalRecv = f pc) →
        f .signalUnlock = f .signalSend → ∀ u,
        f (Function.update (fun u => (s.pc u).signalRecv) t .signalUnlock u) = f (s.pc u) := by
      intro α f hf hSame u
      by_cases hu : u = t
      · subst hu
        rw [Function.update_self, hPc, hSame]
      · rw [Function.update_of_ne hu, hf]
    refine ⟨h.object.keep (hSelf Pc.holdsObject Pc.holdsObject_signalRecv rfl),
      h.wokenUp.keep (hSelf Pc.holdsUsing Pc.holdsUsing_signalRecv rfl), fun u hu => ?_⟩
    have hSame := hSelf (fun pc => pc = .sleepUsing)
      (fun pc => propext Pc.signalRecv_eq_sleepUsing) (by simp) u
    exact h.free u (hSame.mp hu)
  | batch hPc =>
    have hPlain : (s.pc t).holdsObject = false ∧ (s.pc t).holdsUsing = false := by
      rcases hPc with ⟨hPc, -⟩ | ⟨hPc, -⟩ | ⟨hPc, -⟩ | ⟨hPc, -⟩ | ⟨⟨_, hPc⟩, -⟩ | ⟨hPc, -⟩ <;>
        rw [hPc] <;> exact ⟨rfl, rfl⟩
    have hNext : ∀ {pc : Pc}, (s.pc t = .signalLock ∧ pc = .signalSend) ∨
        (s.pc t = .signalUnlock ∧ pc = .idle) ∨ (s.pc t = .startLock ∧ pc = .startWait) ∨
        (s.pc t = .startWait ∧ pc = .waiting false) ∨
        ((∃ signalled, s.pc t = .waiting signalled) ∧ pc = .startUnlock) ∨
        (s.pc t = .startUnlock ∧ pc = .started) →
        pc.holdsObject = false ∧ pc.holdsUsing = false ∧ pc ≠ .sleepUsing := by
      rintro pc (⟨-, rfl⟩ | ⟨-, rfl⟩ | ⟨-, rfl⟩ | ⟨-, rfl⟩ | ⟨-, rfl⟩ | ⟨-, rfl⟩) <;>
        exact ⟨rfl, rfl, Pc.noConfusion⟩
    obtain ⟨hObject, hUsing, hNe⟩ := hNext hPc
    exact h.of_object rfl rfl (hUsing.trans hPlain.2.symm) hNe
      (h.object.keep (setPc_same Pc.holdsObject (hObject.trans hPlain.1.symm)))

omit [DecidableEq Tid] in
theorem held_initial : Held (initial : State Tid) := by
  refine ⟨fun t => ?_, fun t => ?_, fun t hPc => rfl⟩
  · simp [initial, Pc.holdsObject]
  · simp [initial, Pc.holdsUsing]

/-- One thread has the object lock and wants `usingWokenUp`, another one has that and wants the
object lock. -/
def Deadlocked (s : State Tid) : Prop :=
  ∃ t u, s.objectLock = some t ∧ s.pc t = .sleepUsing ∧
    s.usingWokenUp = some u ∧ s.pc u = .sleepAgain

/-- **The sleep detection does not deadlock**, in any run in which each call that completes the
count finds `usingWokenUp` free. -/
theorem sleeping_never_deadlocks (n : Nat) (as : List (Label Tid)) {s : State Tid}
    (hRun : run (step n) initial as = some s)
    (hOk : AllOk (step n) (UsingFree n) initial as) : ¬ Deadlocked s := by
  have hHeld : Held s := run_invariant_of_ok Held
    (fun _ _ _ h hOk hStep => held_step h hOk hStep) hOk hRun held_initial
  rintro ⟨t, u, -, hWants, hUsing, -⟩
  rw [hHeld.free t hWants] at hUsing
  cases hUsing

/-- Two calls one after the other. -/
def sleepTwice : List (Label Bool) :=
  [.sleeping true, .go true, .go true, .go true, .go true, .go true, .go true, .wakeup false,
    .go false, .go false, .sleeping false, .go false]

/-- The first call has decided before the second one completes the count again. -/
theorem sleeping_never_deadlocks_sleepTwice :
    ∃ s, run (step 1) initial sleepTwice = some s ∧ s.pc false = .sleepUsing ∧ ¬ Deadlocked s :=
  ⟨_, rfl, rfl, sleeping_never_deadlocks 1 sleepTwice rfl (by decide)⟩

/-- An engine falls asleep, wakes up while the first call yields, and falls asleep again: the
second call waits for `usingWokenUp` with the object lock, the first one for the object lock
with `usingWokenUp`. -/
theorem sleep_wake_sleep_deadlocks :
    ∃ s, run (step 1) initial
        [.sleeping true, .go true, .go true, .go true, .wakeup false, .go false, .go false,
          .sleeping false, .go false] = some s ∧ Deadlocked s :=
  ⟨_, rfl, false, true, rfl, rfl, rfl, rfl⟩

/-- **Under the condition nobody waits in vain**: the holder of the object lock can go on, and
the holder of `usingWokenUp` can, unless it waits for the holder of the object lock. -/
theorem Held.progress {s : State Tid} (h : Held s) (n : Nat) :
    (∀ t, s.objectLock = some t → (go n s t).isSome) ∧
    ∀ u, s.usingWokenUp = some u →
      (go n s u).isSome ∨ ∃ t, s.objectLock = some t ∧ (go n s t).isSome := by
  have hObject : ∀ t, s.objectLock = some t → (go n s t).isSome := by
    intro t ht
    have hHolds := (h.object t).mpr ht
    cases hPc : s.pc t with
    | sleepUsing => simp [go, hPc, whenFree, h.free t hPc]
    | sleepYield => simp [go, hPc]
    | sleepDecided finished => simp [go, hPc]
    | leave finished => simp [go, hPc]
    | _ => simp [hPc, Pc.holdsObject] at hHolds
  refine ⟨hObject, fun u hu => ?_⟩
  have hHolds := (h.wokenUp u).mpr hu
  cases hPc : s.pc u with
  | sleepYield => exact Or.inl (by simp [go, hPc])
  | sleepDecided finished => exact Or.inl (by simp [go, hPc])
  | sleepAgain =>
    cases hLock : s.objectLock with
    | none => exact Or.inl (by simp [go, hPc, whenFree, hLock])
    | some t => exact Or.inr ⟨t, rfl, hObject t hLock⟩
  | _ => simp [hPc, Pc.holdsUsing] at hHolds

-- ---------------------------------------------------------------------------
-- The finish signal
-- ---------------------------------------------------------------------------

namespace Pc

/-- In `Start`. -/
def inStart : Pc → Bool
  | startLock | startWait | waiting _ | startUnlock | started => true
  | _ => false

/-- In `WaitRecv` or past it. -/
def pastWait : Pc → Bool
  | waiting _ | startUnlock | started => true
  | _ => false

/-- Signalled or past the wait. -/
def heard : Pc → Bool
  | waiting true | startUnlock | started => true
  | _ => false

@[simp] theorem inStart_signalRecv (pc : Pc) : pc.signalRecv.inStart = pc.inStart := by
  cases pc <;> rfl

theorem heard_signalRecv {pc : Pc} (h : pc.pastWait = true) : pc.signalRecv.heard = true := by
  cases pc <;> first | rfl | cases h

end Pc

/-- **The condition of the finish signal.** When it is sent, `Start` is blocked in `WaitRecv` or
has come out of it. -/
def StartWaits (s : State Tid) (a : Label Tid) : Prop :=
  s.pc a.thread = .signalSend → s.main.any (fun m => (s.pc m).pastWait) = true

instance decidableStartWaits (s : State Tid) (a : Label Tid) : Decidable (StartWaits s a) :=
  inferInstanceAs (Decidable (_ = _ → _ = _))

/-- Only one thread is in `Start`, and it has heard what was sent. -/
structure Announced (s : State Tid) : Prop where
  start : ∀ t, (s.pc t).inStart = true → s.main = some t
  heard : s.sent = true → ∃ m, s.main = some m ∧ (s.pc m).heard = true

/-- A thread outside `Start` moves on outside it. -/
theorem Announced.of_outside {s : State Tid} (h : Announced s) {t : Tid} {pc : Pc} {s' : State Tid}
    (hPc : s'.pc = (s.setPc t pc).pc) (hMain : s'.main = s.main) (hSent : s'.sent = s.sent)
    (hOld : (s.pc t).inStart = false) (hNew : pc.inStart = false) : Announced s' := by
  constructor
  · intro u hu
    rw [hMain]
    rw [hPc] at hu
    by_cases hEq : u = t
    · subst hEq
      rw [setPc_self, hNew] at hu
      cases hu
    · rw [setPc_other pc hEq] at hu
      exact h.start u hu
  · intro hs
    obtain ⟨m, hm, hHeard⟩ := h.heard (hSent ▸ hs)
    refine ⟨m, hMain.trans hm, ?_⟩
    have hNe : m ≠ t := by
      rintro rfl
      cases hAt : s.pc m <;> simp_all [Pc.inStart, Pc.heard]
    rw [hPc, setPc_other pc hNe]
    exact hHeard

/-- `Start` moves on: it still is the only one, and forgets nothing. -/
theorem Announced.of_start {s : State Tid} (h : Announced s) {t : Tid} {pc : Pc} {s' : State Tid}
    (hPc : s'.pc = (s.setPc t pc).pc) (hMain : s'.main = s.main) (hSent : s'.sent = s.sent)
    (hOld : (s.pc t).inStart = true) (hHeard : (s.pc t).heard = true → pc.heard = true) :
    Announced s' := by
  have hSelf := h.start t hOld
  constructor
  · intro u hu
    rw [hMain]
    rw [hPc] at hu
    by_cases hEq : u = t
    · subst hEq
      exact hSelf
    · rw [setPc_other pc hEq] at hu
      exact h.start u hu
  · intro hs
    obtain ⟨m, hm, hHas⟩ := h.heard (hSent ▸ hs)
    obtain rfl : t = m := Option.some.inj (hSelf.symm.trans hm)
    refine ⟨t, hMain.trans hm, ?_⟩
    rw [hPc, setPc_self]
    exact hHeard hHas

/-- A thread that has not been told is still in front of its wait, if `Start` waits in time. -/
theorem announced_step {n : Nat} {s s' : State Tid} {a : Label Tid} (h : Announced s)
    (hOk : StartWaits s a) (hStep : step n s a = some s') : Announced s' := by
  generalize hThread : a.thread = t at *
  have hMoves : Moves n s t s' := hThread ▸ moves_of_step hStep
  cases hMoves with
  | called hPc hCall =>
    refine h.of_outside rfl rfl rfl (by rw [hPc]; rfl) ?_
    rcases hCall with rfl | rfl | rfl <;> rfl
  | started hPc hFirst =>
    -- nothing was sent before, or there would be a thread in `Start`
    have hNone : s.sent ≠ true := by
      intro hSent
      obtain ⟨m, hm, -⟩ := h.heard hSent
      rw [hFirst] at hm
      cases hm
    constructor
    · intro u hu
      by_cases hEq : u = t
      · rw [hEq]
      · have hOld : (s.pc u).inStart = true := by
          have hSame := setPc_other (s := s) .startLock hEq
          exact hSame ▸ hu
        have hMain := h.start u hOld
        rw [hFirst] at hMain
        cases hMain
    · intro hSent
      exact absurd hSent hNone
  | complete hPc hFree hAll => exact h.of_outside rfl rfl rfl (by rw [hPc]; rfl) rfl
  | counted hPc hFree =>
    refine h.of_outside rfl rfl rfl ?_ rfl
    rcases hPc with hPc | hPc <;> rw [hPc] <;> rfl
  | tookUsing hPc hFree => exact h.of_outside rfl rfl rfl (by rw [hPc]; rfl) rfl
  | yielded hPc => exact h.of_outside rfl rfl rfl (by rw [hPc]; rfl) rfl
  | decided hPc hFree => exact h.of_outside rfl rfl rfl (by rw [hPc]; rfl) rfl
  | gaveUsing hPc => exact h.of_outside rfl rfl rfl (by rw [hPc]; rfl) rfl
  | left hPc =>
    refine h.of_outside rfl rfl rfl (by rw [hPc]; rfl) ?_
    split <;> rfl
  | signalled hPc =>
    rw [StartWaits, hThread] at hOk
    obtain ⟨m, hMain, hPast⟩ := (Option.any_eq_true _ _).mp (hOk hPc)
    constructor
    · intro u hu
      by_cases hEq : u = t
      · subst hEq
        simp only [Function.update_self] at hu
        cases hu
      · simp only [Function.update_of_ne hEq, Pc.inStart_signalRecv] at hu
        exact h.start u hu
    · intro _
      refine ⟨m, hMain, ?_⟩
      have hNe : m ≠ t := by
        rintro rfl
        rw [hPc] at hPast
        cases hPast
      simp only [Function.update_of_ne hNe]
      exact Pc.heard_signalRecv hPast
  | batch hPc =>
    rcases hPc with ⟨hPc, rfl⟩ | ⟨hPc, rfl⟩ | ⟨hPc, rfl⟩ | ⟨hPc, rfl⟩ | ⟨⟨b, hPc⟩, rfl⟩ | ⟨hPc, rfl⟩
    · exact h.of_outside rfl rfl rfl (by rw [hPc]; rfl) rfl
    · exact h.of_outside rfl rfl rfl (by rw [hPc]; rfl) rfl
    · exact h.of_start rfl rfl rfl (by rw [hPc]; rfl) (by rw [hPc]; decide)
    · exact h.of_start rfl rfl rfl (by rw [hPc]; rfl) (by rw [hPc]; decide)
    · exact h.of_start rfl rfl rfl (by rw [hPc]; rfl) fun _ => rfl
    · exact h.of_start rfl rfl rfl (by rw [hPc]; rfl) fun _ => rfl

omit [DecidableEq Tid] in
theorem announced_initial : Announced (initial : State Tid) := by
  constructor
  · intro t ht
    cases ht
  · intro hSent
    cases hSent

/-- **The finish signal is heard**, in any run in which `Start` waits for it, or has waited,
when it is sent: `Start` is never blocked without a pending signal after it. -/
theorem finish_signal_heard (n : Nat) (as : List (Label Tid)) {s : State Tid}
    (hRun : run (step n) initial as = some s)
    (hOk : AllOk (step n) StartWaits initial as) :
    ¬ (s.sent = true ∧ ∃ m, s.pc m = .waiting false) := by
  have hAnnounced : Announced s := run_invariant_of_ok Announced
    (fun _ _ _ h hOk hStep => announced_step h hOk hStep) hOk hRun announced_initial
  rintro ⟨hSent, m, hPc⟩
  obtain ⟨m', hMain, hHeard⟩ := hAnnounced.heard hSent
  have hSelf := hAnnounced.start m (by rw [hPc]; rfl)
  obtain rfl : m = m' := Option.some.inj (hSelf.symm.trans hMain)
  rw [hPc] at hHeard
  cases hHeard

/-- `Start` waits before the engine falls asleep for good. -/
def waitsFirst : List (Label Bool) :=
  [.start true, .go true, .go true, .sleeping false, .go false, .go false, .go false, .go false,
    .go false, .go false, .go false, .go false]

theorem finish_signal_heard_waitsFirst :
    ∃ s, run (step 1) initial waitsFirst = some s ∧ s.sent = true ∧ s.pc true = .waiting true ∧
      ¬ (s.sent = true ∧ ∃ m, s.pc m = .waiting false) :=
  ⟨_, rfl, rfl, rfl, finish_signal_heard 1 waitsFirst rfl (by decide)⟩

/-- The engines end their work while `Start` has started them but does not wait yet: the signal
is sent to nobody, and `Start` blocks after it. -/
theorem finish_signal_missed :
    ∃ s, run (step 1) initial
        [.start true, .sleeping false, .go false, .go false, .go false, .go false, .go false,
          .go false, .go false, .go false, .go false, .go true, .go true] = some s ∧
      s.sent = true ∧ s.pc true = .waiting false :=
  ⟨_, rfl, rfl, rfl⟩

end HectorCore.Batch.Finish
