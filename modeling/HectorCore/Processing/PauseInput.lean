import HectorCore.Lib.Run

/-!
# PauseInput — a paused input thread and Stop

`lib/processing_engine/Processor.cc`: the loop of `RunThread` in a processor with an INPUT module,
`SetPauseInput` and `Stop`, for any number of threads and of callers.

Every section under `pauseInputCond` or under the object lock is one step. `pauseInput` is tested
under the one, `running` under the other, and `Stop` clears `running` before it signals.

* `SignalSend` is a broadcast, and `WaitSend` may return without a signal.
* What the modules do between two tests is left to the labels: whether `readMax` is positive,
  whether `ApplyModules` found a resource, and the new `block`.

A wake-up is missed if a thread enters `WaitSend` behind the signal. The result is
`stop_reaches_paused_iff`.
-/

namespace HectorCore.Processing.PauseInput

open HectorCore.Lib

-- ---------------------------------------------------------------------------
-- The threads
-- ---------------------------------------------------------------------------

/-- Where `RunThread` is. -/
inductive Pc where
  /-- In front of `while (IsRunning())`. -/
  | outer (block : Bool)
  /-- In front of `pauseInputCond.Lock()`. -/
  | atPause (block : Bool)
  /-- In `pauseInputCond.WaitSend`. -/
  | waiting (signalled : Bool)
  /-- Behind the wait, in front of `IsRunning`. -/
  | woken
  /-- In front of the second `Lock()`, and of the test of `while (pauseInput)`. -/
  | retest
  /-- In `ApplyModules`. -/
  | applying (block : Bool)
  /-- Behind the inner loop: the multi modules. -/
  | multi
  | returned
  deriving DecidableEq, Repr

/-- Where a caller is in `Stop`. -/
inductive StopPc where
  | outside
  /-- With a copy of `threads`, in front of `SignalSend`. -/
  | cleared
  /-- In front of `pthread_join`. -/
  | signalled
  deriving DecidableEq, Repr

structure State (Tid Cid : Type) where
  running : Bool
  threads : Bool
  pauseInput : Bool
  worker : Tid → Pc
  caller : Cid → StopPc
  /-- `Stop` has sent its signal. -/
  signalSent : Bool

/-- How a round of the inner loop ends. -/
inductive Outcome where
  | again
  | leave
  | cancelled
  deriving DecidableEq, Repr

inductive Label (Tid Cid : Type) where
  /-- `IsRunning`; `reads` is whether `readMax` is positive. -/
  | isRunning (t : Tid) (reads : Bool)
  /-- The section of `pauseInputCond` that the thread is at. -/
  | pauseSection (t : Tid)
  | applied (t : Tid) (outcome : Outcome)
  /-- The multi modules are through, with the new `block`, or the thread is cancelled. -/
  | multiDone (t : Tid) (block : Option Bool)
  | setPauseInput (value : Bool)
  | stop (c : Cid)
  | signal (c : Cid)
  deriving DecidableEq, Repr

/-- A thread that waits is woken; the others do not notice. -/
def Pc.signal : Pc → Pc
  | .waiting _ => .waiting true
  | pc => pc

variable {Tid Cid : Type}

namespace State

/-- `SignalSend` -/
def signalSend (s : State Tid Cid) : State Tid Cid :=
  { s with worker := fun t => (s.worker t).signal }

/-- `SetPauseInput` -/
def setPauseInput (s : State Tid Cid) (value : Bool) : State Tid Cid :=
  let s' := { s with pauseInput := value }
  if s.pauseInput && !value then s'.signalSend else s'

variable [DecidableEq Tid] [DecidableEq Cid]

def setPc (s : State Tid Cid) (t : Tid) (pc : Pc) : State Tid Cid :=
  { s with worker := Function.update s.worker t pc }

/-- The test of a loop. With `readMax <= 0` nothing is read, and the pause is passed over. -/
def isRunning (s : State Tid Cid) (t : Tid) (reads : Bool) : Option (State Tid Cid) :=
  match s.worker t with
  | .outer block =>
    some (s.setPc t (if s.running then if reads then .atPause block else .multi else .returned))
  | .woken => some (s.setPc t (if s.running then .retest else .returned))
  | _ => none

/-- The section of `pauseInputCond`: a thread that may block waits while `pauseInput` is set. -/
def pauseSection (s : State Tid Cid) (t : Tid) : Option (State Tid Cid) :=
  match s.worker t with
  | .atPause block =>
    some (s.setPc t
      (if s.pauseInput then if block then .waiting false else .multi else .applying block))
  | .waiting _ => some (s.setPc t .woken)
  | .retest => some (s.setPc t (if s.pauseInput then .waiting false else .applying true))
  | _ => none

/-- What became of `ApplyModules`. -/
def applied (s : State Tid Cid) (t : Tid) (outcome : Outcome) : Option (State Tid Cid) :=
  match s.worker t with
  | .applying block =>
    some (s.setPc t (match outcome with
      | .again => .atPause block
      | .leave => .multi
      | .cancelled => .returned))
  | _ => none

/-- The MULTI part is over: the loop ends, or goes on with a new value of `block`. -/
def multiDone (s : State Tid Cid) (t : Tid) (block : Option Bool) : Option (State Tid Cid) :=
  match s.worker t with
  | .multi => some (s.setPc t (block.elim .returned .outer))
  | _ => none

/-- `Stop` up to the `ObjectUnlock`; without `threads` it returns. -/
def stop (s : State Tid Cid) (c : Cid) : Option (State Tid Cid) :=
  match s.caller c with
  | .outside =>
    some { s with
      running := false, threads := false
      caller := Function.update s.caller c (if s.threads then .cleared else .outside) }
  | _ => none

/-- The section with the `SignalSend` of `Stop`. -/
def signal (s : State Tid Cid) (c : Cid) : Option (State Tid Cid) :=
  match s.caller c with
  | .cleared =>
    some { s.signalSend with
      signalSent := true, caller := Function.update s.caller c .signalled }
  | _ => none

end State

/-- A processor that has been started. -/
def started (pauseInput : Bool) : State Tid Cid where
  running := true
  threads := true
  pauseInput := pauseInput
  worker _ := .outer true
  caller _ := .outside
  signalSent := false

variable [DecidableEq Tid] [DecidableEq Cid]

def step (s : State Tid Cid) : Label Tid Cid → Option (State Tid Cid)
  | .isRunning t reads => s.isRunning t reads
  | .pauseSection t => s.pauseSection t
  | .applied t outcome => s.applied t outcome
  | .multiDone t block => s.multiDone t block
  | .setPauseInput value => some (s.setPauseInput value)
  | .stop c => s.stop c
  | .signal c => s.signal c

-- ---------------------------------------------------------------------------
-- What Stop is for
-- ---------------------------------------------------------------------------

/-- **A missed stop**: the processor does not run, the signal of `Stop` is over, and a thread waits
for one. -/
def Missed (s : State Tid Cid) : Prop :=
  s.running = false ∧ s.signalSent = true ∧ ∃ t, s.worker t = .waiting false

/-- The thread is at a test of `pauseInput` that ends in `WaitSend` when it is set. -/
def Pc.mayWait : Pc → Bool
  | .atPause block => block
  | .retest => true
  | _ => false

/-- A test of `pauseInput` behind the signal does not find it set. -/
def InTime (s : State Tid Cid) : Label Tid Cid → Prop
  | .pauseSection t => (s.worker t).mayWait = true → s.pauseInput = true → s.signalSent = false
  | _ => True

instance (s : State Tid Cid) : DecidablePred (InTime s)
  | .pauseSection t => inferInstanceAs
      (Decidable ((s.worker t).mayWait = true → s.pauseInput = true → s.signalSent = false))
  | .isRunning .. | .applied .. | .multiDone .. | .setPauseInput _ | .stop _ | .signal _ =>
    inferInstanceAs (Decidable True)

-- ---------------------------------------------------------------------------
-- One step
-- ---------------------------------------------------------------------------

section OneStep

variable {s s' : State Tid Cid} {a : Label Tid Cid}

/-- What a step can do: a thread enters the wait, a thread goes somewhere else, or one of the others
moves. -/
inductive Move (s : State Tid Cid) : Label Tid Cid → State Tid Cid → Prop where
  | enter (t : Tid) (hMay : (s.worker t).mayWait = true) (hPause : s.pauseInput = true) :
      Move s (.pauseSection t) (s.setPc t (.waiting false))
  | thread (a : Label Tid Cid) (t : Tid) (pc : Pc) (hPc : pc ≠ .waiting false)
      (hInTime : InTime s a) : Move s a (s.setPc t pc)
  | setPauseInput (value : Bool) : Move s (.setPauseInput value) (s.setPauseInput value)
  | stop (c : Cid) (next : StopPc) : Move s (.stop c)
      { s with running := false, threads := false, caller := Function.update s.caller c next }
  | signal (c : Cid) (hCleared : s.caller c = .cleared) : Move s (.signal c)
      { s.signalSend with signalSent := true, caller := Function.update s.caller c .signalled }

/-- The section leads into the wait only where `pauseInput` is set. -/
theorem pauseSection_move {t : Tid} (h : s.pauseSection t = some s') :
    Move s (.pauseSection t) s' := by
  rw [State.pauseSection] at h
  -- a thread that is not at a test is in time, whatever it does
  have hOther : (s.worker t).mayWait = false → InTime s (.pauseSection t) :=
    fun hNot hMay => absurd (hNot.symm.trans hMay) (by decide)
  have hUnset : s.pauseInput = false → InTime s (.pauseSection t) :=
    fun hNot _ hSet => absurd (hNot.symm.trans hSet) (by decide)
  split at h
  · rename_i block hPc
    obtain rfl := Option.some.inj h
    cases hPause : s.pauseInput with
    | false => exact .thread _ _ _ (by simp) (hUnset hPause)
    | true =>
      cases block with
      | false => exact .thread _ _ _ (by simp) (hOther (by rw [hPc]; rfl))
      | true => exact .enter t (by rw [hPc]; rfl) hPause
  · rename_i signalled hPc
    obtain rfl := Option.some.inj h
    exact .thread _ _ _ (by simp) (hOther (by rw [hPc]; rfl))
  · rename_i hPc
    obtain rfl := Option.some.inj h
    cases hPause : s.pauseInput with
    | false => exact .thread _ _ _ (by simp) (hUnset hPause)
    | true => exact .enter t (by rw [hPc]; rfl) hPause
  · exact absurd h (by simp)

/-- Every step is one of the moves. -/
theorem step_move (h : step s a = some s') : Move s a s' := by
  cases a with
  | isRunning t reads =>
    rw [step, State.isRunning] at h
    split at h
    · obtain rfl := Option.some.inj h
      exact .thread _ _ _ (by split_ifs <;> simp) trivial
    · obtain rfl := Option.some.inj h
      exact .thread _ _ _ (by split_ifs <;> simp) trivial
    · exact absurd h (by simp)
  | pauseSection t => exact pauseSection_move h
  | applied t outcome =>
    rw [step, State.applied] at h
    split at h
    · obtain rfl := Option.some.inj h
      exact .thread _ _ _ (by cases outcome <;> simp) trivial
    · exact absurd h (by simp)
  | multiDone t block =>
    rw [step, State.multiDone] at h
    split at h
    · obtain rfl := Option.some.inj h
      exact .thread _ _ _ (by cases block <;> simp) trivial
    · exact absurd h (by simp)
  | setPauseInput value =>
    obtain rfl := Option.some.inj h
    exact .setPauseInput value
  | stop c =>
    rw [step, State.stop] at h
    split at h
    · obtain rfl := Option.some.inj h
      exact .stop c _
    · exact absurd h (by simp)
  | signal c =>
    rw [step, State.signal] at h
    split at h
    · rename_i hCleared
      obtain rfl := Option.some.inj h
      exact .signal c hCleared
    · exact absurd h (by simp)

/-- Whoever has called `Stop` has cleared `running`, and it stays so. -/
structure Cleared (s : State Tid Cid) : Prop where
  callers : ∀ c, s.caller c ≠ .outside → s.running = false
  sent : s.signalSent = true → s.running = false

omit [DecidableEq Tid] [DecidableEq Cid] in
theorem cleared_started (pauseInput : Bool) : Cleared (started pauseInput : State Tid Cid) where
  callers _ h := absurd rfl h
  sent h := absurd h (by simp [started])

/-- What one step preserves. -/
theorem cleared_step (h : Cleared s) (hStep : step s a = some s') : Cleared s' := by
  cases step_move hStep with
  | enter t => exact ⟨h.callers, h.sent⟩
  | thread _ t pc => exact ⟨h.callers, h.sent⟩
  | setPauseInput value =>
    rw [State.setPauseInput]
    split
    · exact ⟨h.callers, h.sent⟩
    · exact ⟨h.callers, h.sent⟩
  | stop c next => exact ⟨fun _ _ => rfl, fun _ => rfl⟩
  | signal c hCleared =>
    have hRunning : s.running = false := h.callers c (by rw [hCleared]; simp)
    exact ⟨fun _ _ => hRunning, fun _ => hRunning⟩

theorem signal_ne_waiting (pc : Pc) : pc.signal ≠ .waiting false := by
  cases pc <;> simp [Pc.signal]

omit [DecidableEq Cid] in
/-- A thread that goes elsewhere misses nothing. -/
theorem missed_of_setPc {t : Tid} {pc : Pc} (hPc : pc ≠ .waiting false)
    (h : Missed (s.setPc t pc)) :
    Missed s := by
  obtain ⟨hRunning, hSent, u, hWaits⟩ := h
  have hUpdate : Function.update s.worker t pc u = .waiting false := hWaits
  refine ⟨hRunning, hSent, u, ?_⟩
  by_cases hu : u = t
  · rw [hu, Function.update_self] at hUpdate
    exact absurd hUpdate hPc
  · rwa [Function.update_of_ne hu] at hUpdate

omit [DecidableEq Tid] [DecidableEq Cid] in
theorem not_missed_signalSend : ¬ Missed s.signalSend :=
  fun ⟨_, _, t, hWaits⟩ => signal_ne_waiting (s.worker t) hWaits

/-- The signal is missed by a thread that enters the wait behind it, and by no other. -/
theorem missed_step (h : Cleared s) (hMissed : ¬ Missed s) (hStep : step s a = some s') :
    ¬ Missed s' ↔ InTime s a := by
  cases step_move hStep with
  | enter t hMay hPause =>
    constructor
    · intro hNot _ _
      by_contra hSent
      rw [Bool.not_eq_false] at hSent
      exact hNot ⟨h.sent hSent, hSent, t, Function.update_self ..⟩
    · rintro hInTime ⟨-, hSent, -⟩
      exact absurd ((hInTime hMay hPause).symm.trans hSent) (by decide)
  | thread _ t pc hPc hInTime =>
    exact iff_of_true (fun hNext => hMissed (missed_of_setPc hPc hNext)) hInTime
  | setPauseInput value =>
    refine iff_of_true ?_ trivial
    rw [State.setPauseInput]
    split
    · exact not_missed_signalSend
    · exact hMissed
  | stop c next =>
    exact iff_of_true (fun ⟨_, hSent, hWaits⟩ => hMissed ⟨h.sent hSent, hSent, hWaits⟩) trivial
  | signal c hCleared =>
    exact iff_of_true (fun ⟨_, _, t, hWaits⟩ => signal_ne_waiting (s.worker t) hWaits) trivial

end OneStep

/--
**When Stop reaches every paused thread.** Take any threads and any callers of `Stop`, any value of
`pauseInput` at the start, and any interleaving. No stop is missed in any state of the run, if and
only if no thread finds `pauseInput` set behind the signal of `Stop` at a test that leads into
`WaitSend`.
-/
theorem stop_reaches_paused_iff (pauseInput : Bool) {as : List (Label Tid Cid)} {s : State Tid Cid}
    (hRun : run step (started pauseInput) as = some s) :
    Always step (fun s => ¬ Missed s) (started pauseInput) as ↔
      AllOk step InTime (started pauseInput) as :=
  always_iff_allOk Cleared (fun _ _ _ => cleared_step) (fun _ _ _ => missed_step) hRun
    (cleared_started pauseInput) fun ⟨hRunning, _⟩ => absurd hRunning (by simp [started])

/-- `Stop` has cleared `running` when the thread enters the wait, its signal comes behind that. -/
theorem stop_reaches_paused_once :
    (∃ s : State Unit Unit, run step (started true)
        [.isRunning () true, .stop (), .pauseSection (), .signal (), .pauseSection (),
          .isRunning () true] = some s ∧ s.worker () = .returned) ∧
      Always step (fun s => ¬ Missed s) (started true : State Unit Unit)
        [.isRunning () true, .stop (), .pauseSection (), .signal (), .pauseSection (),
          .isRunning () true] :=
  ⟨⟨_, rfl, rfl⟩, (stop_reaches_paused_iff true rfl).mpr (by decide)⟩

/-- `Stop` comes between `IsRunning` and the wait. -/
theorem stop_misses_paused :
    ∃ s : State Unit Unit,
      run step (started true) [.isRunning () true, .stop (), .signal (), .pauseSection ()] =
        some s ∧
        Missed s :=
  ⟨_, rfl, rfl, rfl, (), rfl⟩

end HectorCore.Processing.PauseInput
