import HectorCore.Load.Reopen

/-!
# Waiting — a module that waits for another file

`lib/processing_engine/module/Load.cc`: `ProcessInputSync(true)` with `wait`, `StopSync`, and
`ReopenFile` with its caller `SetFilename`, for any number of callers.

Every section under the object lock or under `fileCond` is one step. The module gives the object
lock away before it takes `fileCond`, and asks for nothing under `fileCond`: neither for `cancel`
nor for the stream.

* `SignalSend` is a broadcast, and `WaitSend` may return without a signal.
* The module behind the wait goes on in its loop as in a new call: `items` and `maxItems` are as
  they were, and there is nothing to skip.
* `ReopenFile` is called with the object lock. Where `fileCond` was lost, it keeps both for ever.
* `SetFilename` does not get to `ReopenFile` (`Load/Reopen.lean`), which is a step of its own here.

The result is `waiting_module_notices_iff`.
-/

namespace HectorCore.Load.Waiting

open HectorCore.Lib
open HectorCore.Stream (Protobuf)

variable {M Cid : Type}

-- ---------------------------------------------------------------------------
-- The threads
-- ---------------------------------------------------------------------------

/-- Where the thread of the module is. -/
inductive Pc where
  | outside
  /-- Behind the `ObjectUnlock`, in front of `fileCond.Lock()`. -/
  | unlocked
  /-- In `fileCond.WaitSend`. -/
  | waiting (signalled : Bool)
  /-- Behind the wait, in front of the `ObjectLockWrite`. -/
  | woken
  deriving DecidableEq, Repr

structure State (Cid : Type) where
  file : Module
  /-- The object lock is kept by a thread that waits for `fileCond`. -/
  objectHeld : Bool
  cancel : Bool
  pc : Pc
  /-- Who is in `StopSync`, between `cancel = true` and the signal. -/
  stopping : Cid → Bool
  /-- `StopSync` has sent its signal. -/
  signalSent : Bool
  /-- The stream was opened after the last read that failed. -/
  fresh : Bool

inductive Label (Cid : Type) where
  | processInput (id : Int32)
  /-- `fileCond.Lock()` and the beginning of `WaitSend`. -/
  | wait
  | wake
  /-- The `ObjectLockWrite` behind the wait, and the test of `cancel`. -/
  | relock (id : Int32)
  | stop (c : Cid)
  | signal (c : Cid)
  | reopenFile (a : Answers)
  | setFilename (value : List UInt8) (a : Answers)

def Pc.signal : Pc → Pc
  | .waiting _ => .waiting true
  | pc => pc

namespace State

/-- `SignalSend` -/
def signalSend (s : State Cid) : State Cid := { s with pc := s.pc.signal }

/-- `ProcessInputSync` up to its end, or to the `ObjectUnlock` after a read that failed. -/
def read (pb : Protobuf M) (s : State Cid) (id : Int32) : Option (State Cid) :=
  if s.file.state.aborts then none
  else
    let (outcome, m) := s.file.state.processInputSync pb true id
    let s := { s with file := { s.file with state := m } }
    match outcome with
    | .waits => some { s with pc := .unlocked, fresh := false }
    | _ => some { s with pc := .outside }

/-- `ReopenFile` -/
def reopenFile (s : State Cid) (a : Answers) : State Cid :=
  if s.file.held then { s with objectHeld := true }
  else
    let file := s.file.reopenFile a
    if file.state.stream.isSome then { s with file, fresh := true }.signalSend
    else { s with file, fresh := false }

/-- `SetFilename` -/
def setFilename (s : State Cid) (value : List UInt8) (a : Answers) : State Cid :=
  let s := { s with file.state.filename := value }
  if s.file.state.fd ≥ 0 then s.reopenFile a else s

end State

variable [DecidableEq Cid]

/-- The sections under the object lock. -/
def objectStep (pb : Protobuf M) (s : State Cid) : Label Cid → Option (State Cid)
  | .processInput id => if s.pc = .outside then s.read pb id else none
  | .relock id =>
    if s.pc = .woken then if s.cancel then some { s with pc := .outside } else s.read pb id
    else none
  | .stop c =>
    if s.stopping c then none
    else some { s with cancel := true, stopping := Function.update s.stopping c true }
  | .reopenFile a => some (s.reopenFile a)
  | .setFilename value a => some (s.setFilename value a)
  | _ => none

/-- The sections under `fileCond`. -/
def fileStep (s : State Cid) : Label Cid → Option (State Cid)
  | .wait => if s.pc = .unlocked then some { s with pc := .waiting false } else none
  | .wake =>
    match s.pc with
    | .waiting _ => some { s with pc := .woken }
    | _ => none
  | .signal c =>
    if s.stopping c then
      some { s.signalSend with
        stopping := Function.update s.stopping c false, signalSent := true }
    else none
  | _ => none

def Label.ofFile : Label Cid → Bool
  | .wait | .wake | .signal _ => true
  | _ => false

/-- A step whose lock is kept by somebody is not enabled. -/
def step (pb : Protobuf M) (s : State Cid) (a : Label Cid) : Option (State Cid) :=
  if a.ofFile then if s.file.held then none else fileStep s a
  else if s.objectHeld then none else objectStep pb s a

/-- A module behind `Init`, and nobody in it. -/
def initialized (file : Module) : State Cid where
  file := file
  objectHeld := false
  cancel := false
  pc := .outside
  stopping _ := false
  signalSent := false
  fresh := false

-- ---------------------------------------------------------------------------
-- What the module waits for
-- ---------------------------------------------------------------------------

/-- **A missed signal**: the module waits for one, although it is cancelled and the signal of
`StopSync` is over, or there is a stream that it has not read from. -/
def Missed (s : State Cid) : Prop :=
  s.pc = .waiting false ∧ ((s.cancel = true ∧ s.signalSent = true) ∨ s.fresh = true)

/-- The wait is entered before the signal of `StopSync`, and before another stream is opened. -/
def InTime (s : State Cid) : Label Cid → Prop
  | .wait => s.signalSent = false ∧ s.fresh = false
  | _ => True

instance (s : State Cid) : DecidablePred (InTime s)
  | .wait => inferInstanceAs (Decidable (s.signalSent = false ∧ s.fresh = false))
  | .processInput _ | .wake | .relock _ | .stop _ | .signal _ | .reopenFile _ | .setFilename .. =>
    inferInstanceAs (Decidable True)

-- ---------------------------------------------------------------------------
-- One step
-- ---------------------------------------------------------------------------

section OneStep

variable {pb : Protobuf M} {s s' : State Cid} {a : Label Cid} {id : Int32} {answers : Answers}

/-- Whoever is in `StopSync` or has been there has set `cancel`, and it stays so. -/
structure Cancelled (s : State Cid) : Prop where
  stopping : ∀ c, s.stopping c = true → s.cancel = true
  sent : s.signalSent = true → s.cancel = true

/-- What the steps of the module and of `ReopenFile` leave alone. -/
structure SameStop (s s' : State Cid) : Prop where
  cancel : s'.cancel = s.cancel
  stopping : s'.stopping = s.stopping
  signalSent : s'.signalSent = s.signalSent

omit [DecidableEq Cid] in
theorem Cancelled.of_same (h : Cancelled s) (hSame : SameStop s s') : Cancelled s' where
  stopping c hc := hSame.cancel.trans (h.stopping c (congrFun hSame.stopping c ▸ hc))
  sent hs := hSame.cancel.trans (h.sent (hSame.signalSent ▸ hs))

omit [DecidableEq Cid] in
theorem signal_ne_waiting (pc : Pc) : pc.signal ≠ .waiting false := by
  cases pc <;> simp [Pc.signal]

omit [DecidableEq Cid] in
/-- The module does not wait after it has read. -/
theorem read_cases (h : s.read pb id = some s') : SameStop s s' ∧ s'.pc ≠ .waiting false := by
  rw [State.read] at h
  split at h
  · exact absurd h (by simp)
  · dsimp only at h
    split at h
    · obtain rfl := Option.some.inj h
      exact ⟨⟨rfl, rfl, rfl⟩, by simp⟩
    · obtain rfl := Option.some.inj h
      exact ⟨⟨rfl, rfl, rfl⟩, by simp⟩

omit [DecidableEq Cid] in
theorem sameStop_reopenFile (s : State Cid) : SameStop s (s.reopenFile answers) := by
  rw [State.reopenFile]
  split
  · exact ⟨rfl, rfl, rfl⟩
  · dsimp only
    split
    · exact ⟨rfl, rfl, rfl⟩
    · exact ⟨rfl, rfl, rfl⟩

omit [DecidableEq Cid] in
/-- A new stream comes with a signal, and without a stream there is less to miss. -/
theorem not_missed_reopenFile (h : ¬ Missed s) : ¬ Missed (s.reopenFile answers) := by
  rw [State.reopenFile]
  split
  · exact h
  · dsimp only
    split
    · exact fun hMissed => signal_ne_waiting s.pc hMissed.1
    · rintro ⟨hPc, hStopped | hFresh⟩
      · exact h ⟨hPc, .inl hStopped⟩
      · exact absurd hFresh (by simp)

omit [DecidableEq Cid] in
theorem setFilename_cases (value : List UInt8) :
    SameStop s (s.setFilename value answers) ∧
      (¬ Missed s → ¬ Missed (s.setFilename value answers)) := by
  rw [State.setFilename]
  dsimp only
  split
  · have hSame : SameStop { s with file.state.filename := value }
        (State.reopenFile { s with file.state.filename := value } answers) := sameStop_reopenFile _
    refine ⟨⟨hSame.cancel, hSame.stopping, hSame.signalSent⟩, fun hMissed => ?_⟩
    exact not_missed_reopenFile fun hNamed => hMissed hNamed
  · exact ⟨⟨rfl, rfl, rfl⟩, fun hMissed hNamed => hMissed hNamed⟩

/-- What a step can do: the module enters the wait, goes elsewhere, or one of the callers moves. -/
inductive Move (s : State Cid) : Label Cid → State Cid → Prop where
  | wait : Move s .wait { s with pc := .waiting false }
  | module (a : Label Cid) (s' : State Cid) (hInTime : InTime s a) (hSame : SameStop s s')
      (hPc : s'.pc ≠ .waiting false) : Move s a s'
  | file (a : Label Cid) (s' : State Cid) (hInTime : InTime s a) (hSame : SameStop s s')
      (hMissed : ¬ Missed s → ¬ Missed s') : Move s a s'
  | stop (c : Cid) : Move s (.stop c)
      { s with cancel := true, stopping := Function.update s.stopping c true }
  | signal (c : Cid) (hStopping : s.stopping c = true) : Move s (.signal c)
      { s.signalSend with stopping := Function.update s.stopping c false, signalSent := true }

theorem objectStep_move (h : objectStep pb s a = some s') : Move s a s' := by
  cases a with
  | processInput id =>
    rw [objectStep] at h
    split at h
    · exact .module _ _ trivial (read_cases h).1 (read_cases h).2
    · exact absurd h (by simp)
  | relock id =>
    rw [objectStep] at h
    split_ifs at h
    · obtain rfl := Option.some.inj h
      exact .module _ _ trivial ⟨rfl, rfl, rfl⟩ (by simp)
    · exact .module _ _ trivial (read_cases h).1 (read_cases h).2
  | stop c =>
    rw [objectStep] at h
    split_ifs at h
    obtain rfl := Option.some.inj h
    exact .stop c
  | reopenFile answers =>
    obtain rfl := Option.some.inj h
    exact .file _ _ trivial (sameStop_reopenFile s) not_missed_reopenFile
  | setFilename value answers =>
    obtain rfl := Option.some.inj h
    exact .file _ _ trivial (setFilename_cases value).1 (setFilename_cases value).2
  | wait => exact absurd h (by simp [objectStep])
  | wake => exact absurd h (by simp [objectStep])
  | signal c => exact absurd h (by simp [objectStep])

theorem fileStep_move (h : fileStep s a = some s') : Move s a s' := by
  cases a with
  | wait =>
    rw [fileStep] at h
    split_ifs at h
    obtain rfl := Option.some.inj h
    exact .wait
  | wake =>
    rw [fileStep] at h
    split at h
    · obtain rfl := Option.some.inj h
      exact .module _ _ trivial ⟨rfl, rfl, rfl⟩ (by simp)
    · exact absurd h (by simp)
  | signal c =>
    rw [fileStep] at h
    split_ifs at h with hStopping
    obtain rfl := Option.some.inj h
    exact .signal c hStopping
  | processInput id => exact absurd h (by simp [fileStep])
  | relock id => exact absurd h (by simp [fileStep])
  | stop c => exact absurd h (by simp [fileStep])
  | reopenFile answers => exact absurd h (by simp [fileStep])
  | setFilename value answers => exact absurd h (by simp [fileStep])

theorem step_move (h : step pb s a = some s') : Move s a s' := by
  rw [step] at h
  split_ifs at h
  · exact fileStep_move h
  · exact objectStep_move h

theorem cancelled_step (h : Cancelled s) (hStep : step pb s a = some s') : Cancelled s' := by
  cases step_move hStep with
  | wait => exact h.of_same ⟨rfl, rfl, rfl⟩
  | module _ _ _ hSame => exact h.of_same hSame
  | file _ _ _ hSame => exact h.of_same hSame
  | stop c => exact ⟨fun _ _ => rfl, fun _ => rfl⟩
  | signal c hStopping =>
    have hCancel : s.cancel = true := h.stopping c hStopping
    exact ⟨fun _ _ => hCancel, fun _ => hCancel⟩

theorem missed_step (h : Cancelled s) (hMissed : ¬ Missed s) (hStep : step pb s a = some s') :
    ¬ Missed s' ↔ InTime s a := by
  cases step_move hStep with
  | wait =>
    constructor
    · intro hNot
      refine ⟨?_, ?_⟩
      · by_contra hSent
        rw [Bool.not_eq_false] at hSent
        exact hNot ⟨rfl, .inl ⟨h.sent hSent, hSent⟩⟩
      · by_contra hFresh
        rw [Bool.not_eq_false] at hFresh
        exact hNot ⟨rfl, .inr hFresh⟩
    · rintro ⟨hSent, hFresh⟩ ⟨-, hStopped | hNew⟩
      · exact absurd (hSent.symm.trans hStopped.2) (by decide)
      · exact absurd (hFresh.symm.trans hNew) (by decide)
  | module _ _ hInTime _ hPc => exact iff_of_true (fun hNext => hPc hNext.1) hInTime
  | file _ _ hInTime _ hKeeps => exact iff_of_true (hKeeps hMissed) hInTime
  | stop c =>
    refine iff_of_true ?_ trivial
    rintro ⟨hPc, ⟨-, hSent⟩ | hFresh⟩
    · exact hMissed ⟨hPc, .inl ⟨h.sent hSent, hSent⟩⟩
    · exact hMissed ⟨hPc, .inr hFresh⟩
  | signal c _ => exact iff_of_true (fun hNext => signal_ne_waiting s.pc hNext.1) trivial

end OneStep

/--
**When a waiting module misses nothing.** Take any module behind `Init`, any files, any callers of
`StopSync` and of `ReopenFile`, and any interleaving. In no state of the run the module misses a
signal, if and only if it enters every wait before the signal of `StopSync` and before another
stream is opened.
-/
theorem waiting_module_notices_iff (pb : Protobuf M) (filename : List UInt8) (text wait : Bool)
    (resourceType : UInt32) (mark maxItems : Int) (first : Answers) {as : List (Label Cid)}
    {s : State Cid}
    (hRun : run (step pb)
      (initialized (Module.init filename text wait resourceType mark maxItems first)) as = some s) :
    Always (step pb) (fun s => ¬ Missed s)
        (initialized (Module.init filename text wait resourceType mark maxItems first)) as ↔
      AllOk (step pb) InTime
        (initialized (Module.init filename text wait resourceType mark maxItems first)) as := by
  refine always_iff_allOk Cancelled (fun _ _ _ => cancelled_step)
    (fun _ _ _ => missed_step) hRun ?_ ?_
  · exact ⟨fun _ hc => absurd hc (by simp [initialized]),
      fun hs => absurd hs (by simp [initialized])⟩
  · exact fun hMissed => absurd hMissed.1 (by simp [initialized])

/-- Nothing can be opened. -/
def noFile : Answers := ⟨false, false, false, []⟩

/-- `StopSync` has set `cancel` when the module enters the wait, its signal comes behind that. -/
theorem waiting_module_notices_stop :
    (∃ s : State Unit, run (step fileProtobuf)
        (initialized (Module.init [102] false true 0 (-1) 0 noFile))
        [.processInput 1, .stop (), .wait, .signal (), .wake, .relock 2] = some s ∧
        s.pc = .outside) ∧
      Always (step fileProtobuf) (fun s : State Unit => ¬ Missed s)
        (initialized (Module.init [102] false true 0 (-1) 0 noFile))
        [.processInput 1, .stop (), .wait, .signal (), .wake, .relock 2] :=
  ⟨⟨_, rfl, rfl⟩,
    (waiting_module_notices_iff fileProtobuf [102] false true 0 (-1) 0 noFile rfl).mpr
      (by decide)⟩

/-- `StopSync` comes between the read and the wait. -/
theorem waiting_module_misses_stop :
    ∃ s : State Unit,
      run (step fileProtobuf) (initialized (Module.init [102] false true 0 (-1) 0 noFile))
        [.processInput 1, .stop (), .signal (), .wait] = some s ∧
      Missed s :=
  ⟨_, rfl, rfl, .inl ⟨rfl, rfl⟩⟩

end HectorCore.Load.Waiting
