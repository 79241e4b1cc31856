import HectorCore.Lib.Run
import Mathlib.Data.Fintype.Basic

/-!
# RunPause — an engine under control requests

`lib/processing_engine/ProcessingEngine.cc`: `StartSync`, `StopSync`, `PauseSync`,
`ResumeSync`, the setters of the properties `run` and `pause`, and what they call of
`Processor` and `SyncQueue`, for any number of clients.

A step is a section under the object lock of the engine. `StopSync` releases that lock in the
middle, with `propRun` still set, stops the queue and the processors, and takes it again for
`propRun = false`; any other request may run in between.

* The pause locks are plain mutexes: `lock` of a held one blocks for ever, `unlock` of a free
  one is undefined. Both are `none`.
* The loop of `StopSync` over the waiting clients is the subject of `Clients/Stopping.lean`;
  here the section goes on behind it.

Main result: `run_pause_consistent`.
-/

namespace HectorCore.Engine

-- ---------------------------------------------------------------------------
-- Queues and processors
-- ---------------------------------------------------------------------------

/-- `PlainLock::Lock`, `Unlock` -/
def lock : Bool → Option Bool
  | false => some true
  | true => none

def unlock : Bool → Option Bool
  | true => some false
  | false => none

/-- What the control requests use of a `SyncQueue`: `pauseLock` and `cancel`. -/
structure Queue where
  pauseLock : Bool
  cancel : Bool
  deriving DecidableEq, Repr

namespace Queue

def start (q : Queue) : Queue := { q with cancel := false }
def stop (q : Queue) : Queue := { q with cancel := true }
def pause (q : Queue) : Option Queue := (lock q.pauseLock).map fun pauseLock => { q with pauseLock }
def resume (q : Queue) : Option Queue :=
  (unlock q.pauseLock).map fun pauseLock => { q with pauseLock }

end Queue

/-- What they use of a `Processor`: its input queue, `running`, and whether `threads` is set. -/
structure Processor where
  inputQueue : Queue
  running : Bool
  threads : Bool
  deriving DecidableEq, Repr

namespace Processor

def start (p : Processor) : Processor :=
  { inputQueue := p.inputQueue.start, running := true, threads := true }

def stop (p : Processor) : Processor :=
  if p.threads then { inputQueue := p.inputQueue.stop, running := false, threads := false }
  else { p with running := false }      -- already stopped

def pause (p : Processor) : Option Processor :=
  p.inputQueue.pause.map fun inputQueue => { p with inputQueue }

def resume (p : Processor) : Option Processor :=
  p.inputQueue.resume.map fun inputQueue => { p with inputQueue }

end Processor

/-- The loop of `DoPause` and `DoResume` over the processors. -/
def forEach (f : Processor → Option Processor) : List Processor → Option (List Processor)
  | [] => some []
  | p :: ps => (f p).bind fun p' => (forEach f ps).map (p' :: ·)

/-- The queue of an engine that may have none. -/
def ifPresent (f : Queue → Option Queue) : Option Queue → Option (Option Queue)
  | none => some none
  | some q => (f q).map some

-- ---------------------------------------------------------------------------
-- The engine
-- ---------------------------------------------------------------------------

/-- Where a client is in `StopSync`: outside, behind the `ObjectUnlock`, or with everything
stopped in front of the `ObjectLockWrite`. -/
inductive Stage where
  | outside
  | unlocked
  | joined
  deriving DecidableEq, Repr

/-- The engine, and where every client is. -/
structure State (Tid : Type) where
  propRun : Bool
  propPause : Bool
  cancel : Bool
  resourceCount : Int
  pauseLock : Bool
  outputQueue : Option Queue
  processors : List Processor
  stage : Tid → Stage

variable {Tid : Type}

namespace State

/-- `DoPause` -/
def doPause (s : State Tid) : Option (State Tid) :=
  (lock s.pauseLock).bind fun pauseLock =>
    (ifPresent Queue.pause s.outputQueue).bind fun outputQueue =>
      (forEach Processor.pause s.processors).map fun processors =>
        { s with pauseLock, outputQueue, processors }

/-- `DoResume` -/
def doResume (s : State Tid) : Option (State Tid) :=
  (unlock s.pauseLock).bind fun pauseLock =>
    (ifPresent Queue.resume s.outputQueue).bind fun outputQueue =>
      (forEach Processor.resume s.processors).map fun processors =>
        { s with pauseLock, outputQueue, processors }

/-- `StartSync` -/
def startSync (s : State Tid) : State Tid :=
  if s.propRun then s
  else { s with
    cancel := false, resourceCount := 0, outputQueue := s.outputQueue.map Queue.start
    processors := s.processors.map Processor.start, propRun := true }

/-- `PauseSync` -/
def pauseSync (s : State Tid) : Option (State Tid) :=
  if s.propRun && !s.propPause then s.doPause.map fun s => { s with propPause := true }
  else some s

/-- `ResumeSync` -/
def resumeSync (s : State Tid) : Option (State Tid) :=
  if s.propPause then s.doResume.map fun s => { s with propPause := false }
  else some s

variable [DecidableEq Tid]

def setStage (s : State Tid) (t : Tid) (stage : Stage) : State Tid :=
  { s with stage := Function.update s.stage t stage }

/-- `StopSync` up to the `ObjectUnlock` in the middle. -/
def stopSync (s : State Tid) (t : Tid) : Option (State Tid) :=
  if s.propRun then
    (if s.propPause then s.doResume.map fun s => { s with propPause := false } else some s).map
      fun s => { s.setStage t .unlocked with cancel := true }
  else some s

/-- The part of `StopSync` without the object lock. -/
def stopAll (s : State Tid) (t : Tid) : State Tid :=
  { s.setStage t .joined with
    outputQueue := s.outputQueue.map Queue.stop, processors := s.processors.map Processor.stop }

/-- The rest of `StopSync`. -/
def stopRest (s : State Tid) (t : Tid) : State Tid :=
  { s.setStage t .outside with propRun := false }

end State

/-- `str2bool` -/
def str2bool (value : String) : Int :=
  if value = "0" ∨ value.toList.head? = some 'f' ∨ value.toList.head? = some 'F' then 0
  else if value = "1" ∨ value.toList.head? = some 't' ∨ value.toList.head? = some 'T' then 1
  else -1

/-- The requests, and the sections of `StopSync` behind the first one. -/
inductive Label (Tid : Type) where
  | start (t : Tid)
  | stop (t : Tid)
  | pause (t : Tid)
  | resume (t : Tid)
  | setRun (t : Tid) (value : String)
  | setPause (t : Tid) (value : String)
  | stopAll (t : Tid)
  | stopRest (t : Tid)
  deriving DecidableEq

/-- What a request asks for. -/
inductive Request where
  | start
  | stop
  | pause
  | resume
  /-- "Invalid 'run' value", "Invalid 'pause' value" -/
  | invalid
  deriving DecidableEq, Repr

/-- `SetRun` and `SetPause` -/
def setRun (value : String) : Request :=
  if str2bool value = 0 then .stop else if str2bool value = 1 then .start else .invalid

/-- `SetPause` -/
def setPause (value : String) : Request :=
  if str2bool value = 0 then .resume else if str2bool value = 1 then .pause else .invalid

/-- The client and the request of a label that is one. -/
def Label.request : Label Tid → Option (Tid × Request)
  | .start t => some (t, .start)
  | .stop t => some (t, .stop)
  | .pause t => some (t, .pause)
  | .resume t => some (t, .resume)
  | .setRun t value => some (t, Engine.setRun value)
  | .setPause t value => some (t, Engine.setPause value)
  | .stopAll _ | .stopRest _ => none

variable [DecidableEq Tid]

/-- The first section of a request of client `t`. -/
def perform (s : State Tid) (t : Tid) : Request → Option (State Tid)
  | .start => some s.startSync
  | .stop => s.stopSync t
  | .pause => s.pauseSync
  | .resume => s.resumeSync
  | .invalid => some s

/-- One section of one client. -/
def step (s : State Tid) (a : Label Tid) : Option (State Tid) :=
  match a with
  | .stopAll t => if s.stage t = .unlocked then some (s.stopAll t) else none
  | .stopRest t => if s.stage t = .joined then some (s.stopRest t) else none
  | _ =>
    a.request.bind fun (t, request) =>
      if s.stage t = .outside then perform s t request else none

/-- An engine as `Init` leaves it: with or without an output queue, and `n` processors. -/
def initial (output : Bool) (n : Nat) : State Tid :=
  { propRun := false, propPause := false, cancel := false, resourceCount := 0, pauseLock := false
    outputQueue := if output then some ⟨false, false⟩ else none
    processors := List.replicate n ⟨⟨false, false⟩, false, false⟩, stage := fun _ => .outside }

-- ---------------------------------------------------------------------------
-- The pause locks
-- ---------------------------------------------------------------------------

/-- The pause locks of the engine, of its output queue and of the input queues of its
processors are all held, or all free. -/
structure Locks (held : Bool) (s : State Tid) : Prop where
  engine : s.pauseLock = held
  output : ∀ q, s.outputQueue = some q → q.pauseLock = held
  input : ∀ p ∈ s.processors, p.inputQueue.pauseLock = held

omit [DecidableEq Tid] in
/-- The locks depend on the locks only. -/
theorem Locks.of_same {held : Bool} {s s' : State Tid} (h : Locks held s)
    (hEngine : s'.pauseLock = s.pauseLock) {f : Queue → Queue} {g : Processor → Processor}
    (hf : ∀ q, (f q).pauseLock = q.pauseLock)
    (hg : ∀ p, (g p).inputQueue.pauseLock = p.inputQueue.pauseLock)
    (hOutput : s'.outputQueue = s.outputQueue.map f) (hInput : s'.processors = s.processors.map g) :
    Locks held s' := by
  refine ⟨hEngine.trans h.engine, ?_, ?_⟩
  · intro q hq
    rw [hOutput] at hq
    obtain ⟨q', hq', rfl⟩ := Option.map_eq_some_iff.mp hq
    rw [hf]
    exact h.output q' hq'
  · intro p hp
    rw [hInput] at hp
    obtain ⟨p', hp', rfl⟩ := List.mem_map.mp hp
    rw [hg]
    exact h.input p' hp'

/-- A lock that was taken was free. -/
theorem lock_eq_some {b b' : Bool} (h : lock b = some b') : b = false ∧ b' = true := by
  cases b with
  | false => exact ⟨rfl, (Option.some.inj h).symm⟩
  | true => cases h

theorem unlock_eq_some {b b' : Bool} (h : unlock b = some b') : b = true ∧ b' = false := by
  cases b with
  | false => cases h
  | true => exact ⟨rfl, (Option.some.inj h).symm⟩

/-- What the loop over the processors leaves behind. -/
theorem forEach_spec {f : Processor → Option Processor} {held : Bool}
    (hf : ∀ p p', f p = some p' → p'.inputQueue.pauseLock = held) {ps ps' : List Processor}
    (h : forEach f ps = some ps') : ∀ p ∈ ps', p.inputQueue.pauseLock = held := by
  induction ps generalizing ps' with
  | nil =>
    obtain rfl := Option.some.inj h
    simp
  | cons p ps ih =>
    obtain ⟨p', hp, hRest⟩ := Option.bind_eq_some_iff.mp h
    obtain ⟨rest, hLoop, rfl⟩ := Option.map_eq_some_iff.mp hRest
    intro x hx
    rcases List.mem_cons.mp hx with rfl | hx
    · exact hf p x hp
    · exact ih hLoop x hx

/-- Of a queue that need not be there. -/
theorem ifPresent_spec {f : Queue → Option Queue} {held : Bool}
    (hf : ∀ q q', f q = some q' → q'.pauseLock = held) {o o' : Option Queue}
    (h : ifPresent f o = some o') : ∀ q, o' = some q → q.pauseLock = held := by
  cases o with
  | none =>
    obtain rfl := Option.some.inj h
    intro q hq
    cases hq
  | some q₀ =>
    obtain ⟨q', hq', rfl⟩ := Option.map_eq_some_iff.mp h
    intro q hq
    obtain rfl := Option.some.inj hq
    exact hf q₀ q' hq'

/-- A paused queue is locked, and so is the queue of a paused processor. -/
theorem queue_pause_spec {q q' : Queue} (h : q.pause = some q') : q'.pauseLock = true := by
  obtain ⟨b, hb, rfl⟩ := Option.map_eq_some_iff.mp h
  exact (lock_eq_some hb).2

theorem queue_resume_spec {q q' : Queue} (h : q.resume = some q') : q'.pauseLock = false := by
  obtain ⟨b, hb, rfl⟩ := Option.map_eq_some_iff.mp h
  exact (unlock_eq_some hb).2

theorem processor_pause_spec {p p' : Processor} (h : p.pause = some p') :
    p'.inputQueue.pauseLock = true := by
  obtain ⟨q, hq, rfl⟩ := Option.map_eq_some_iff.mp h
  exact queue_pause_spec hq

theorem processor_resume_spec {p p' : Processor} (h : p.resume = some p') :
    p'.inputQueue.pauseLock = false := by
  obtain ⟨q, hq, rfl⟩ := Option.map_eq_some_iff.mp h
  exact queue_resume_spec hq

omit [DecidableEq Tid] in
/-- `DoPause` takes every lock and touches nothing else. -/
theorem doPause_spec {s s' : State Tid} (h : s.doPause = some s') :
    Locks true s' ∧ s'.propRun = s.propRun ∧ s'.stage = s.stage := by
  obtain ⟨b, hEngine, h⟩ := Option.bind_eq_some_iff.mp h
  obtain ⟨o, hOutput, h⟩ := Option.bind_eq_some_iff.mp h
  obtain ⟨ps, hInput, rfl⟩ := Option.map_eq_some_iff.mp h
  exact ⟨⟨(lock_eq_some hEngine).2, ifPresent_spec (fun _ _ => queue_pause_spec) hOutput,
    forEach_spec (fun _ _ => processor_pause_spec) hInput⟩, rfl, rfl⟩

omit [DecidableEq Tid] in
/-- `DoResume` gives every lock back. -/
theorem doResume_spec {s s' : State Tid} (h : s.doResume = some s') :
    Locks false s' ∧ s'.propRun = s.propRun ∧ s'.stage = s.stage := by
  obtain ⟨b, hEngine, h⟩ := Option.bind_eq_some_iff.mp h
  obtain ⟨o, hOutput, h⟩ := Option.bind_eq_some_iff.mp h
  obtain ⟨ps, hInput, rfl⟩ := Option.map_eq_some_iff.mp h
  exact ⟨⟨(unlock_eq_some hEngine).2, ifPresent_spec (fun _ _ => queue_resume_spec) hOutput,
    forEach_spec (fun _ _ => processor_resume_spec) hInput⟩, rfl, rfl⟩

/-- A loop over the processors gets through if it does at each of them. -/
theorem forEach_isSome {f : Processor → Option Processor} {ps : List Processor}
    (h : ∀ p ∈ ps, (f p).isSome) : (forEach f ps).isSome := by
  induction ps with
  | nil => rfl
  | cons p ps ih =>
    obtain ⟨p', hp⟩ := Option.isSome_iff_exists.mp (h p List.mem_cons_self)
    obtain ⟨ps', hps⟩ := Option.isSome_iff_exists.mp
      (ih fun q hq => h q (List.mem_cons_of_mem _ hq))
    simp [forEach, hp, hps]

theorem ifPresent_isSome {f : Queue → Option Queue} {o : Option Queue}
    (h : ∀ q, o = some q → (f q).isSome) : (ifPresent f o).isSome := by
  cases o with
  | none => rfl
  | some q =>
    rw [ifPresent, Option.isSome_map]
    exact h q rfl

omit [DecidableEq Tid] in
/-- With all locks free `DoPause` does not block. -/
theorem doPause_isSome {s : State Tid} (h : Locks false s) : s.doPause.isSome := by
  have hQueue : (ifPresent Queue.pause s.outputQueue).isSome := ifPresent_isSome fun q hq => by
    simp [Queue.pause, h.output q hq, lock]
  have hAll : (forEach Processor.pause s.processors).isSome := forEach_isSome fun p hp => by
    simp [Processor.pause, Queue.pause, h.input p hp, lock]
  obtain ⟨o, hOutput⟩ := Option.isSome_iff_exists.mp hQueue
  obtain ⟨ps, hInput⟩ := Option.isSome_iff_exists.mp hAll
  simp [State.doPause, h.engine, lock, hOutput, hInput]

omit [DecidableEq Tid] in
/-- With all locks held `DoResume` unlocks only what is locked. -/
theorem doResume_isSome {s : State Tid} (h : Locks true s) : s.doResume.isSome := by
  have hQueue : (ifPresent Queue.resume s.outputQueue).isSome := ifPresent_isSome fun q hq => by
    simp [Queue.resume, h.output q hq, unlock]
  have hAll : (forEach Processor.resume s.processors).isSome := forEach_isSome fun p hp => by
    simp [Processor.resume, Queue.resume, h.input p hp, unlock]
  obtain ⟨o, hOutput⟩ := Option.isSome_iff_exists.mp hQueue
  obtain ⟨ps, hInput⟩ := Option.isSome_iff_exists.mp hAll
  simp [State.doResume, h.engine, unlock, hOutput, hInput]

/-- **No request gets stuck** on a pause lock as long as these follow `propPause`. -/
theorem perform_isSome {s : State Tid} (h : Locks s.propPause s) (t : Tid) (request : Request) :
    (perform s t request).isSome := by
  have hResume : s.propPause = true → s.doResume.isSome := fun hPause =>
    doResume_isSome (hPause ▸ h)
  cases request with
  | start => rfl
  | invalid => rfl
  | stop =>
    simp only [perform, State.stopSync]
    split
    · rw [Option.isSome_map]
      split
      · rw [Option.isSome_map]
        exact hResume ‹_›
      · rfl
    · rfl
  | pause =>
    simp only [perform, State.pauseSync]
    split
    · rename_i hGuard
      rw [Bool.and_eq_true, Bool.not_eq_true'] at hGuard
      rw [Option.isSome_map]
      exact doPause_isSome (hGuard.2 ▸ h)
    · rfl
  | resume =>
    simp only [perform, State.resumeSync]
    split
    · rw [Option.isSome_map]
      exact hResume ‹_›
    · rfl

-- ---------------------------------------------------------------------------
-- Sections and runs
-- ---------------------------------------------------------------------------

/-- A client is between the two halves of `StopSync`. -/
def Stopping (s : State Tid) : Prop := ∃ t, s.stage t ≠ .outside

/-- The locks are held exactly while `propPause` is set; and an engine that is paused runs and
is not being stopped. -/
structure Consistent (s : State Tid) : Prop where
  locks : Locks s.propPause s
  paused : s.propPause = true → s.propRun = true ∧ ¬ Stopping s

/-- **The condition.** A request that pauses the engine, by `Pause` or by `SET pause`, comes
while no client is between the two halves of `StopSync`. -/
def NotWhileStopping (s : State Tid) (a : Label Tid) : Prop :=
  (∃ t, a.request = some (t, .pause)) → s.propRun = true → s.propPause = false → ¬ Stopping s

instance decidableStopping [Fintype Tid] (s : State Tid) : Decidable (Stopping s) :=
  inferInstanceAs (Decidable (∃ t, s.stage t ≠ .outside))

instance decidableNotWhileStopping [Fintype Tid] (s : State Tid) (a : Label Tid) :
    Decidable (NotWhileStopping s a) :=
  inferInstanceAs (Decidable ((∃ t, a.request = some (t, .pause)) → _ = _ → _ = _ → ¬ Stopping s))

omit [DecidableEq Tid] in
/-- `StartSync` leaves the locks alone. -/
theorem locks_startSync {held : Bool} {s : State Tid} (h : Locks held s) :
    Locks held s.startSync := by
  unfold State.startSync
  split
  · exact h
  · exact h.of_same (f := Queue.start) (g := Processor.start) rfl (fun _ => rfl) (fun _ => rfl)
      rfl rfl

/-- So does `Stop`. -/
theorem Processor.stop_pauseLock (p : Processor) :
    p.stop.inputQueue.pauseLock = p.inputQueue.pauseLock := by
  unfold Processor.stop
  split
  · rfl
  · rfl

omit [DecidableEq Tid] in
/-- `ResumeSync`, also at the beginning of `StopSync`, leaves the engine unpaused. -/
theorem resume_spec {s s' : State Tid} (h : Locks s.propPause s)
    (hResume : (if s.propPause then s.doResume.map fun s => { s with propPause := false }
      else some s) = some s') :
    Locks false s' ∧ s'.propPause = false ∧ s'.propRun = s.propRun ∧ s'.stage = s.stage := by
  split at hResume
  · obtain ⟨s₁, hDo, rfl⟩ := Option.map_eq_some_iff.mp hResume
    obtain ⟨hLocks, hRun, hStage⟩ := doResume_spec hDo
    exact ⟨⟨hLocks.engine, hLocks.output, hLocks.input⟩, rfl, hRun, hStage⟩
  · rename_i hNot
    obtain rfl := Option.some.inj hResume
    rw [eq_false_of_ne_true hNot] at h
    exact ⟨h, eq_false_of_ne_true hNot, rfl, rfl⟩

/-- A request keeps the books, unless it pauses an engine that is being stopped. -/
theorem consistent_perform {s s' : State Tid} {t : Tid} {request : Request} (h : Consistent s)
    (hOk : request = .pause → s.propRun = true → s.propPause = false → ¬ Stopping s)
    (hStep : perform s t request = some s') : Consistent s' := by
  cases request with
  | start =>
    obtain rfl := Option.some.inj hStep
    -- a paused engine runs, so that `StartSync` finds nothing to do
    have hSame : s.startSync.propPause = s.propPause ∧ s.startSync.stage = s.stage := by
      unfold State.startSync
      split
      · exact ⟨rfl, rfl⟩
      · exact ⟨rfl, rfl⟩
    refine ⟨by rw [hSame.1]; exact locks_startSync h.locks, fun hPause => ?_⟩
    rw [hSame.1] at hPause
    obtain ⟨hRun, hNot⟩ := h.paused hPause
    refine ⟨?_, by rw [Stopping, hSame.2]; exact hNot⟩
    rw [State.startSync, if_pos hRun]
    exact hRun
  | stop =>
    -- the first section of `StopSync` resumes a paused engine
    simp only [perform, State.stopSync] at hStep
    split at hStep
    · obtain ⟨s₁, hResume, rfl⟩ := Option.map_eq_some_iff.mp hStep
      obtain ⟨hLocks, hPause, -, -⟩ := resume_spec h.locks hResume
      have hStill : ({ s₁.setStage t .unlocked with cancel := true }).propPause = false := hPause
      refine ⟨?_, fun hTrue => ?_⟩
      · rw [hStill]
        exact ⟨hLocks.engine, hLocks.output, hLocks.input⟩
      · rw [hStill] at hTrue
        cases hTrue
    · exact Option.some.inj hStep ▸ h
  | pause =>
    simp only [perform, State.pauseSync] at hStep
    split at hStep
    · rename_i hGuard
      -- it runs and is not paused, and by assumption nobody stops it
      rw [Bool.and_eq_true, Bool.not_eq_true'] at hGuard
      obtain ⟨s₁, hDo, rfl⟩ := Option.map_eq_some_iff.mp hStep
      obtain ⟨hLocks, hRun, hStage⟩ := doPause_spec hDo
      refine ⟨⟨hLocks.engine, hLocks.output, hLocks.input⟩, fun _ => ⟨hRun.trans hGuard.1, ?_⟩⟩
      show ¬ ∃ t, s₁.stage t ≠ .outside
      rw [hStage]
      exact hOk rfl hGuard.1 hGuard.2
    · exact Option.some.inj hStep ▸ h
  | resume =>
    obtain ⟨hLocks, hPause, -, -⟩ := resume_spec h.locks hStep
    refine ⟨by rw [hPause]; exact hLocks, fun hTrue => ?_⟩
    rw [hPause] at hTrue
    cases hTrue
  | invalid => exact Option.some.inj hStep ▸ h

omit [DecidableEq Tid] in
/-- A client inside `StopSync` knows that the engine is not paused. -/
theorem Consistent.not_paused {s : State Tid} (h : Consistent s) {t : Tid}
    (ht : s.stage t ≠ .outside) : s.propPause = false := by
  refine eq_false_of_ne_true fun hPause => ?_
  exact (h.paused hPause).2 ⟨t, ht⟩

/-- The step lemma, one case for each section. -/
theorem consistent_step {s s' : State Tid} {a : Label Tid} (h : Consistent s)
    (hOk : NotWhileStopping s a) (hStep : step s a = some s') : Consistent s' := by
  have hRequest : ∀ t request, a.request = some (t, request) →
      (if s.stage t = .outside then perform s t request else none) = some s' → Consistent s' := by
    intro t request hAsks hIf
    split at hIf
    · refine consistent_perform h (fun hPause => hOk ⟨t, ?_⟩) hIf
      rw [hAsks, hPause]
    · cases hIf
  cases a with
  | stopAll t =>
    simp only [step] at hStep
    split at hStep
    · rename_i hAt
      obtain rfl := Option.some.inj hStep
      have hPause := h.not_paused (t := t) (by rw [hAt]; exact Stage.noConfusion)
      refine ⟨?_, fun hTrue => ?_⟩
      · exact h.locks.of_same (f := Queue.stop) (g := Processor.stop) rfl (fun _ => rfl)
          Processor.stop_pauseLock rfl rfl
      · have hFalse : (s.stopAll t).propPause = false := hPause
        rw [hFalse] at hTrue
        cases hTrue
    · cases hStep
  | stopRest t =>
    simp only [step] at hStep
    split at hStep
    · rename_i hAt
      obtain rfl := Option.some.inj hStep
      have hPause := h.not_paused (t := t) (by rw [hAt]; exact Stage.noConfusion)
      refine ⟨⟨h.locks.engine, h.locks.output, h.locks.input⟩, fun hTrue => ?_⟩
      have hFalse : (s.stopRest t).propPause = false := hPause
      rw [hFalse] at hTrue
      cases hTrue
    · cases hStep
  | start t => exact hRequest t .start rfl hStep
  | stop t => exact hRequest t .stop rfl hStep
  | pause t => exact hRequest t .pause rfl hStep
  | resume t => exact hRequest t .resume rfl hStep
  | setRun t value => exact hRequest t (Engine.setRun value) rfl hStep
  | setPause t value => exact hRequest t (Engine.setPause value) rfl hStep

omit [DecidableEq Tid] in
/-- An engine that has not been started. -/
theorem consistent_initial (output : Bool) (n : Nat) :
    Consistent (initial output n : State Tid) := by
  refine ⟨⟨rfl, ?_, ?_⟩, fun hTrue => ?_⟩
  · intro q hq
    cases output with
    | false => cases hq
    | true =>
      obtain rfl := Option.some.inj hq
      rfl
  · intro p hp
    rw [List.eq_of_mem_replicate hp]
    rfl
  · cases hTrue

/-- **The run/pause state machine is consistent**, in any run in which no request pauses the
engine between the two halves of a `StopSync`. In the state reached, whether a request is still
in progress or not, each pause lock is held if and only if `propPause` is set, and `propPause`
implies `propRun`. -/
theorem run_pause_consistent (output : Bool) (n : Nat) (as : List (Label Tid)) {s : State Tid}
    (hRun : Lib.run step (initial output n) as = some s)
    (hOk : Lib.AllOk step NotWhileStopping (initial output n) as) :
    (s.pauseLock = true ↔ s.propPause = true) ∧
    (∀ q, s.outputQueue = some q → (q.pauseLock = true ↔ s.propPause = true)) ∧
    (∀ p ∈ s.processors, (p.inputQueue.pauseLock = true ↔ s.propPause = true)) ∧
    (s.propPause = true → s.propRun = true) := by
  have hConsistent : Consistent s := Lib.run_invariant_of_ok Consistent
    (fun _ _ _ h hOk hStep => consistent_step h hOk hStep) hOk hRun (consistent_initial output n)
  refine ⟨?_, fun q hq => ?_, fun p hp => ?_, fun hPause => (hConsistent.paused hPause).1⟩
  · rw [hConsistent.locks.engine]
  · rw [hConsistent.locks.output q hq]
  · rw [hConsistent.locks.input p hp]

/-- Two clients: one starts and stops the engine, the other one pauses it in time. -/
def pausedInTime : List (Label Bool) :=
  [.start true, .setPause false "1", .stop true, .stopAll true, .stopRest true, .setRun true "true",
    .pause false]

/-- A pause before the stop. -/
theorem run_pause_consistent_pausedInTime :
    ∃ s, Lib.run step (initial true 2) pausedInTime = some s ∧ s.propPause = true ∧
      s.pauseLock = true ∧ s.propRun = true := by
  obtain ⟨hEngine, -, -, hRun⟩ := run_pause_consistent true 2 pausedInTime rfl (by decide)
  exact ⟨_, rfl, rfl, hEngine.mpr rfl, hRun rfl⟩

/-- The second client pauses the engine between the two halves of `StopSync`: it is stopped and
stays paused, with no request in progress. -/
theorem pause_while_stopping :
    ∃ s : State Bool, Lib.run step (initial true 2)
        [.start true, .stop true, .pause false, .stopAll true, .stopRest true] = some s ∧
      ¬ Stopping s ∧ s.propPause = true ∧ s.propRun = false := by
  refine ⟨_, rfl, by decide, rfl, rfl⟩

end HectorCore.Engine
