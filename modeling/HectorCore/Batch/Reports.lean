import HectorCore.Batch.Quiescence

set_option linter.unusedSectionVars false

/-!
# Reports — each processor is counted as sleeping at most once

What `processorsSleeping` of an engine adds up from: the `ProcessorSleeping` and
`ProcessorWakeup` reports of its processors, sent by the worker threads from `UpdateSleeping`
and from `ThreadFinished`. The critical sections are those of `Batch/Sleeping.lean`; here any
thread may take any turn the code leaves to it, a thread of a stopped processor included,
whatever the queues and the modules do.

* A thread is asleep from `UpdateSleeping(1)` to `UpdateSleeping(-1)`, that is while it is in
  the blocking `GetItem`.
* `CheckSleeping`, which ends every report, touches none of the counters of this module: a
  thread comes back from it some time later (`back`).

`runningThreads` counts the threads that have begun to run. A report that is decided before
all of them have is early: the condition `AllStarted` excludes it, and under it the reports
of a processor add up to its flags (`Once`).

Main result: `processor_reported_once`.
-/

namespace HectorCore.Batch

inductive Turn (T : Type) where
  /-- `runningThreads++` -/
  | start (t : T)
  /-- `UpdateSleeping(1)`, `UpdateSleeping(-1)` -/
  | sleep (t : T)
  | wake (t : T)
  /-- `RunThread` returns, `ThreadFinished` -/
  | exit (t : T)
  | finish (t : T)
  /-- `ProcessorSleeping` or `ProcessorWakeup` reaches the engine, and returns. -/
  | report (t : T)
  | back (t : T)

/-- The threads, and how many `ProcessorSleeping` reports of each processor have reached the
engine, less the `ProcessorWakeup` reports. -/
structure Tracked (E P T : Type) where
  s : State E P T
  issued : P → Int

variable {E P T : Type} [Fintype E] [Fintype P] [Fintype T]
  [DecidableEq E] [DecidableEq P] [DecidableEq T]

namespace Server

variable (v : Server E P T)

/-- One turn of a thread; `none` when it is not enabled. -/
def turn (x : Tracked E P T) : Turn T → Option (Tracked E P T)
  | .start t => (v.step x.s (.start t)).map fun s => { x with s }
  | .sleep t =>
    if v.isInput (v.processor t) then none
    else (working x.s t (v.updateSleeping x.s t 1 .block)).map fun s => { x with s }
  | .wake t =>
    if x.s.pc t = .blocked then some { x with s := v.updateSleeping x.s t (-1) .work } else none
  | .exit t => (working x.s t (x.s.setPc t .finishing)).map fun s => { x with s }
  | .finish t =>
    if x.s.pc t = .finishing then some { x with s := v.threadFinished x.s t } else none
  | .report t =>
    let p := v.processor t
    match x.s.pc t with
    | .psleep _ => (v.report x.s t).map fun s =>
        { s, issued := Function.update x.issued p (x.issued p + 1) }
    | .pwake _ => (v.report x.s t).map fun s =>
        { s, issued := Function.update x.issued p (x.issued p + -1) }
    | _ => none
  | .back t =>
    match x.s.pc t with
    | .check a => some { x with s := x.s.setPc t a.pc }
    | _ => none

/-- Before the threads are started. -/
def untracked : Tracked E P T := { s := initial, issued := fun _ => 0 }

end Server

/-- **The condition.** A processor whose last running thread goes to sleep or ends has no
thread that has still to begin. -/
def AllStarted (v : Server E P T) (x : Tracked E P T) : Turn T → Prop
  | .sleep t =>
    x.s.sleepingThreads (v.processor t) + 1 = x.s.runningThreads (v.processor t) →
      ∀ t', v.processor t' = v.processor t → x.s.pc t' ≠ .created
  | .finish t =>
    x.s.runningThreads (v.processor t) = 1 →
      ∀ t', v.processor t' = v.processor t → x.s.pc t' ≠ .created
  | _ => True

instance decidableAllStarted (v : Server E P T) (x : Tracked E P T) :
    (a : Turn T) → Decidable (AllStarted v x a)
  | .sleep t => inferInstanceAs (Decidable (_ = _ →
      ∀ t', v.processor t' = v.processor t → x.s.pc t' ≠ .created))
  | .finish t => inferInstanceAs (Decidable (_ = _ →
      ∀ t', v.processor t' = v.processor t → x.s.pc t' ≠ .created))
  | .start _ | .wake _ | .exit _ | .report _ | .back _ => isTrue trivial

-- ---------------------------------------------------------------------------
-- The invariant
-- ---------------------------------------------------------------------------

/-- `GetItem` has returned, and the thread still counts as asleep. -/
def Pc.isWaking (pc : Pc) : Bool := pc = .waking || pc = .wakingCall

/-- Asleep, or past `ThreadFinished`. -/
def Pc.Parked (pc : Pc) : Prop := pc.isAsleep = true ∨ pc.isEnded = true

/-- The counters count, a flag is true of all threads of its processor, and what has reached
the engine is what the flags say, less what is still to be sent. -/
structure Once (v : Server E P T) (x : Tracked E P T) : Prop where
  noWaking : ∀ t, (x.s.pc t).isWaking = false
  running : ∀ p, x.s.runningThreads p = Lib.tally v.processor (fun t => (x.s.pc t).running) p
  asleep : ∀ p, x.s.sleepingThreads p = Lib.tally v.processor (fun t => (x.s.pc t).asleep) p
  sleeping : ∀ p, x.s.sleeping p = true → (∀ t, v.processor t = p → (x.s.pc t).Parked) ∧
    ∃ t, v.processor t = p ∧ (x.s.pc t).isAsleep = true
  ended : ∀ p, x.s.ended p = true → ∀ t, v.processor t = p → (x.s.pc t).isEnded = true
  issued : ∀ p, x.issued p =
    x.s.flag p + Lib.tally v.processor (fun t => (x.s.pc t).vote) p
  engines : ∀ e, x.s.processorsSleeping e = Lib.tally v.engine x.issued e

variable {v : Server E P T} {x x' : Tracked E P T} {t : T}

/-- The counters follow from the bookkeeping; what is left are the flags of the processor. -/
theorem Once.of_local (h : Once v x) (hLocal : Local v x.s x'.s t)
    (hOwn : (x'.s.pc t).isWaking = false)
    (hIssued : ∀ p, x'.issued p = x.issued p + if v.processor t = p then
      x'.s.processorsSleeping (v.engineOf t) - x.s.processorsSleeping (v.engineOf t) else 0)
    (hSleeping : x'.s.sleeping (v.processor t) = true →
      (∀ t', v.processor t' = v.processor t → (x'.s.pc t').Parked) ∧
        ∃ t', v.processor t' = v.processor t ∧ (x'.s.pc t').isAsleep = true)
    (hEnded : x'.s.ended (v.processor t) = true →
      ∀ t', v.processor t' = v.processor t → (x'.s.pc t').isEnded = true) : Once v x' := by
  have hVotes := hLocal.votes (v.engineOf t)
  rw [if_pos rfl] at hVotes
  -- the threads of the other processors are where they were
  have hOther : ∀ p, p ≠ v.processor t → ∀ t', v.processor t' = p → x'.s.pc t' = x.s.pc t' := by
    intro p hp t' ht'
    exact hLocal.pc_off t' (by rintro rfl; exact hp ht'.symm)
  refine ⟨fun t' => ?_, fun p => ?_, fun p => ?_, fun p hp => ?_, fun p hp => ?_, fun p => ?_,
    fun e => ?_⟩
  · by_cases ht : t' = t
    · subst ht
      exact hOwn
    · rw [hLocal.pc_off t' ht]
      exact h.noWaking t'
  · rw [hLocal.running p, h.running p, hLocal.tally_pc v.processor Pc.running p]
  · rw [hLocal.asleep p, h.asleep p, hLocal.tally_pc v.processor Pc.asleep p]
  · by_cases hOwn : p = v.processor t
    · subst hOwn
      exact hSleeping hp
    · rw [(hLocal.flags_off p hOwn).1] at hp
      obtain ⟨hAll, t', ht', hAsleep⟩ := h.sleeping p hp
      refine ⟨fun t'' ht'' => ?_, t', ht', ?_⟩
      · rw [hOther p hOwn t'' ht'']
        exact hAll t'' ht''
      · rw [hOther p hOwn t' ht']
        exact hAsleep
  · by_cases hOwn : p = v.processor t
    · subst hOwn
      exact hEnded hp
    · rw [(hLocal.flags_off p hOwn).2] at hp
      intro t' ht'
      rw [hOther p hOwn t' ht']
      exact h.ended p hp t' ht'
  · rw [hIssued p, h.issued p, hLocal.tally_pc v.processor Pc.vote p]
    by_cases hOwn : v.processor t = p
    · subst hOwn
      simp only [if_true]
      omega
    · have hFlag : x'.s.flag p = x.s.flag p := by
        obtain ⟨hSame, hSame'⟩ := hLocal.flags_off p (Ne.symm hOwn)
        rw [State.flag, State.flag, hSame, hSame']
      rw [if_neg hOwn, if_neg hOwn, hFlag]
      omega
  · have hChange : Lib.tally v.engine x'.issued e = Lib.tally v.engine x.issued e +
        if v.engine (v.processor t) = e then
          x'.issued (v.processor t) - x.issued (v.processor t) else 0 :=
      Lib.tally_change (v.processor t) (fun p hp => by
        rw [hIssued p, if_neg (Ne.symm hp)]
        omega) e
    have hOwn := hIssued (v.processor t)
    rw [if_pos rfl] at hOwn
    rw [hChange, ← h.engines e, hLocal.votes e]
    show _ + (if v.engineOf t = e then _ else 0) = _ + if v.engineOf t = e then _ else 0
    split_ifs <;> omega

/-- A processor with a thread that is neither asleep nor ended carries no mark. -/
theorem Once.unmarked (h : Once v x) (hAwake : ¬ (x.s.pc t).Parked) :
    x.s.sleeping (v.processor t) = false ∧ x.s.ended (v.processor t) = false := by
  constructor
  · by_contra hNot
    exact hAwake ((h.sleeping _ (Bool.eq_true_of_not_eq_false hNot)).1 t rfl)
  · by_contra hNot
    exact hAwake (Or.inr (h.ended _ (Bool.eq_true_of_not_eq_false hNot) t rfl))

/-- A turn that keeps the flags, of a thread that stays asleep if it was and ended if it had. -/
theorem Once.of_same_flags (h : Once v x) (hLocal : Local v x.s x'.s t)
    (hOwn : (x'.s.pc t).isWaking = false)
    (hIssued : ∀ p, x'.issued p = x.issued p + if v.processor t = p then
      x'.s.processorsSleeping (v.engineOf t) - x.s.processorsSleeping (v.engineOf t) else 0)
    (hSleeping : x'.s.sleeping = x.s.sleeping) (hEnded : x'.s.ended = x.s.ended)
    (hAsleep : (x.s.pc t).isAsleep = true → (x'.s.pc t).isAsleep = true)
    (hEnd : (x.s.pc t).isEnded = true → (x'.s.pc t).isEnded = true) : Once v x' := by
  have hKept : ∀ t', ((x.s.pc t').isAsleep = true → (x'.s.pc t').isAsleep = true) ∧
      ((x.s.pc t').isEnded = true → (x'.s.pc t').isEnded = true) := by
    intro t'
    by_cases ht : t' = t
    · subst ht
      exact ⟨hAsleep, hEnd⟩
    · rw [hLocal.pc_off t' ht]
      exact ⟨id, id⟩
  refine h.of_local hLocal hOwn hIssued (fun hp => ?_) (fun hp => ?_)
  · rw [hSleeping] at hp
    obtain ⟨hAll, t', ht', hOne⟩ := h.sleeping _ hp
    exact ⟨fun t'' ht'' => (hAll t'' ht'').imp (hKept t'').1 (hKept t'').2, t', ht',
      (hKept t').1 hOne⟩
  · rw [hEnded] at hp
    exact fun t' ht' => (hKept t').2 (h.ended _ hp t' ht')

-- ---------------------------------------------------------------------------
-- The turns
-- ---------------------------------------------------------------------------

theorem once_start (h : Once v x) {s' : State E P T} (hStep : v.step x.s (.start t) = some s') :
    Once v { x with s := s' } := by
  have hPlain := plain_start hStep
  have hSame : s'.processorsSleeping = x.s.processorsSleeping := by
    unfold Server.step at hStep
    obtain ⟨-, rfl⟩ := enabled_eq_some hStep
    rfl
  have hOld : x.s.pc t = .created := by
    unfold Server.step at hStep
    exact (enabled_eq_some hStep).1
  have hNew : s'.pc t = .working := by
    unfold Server.step at hStep
    obtain ⟨-, rfl⟩ := enabled_eq_some hStep
    exact Function.update_self ..
  refine h.of_same_flags hPlain.books (by rw [hNew]; rfl)
    (fun p => by simp [hSame]) hPlain.sleeping hPlain.ended ?_ ?_
  · intro hAsleep
    rw [hOld] at hAsleep
    exact absurd hAsleep (by decide)
  · intro hEnded
    rw [hOld] at hEnded
    exact absurd hEnded (by decide)

theorem updateSleeping_processorsSleeping (s : State E P T) (t : T) (n : Int) (a : After) :
    (v.updateSleeping s t n a).processorsSleeping = s.processorsSleeping := by
  unfold Server.updateSleeping
  dsimp only [State.setPc]
  split
  · split
    · rfl
    · rfl
  · split
    · rfl
    · rfl

/-- `UpdateSleeping` goes on to a report or to the continuation. -/
theorem updateSleeping_pc (s : State E P T) (t : T) (n : Int) (a : After) :
    ((v.updateSleeping s t n a).pc t).isWaking = false := by
  have hAfter : a.pc.isWaking = false := by cases a <;> rfl
  obtain ⟨-, hCases⟩ := updateSleeping_cases v s t n a
  rcases hCases with ⟨-, hNew, -⟩ | ⟨-, -, hNew⟩ | ⟨-, -, hNew⟩ | ⟨-, hNew, -⟩
  · rw [hNew]
    rfl
  · rw [hNew]
    exact hAfter
  · rw [hNew]
    rfl
  · rw [hNew]
    exact hAfter

/-- The last thread that goes to sleep marks the processor, if all of its threads have started. -/
theorem once_sleep (h : Once v x) (hOk : AllStarted v x (.sleep t)) (hPc : x.s.pc t = .working) :
    Once v { x with s := v.updateSleeping x.s t 1 .block } := by
  have hLocal := local_sleep (v := v) hPc
  have hSent := updateSleeping_processorsSleeping (v := v) x.s t 1 .block
  have hOwn := updateSleeping_pc (v := v) x.s t 1 .block
  obtain ⟨hAwake, hGoing⟩ := h.unmarked (t := t) (by rw [hPc]; simp [Pc.Parked, Pc.isAsleep,
    Pc.isEnded, Pc.after])
  obtain ⟨⟨-, hSameEnded, -, -⟩, hCases⟩ := updateSleeping_cases v x.s t 1 .block
  generalize v.updateSleeping x.s t 1 .block = s' at *
  refine h.of_local hLocal hOwn (fun p => by simp [hSent]) (fun hp => ?_) (fun hp => ?_)
  · rcases hCases with ⟨hOld, -⟩ | ⟨hOld, -⟩ | ⟨-, hFull, hNew⟩ | ⟨-, -, hStay⟩
    · rw [hAwake] at hOld
      exact absurd hOld (by decide)
    · rw [hAwake] at hOld
      exact absurd hOld (by decide)
    · refine ⟨fun t' ht' => ?_, t, rfl, by dsimp only; rw [hNew]; rfl⟩
      dsimp only
      have hStarted : s'.pc t' ≠ .created := by
        by_cases ht : t' = t
        · subst ht
          rw [hNew]
          exact Pc.noConfusion
        · rw [hLocal.pc_off t' ht]
          exact hOk hFull t' ht'
      -- as many threads sleep as are running, so each running one sleeps
      have hSame : (s'.pc t').asleep = (s'.pc t').running := by
        refine Lib.eq_of_tally_le (f := fun t => (s'.pc t).asleep) (g := fun t => (s'.pc t).running)
          (fun t _ => Pc.asleep_le_running _) ?_ ht'
        rw [hLocal.tally_pc v.processor Pc.asleep, hLocal.tally_pc v.processor Pc.running,
          ← h.asleep, ← h.running, if_pos rfl, if_pos rfl, hNew, hPc]
        show x.s.runningThreads (v.processor t) + 0 ≤ x.s.sleepingThreads (v.processor t) + 1
        omega
      by_cases hEnded : (s'.pc t').isEnded = true
      · exact Or.inr hEnded
      · left
        rw [Pc.running_eq_one hStarted (eq_false_of_ne_true hEnded)] at hSame
        exact Pc.isAsleep_of_asleep hSame
    · rw [hStay] at hp
      exact absurd hp (by decide)
  · rw [hSameEnded, hGoing] at hp
    exact absurd hp (by decide)

/-- The first thread that wakes up clears the mark. -/
theorem once_wake (h : Once v x) (hPc : x.s.pc t = .blocked) :
    Once v { x with s := v.updateSleeping x.s t (-1) .work } := by
  have hLocal : Local v x.s (v.updateSleeping x.s t (-1) .work) t := by
    refine local_updateSleeping ?_ ?_ ?_ ?_ ?_ ?_ <;> rw [hPc] <;> rfl
  have hSent := updateSleeping_processorsSleeping (v := v) x.s t (-1) .work
  have hOwn := updateSleeping_pc (v := v) x.s t (-1) .work
  have hGoing : ¬ x.s.ended (v.processor t) = true := by
    intro hEnded
    have hEnd := h.ended _ hEnded t rfl
    rw [hPc] at hEnd
    exact absurd hEnd (by decide)
  have hLe : x.s.sleepingThreads (v.processor t) ≤ x.s.runningThreads (v.processor t) := by
    rw [h.asleep, h.running]
    exact Lib.tally_le fun t' _ => Pc.asleep_le_running _
  obtain ⟨⟨-, hSameEnded, -, -⟩, hCases⟩ := updateSleeping_cases v x.s t (-1) .work
  generalize v.updateSleeping x.s t (-1) .work = s' at *
  refine h.of_local hLocal hOwn (fun p => by simp [hSent]) (fun hp => ?_) (fun hp => ?_)
  · rcases hCases with ⟨-, -, hClear⟩ | ⟨-, hTooMany, -⟩ | ⟨-, hTooMany, -⟩ | ⟨-, -, hClear⟩
    · rw [hClear] at hp
      exact absurd hp (by decide)
    · omega
    · omega
    · rw [hClear] at hp
      exact absurd hp (by decide)
  · rw [hSameEnded] at hp
    exact absurd hp hGoing

theorem once_exit (h : Once v x) (hPc : x.s.pc t = .working) :
    Once v { x with s := x.s.setPc t .finishing } := by
  have hLocal : Local v x.s (x.s.setPc t .finishing) t := by
    refine Local.of_work (p := v.processor t) rfl rfl (fun t' ht => Function.update_of_ne ht _ _)
      (fun _ _ => rfl) (fun _ _ => rfl) (fun _ _ => rfl) ?_ ?_ ?_ ?_ ?_
      (calls_of_same rfl rfl (fun t' ht => Function.update_of_ne ht _ _) ?_)
    all_goals simp only [State.setPc, Function.update_self, hPc]
    · rfl
    · rfl
    · rfl
    · rfl
    · exact le_refl _
    · exact le_refl (0 : Int)
  refine h.of_same_flags hLocal (by simp [State.setPc, Pc.isWaking])
    (fun p => by simp [State.setPc]) rfl rfl
    ?_ ?_
  · intro hAsleep
    rw [hPc] at hAsleep
    exact absurd hAsleep (by decide)
  · intro hEnded
    rw [hPc] at hEnded
    exact absurd hEnded (by decide)

/-- The last thread that ends ends the processor, if all of its threads have started. -/
theorem once_finish (h : Once v x) (hOk : AllStarted v x (.finish t))
    (hPc : x.s.pc t = .finishing) : Once v { x with s := v.threadFinished x.s t } := by
  obtain ⟨hAwake, hGoing⟩ := h.unmarked (t := t) (by rw [hPc]; simp [Pc.Parked, Pc.isAsleep,
    Pc.isEnded, Pc.after])
  have hLocal := local_threadFinished hPc hGoing
  by_cases hLast : x.s.runningThreads (v.processor t) - 1 = 0
  · have hNew : (v.threadFinished x.s t).pc t = .psleep .done ∧
        (v.threadFinished x.s t).sleeping = x.s.sleeping ∧
        (v.threadFinished x.s t).processorsSleeping = x.s.processorsSleeping := by
      simp [Server.threadFinished, hLast, State.setPc]
    generalize v.threadFinished x.s t = s' at *
    refine h.of_local hLocal (by rw [hNew.1]; rfl) (fun p => by simp [hNew.2.2])
      (fun hp => ?_) (fun _ t' ht' => ?_)
    · rw [hNew.2.1, hAwake] at hp
      exact absurd hp (by decide)
    · -- no thread is running any more, and none is still to start
      refine Pc.isEnded_of_running ?_ (Lib.eq_zero_of_tally (fun t _ => Pc.running_nonneg _) ?_ ht')
      · by_cases ht : t' = t
        · subst ht
          rw [hNew.1]
          exact Pc.noConfusion
        · rw [hLocal.pc_off t' ht]
          exact hOk (by omega) t' ht'
      · rw [hLocal.tally_pc v.processor Pc.running, ← h.running, if_pos rfl, hNew.1, hPc]
        show x.s.runningThreads (v.processor t) + (-1) ≤ 0
        omega
  · have hNew : (v.threadFinished x.s t).pc t = .finished ∧
        (v.threadFinished x.s t).sleeping = x.s.sleeping ∧
        (v.threadFinished x.s t).ended = x.s.ended ∧
        (v.threadFinished x.s t).processorsSleeping = x.s.processorsSleeping := by
      simp [Server.threadFinished, hLast, State.setPc]
    refine h.of_same_flags hLocal (by dsimp only; rw [hNew.1]; rfl)
      (fun p => by simp [hNew.2.2.2]) hNew.2.1 hNew.2.2.1 ?_ ?_
    · intro hAsleep
      rw [hPc] at hAsleep
      exact absurd hAsleep (by decide)
    · intro hEnded
      rw [hPc] at hEnded
      exact absurd hEnded (by decide)

/-- The report reaches the engine. -/
theorem once_report (h : Once v x) {s' : State E P T} {n : Int}
    (hReport : v.report x.s t = some s')
    (hSent : s'.processorsSleeping (v.engineOf t) = x.s.processorsSleeping (v.engineOf t) + n) :
    Once v ⟨s', Function.update x.issued (v.processor t) (x.issued (v.processor t) + n)⟩ := by
  obtain ⟨-, hSleeping, hEnded, -, a, hAfter, hNew⟩ := report_frame hReport
  have hPc : s'.pc t = a.pc ∨ (s'.pc t).after = some a := by
    rcases hNew with hNew | hNew | hNew | hNew | hNew | hNew <;> rw [hNew]
    · exact .inl rfl
    all_goals exact .inr rfl
  have hOwn : (s'.pc t).isWaking = false := by
    rcases hNew with hNew | hNew | hNew | hNew | hNew | hNew <;> rw [hNew]
    · cases a <;> rfl
    all_goals rfl
  refine h.of_same_flags (local_report hReport) hOwn (fun p => ?_) hSleeping hEnded ?_ ?_
  · have hDelta : s'.processorsSleeping (v.engineOf t) -
        x.s.processorsSleeping (v.engineOf t) = n := by omega
    rw [hDelta]
    exact update_add _ _ _ _
  · rw [← Pc.isAsleep_of_after hAfter]
    rcases hPc with hBack | hWithin
    · rw [hBack]
      exact id
    · rw [Pc.isAsleep_of_after hWithin]
      exact id
  · rw [← Pc.isEnded_of_after hAfter]
    rcases hPc with hBack | hWithin
    · rw [hBack]
      exact id
    · rw [Pc.isEnded_of_after hWithin]
      exact id

theorem once_back (h : Once v x) {a : After} (hPc : x.s.pc t = .check a) :
    Once v { x with s := x.s.setPc t a.pc } := by
  have hOld : (x.s.pc t).after = some a := by rw [hPc]; rfl
  have hPlain : (x.s.pc t).vote = 0 ∧ (x.s.pc t).owes = a.owes ∧ (x.s.pc t).claim = 0 := by
    rw [hPc]
    exact ⟨rfl, rfl, rfl⟩
  have hLocal : Local v x.s (x.s.setPc t a.pc) t := by
    refine Local.of_report (n := 0) hOld (.inl rfl) rfl rfl ⟨rfl, rfl⟩ ⟨rfl, rfl⟩ ⟨rfl, rfl⟩
      ⟨rfl, rfl⟩ (fun e => ?_) (fun e => ?_) ?_ (fun _ _ => rfl) ?_
    · simp [State.setPc, Pc.vote_after, hPlain.1]
    · simp [State.setPc]
    · rw [hPlain.2.1, add_zero]
      exact Pc.owes_after_le a
    · simp [State.setPc, Pc.claim_after, hPlain.2.2]
  have hNew : (x.s.setPc t a.pc).pc t = a.pc := Function.update_self ..
  refine h.of_same_flags hLocal ?_ (fun p => by simp [State.setPc]) rfl rfl ?_ ?_
  · dsimp only
    rw [hNew]
    cases a <;> rfl
  · rw [← Pc.isAsleep_of_after hOld]
    dsimp only
    rw [hNew]
    exact id
  · rw [← Pc.isEnded_of_after hOld]
    dsimp only
    rw [hNew]
    exact id

theorem once_turn {a : Turn T} (h : Once v x) (hOk : AllStarted v x a)
    (hTurn : v.turn x a = some x') : Once v x' := by
  cases a with
  | start t =>
    obtain ⟨s', hStep, rfl⟩ := Option.map_eq_some_iff.mp hTurn
    exact once_start h hStep
  | sleep t =>
    simp only [Server.turn] at hTurn
    split at hTurn
    · cases hTurn
    · obtain ⟨s', hStep, rfl⟩ := Option.map_eq_some_iff.mp hTurn
      obtain ⟨hPc, rfl⟩ := working_eq_some hStep
      exact once_sleep h hOk hPc
  | wake t =>
    simp only [Server.turn] at hTurn
    split at hTurn
    · obtain rfl := Option.some.inj hTurn
      exact once_wake h ‹_›
    · cases hTurn
  | exit t =>
    obtain ⟨s', hStep, rfl⟩ := Option.map_eq_some_iff.mp hTurn
    obtain ⟨hPc, rfl⟩ := working_eq_some hStep
    exact once_exit h hPc
  | finish t =>
    simp only [Server.turn] at hTurn
    split at hTurn
    · obtain rfl := Option.some.inj hTurn
      exact once_finish h hOk ‹_›
    · cases hTurn
  | report t =>
    simp only [Server.turn] at hTurn
    split at hTurn
    · rename_i a hPc
      obtain ⟨s', hReport, rfl⟩ := Option.map_eq_some_iff.mp hTurn
      refine once_report h hReport ?_
      simp only [Server.report, hPc, Option.some.injEq] at hReport
      rw [← hReport]
      exact Function.update_self ..
    · rename_i a hPc
      obtain ⟨s', hReport, rfl⟩ := Option.map_eq_some_iff.mp hTurn
      refine once_report h hReport ?_
      simp only [Server.report, hPc, Option.some.injEq] at hReport
      rw [← hReport]
      exact Function.update_self ..
    · cases hTurn
  | back t =>
    simp only [Server.turn] at hTurn
    split at hTurn
    · rename_i a hPc
      obtain rfl := Option.some.inj hTurn
      exact once_back h hPc
    · cases hTurn

theorem once_untracked (v : Server E P T) : Once v Server.untracked := by
  refine ⟨fun t => rfl, fun p => ?_, fun p => ?_, fun p hp => ?_, fun p hp => ?_,
    fun p => ?_, fun e => ?_⟩
  · exact Lib.tally_zero.symm
  · exact Lib.tally_zero.symm
  · exact absurd hp (by simp [Server.untracked, Server.initial])
  · exact absurd hp (by simp [Server.untracked, Server.initial])
  · show (0 : Int) = 0 + Lib.tally v.processor (fun _ => 0) p
    rw [Lib.tally_zero, add_zero]
  · exact Lib.tally_zero.symm

-- ---------------------------------------------------------------------------
-- No report in flight
-- ---------------------------------------------------------------------------

/-- No thread of processor `p` is inside `ProcessorSleeping` or `ProcessorWakeup`. -/
def NoneInFlight (v : Server E P T) (x : Tracked E P T) (p : P) : Prop :=
  ∀ t, v.processor t = p → (x.s.pc t).after = none

/-- Without a report in flight, what has reached the engine is what the flags say. -/
theorem Once.issued_eq_flag (h : Once v x) {p : P} (hQuiet : NoneInFlight v x p) :
    x.issued p = x.s.flag p := by
  have hNone : Lib.tally v.processor (fun t => (x.s.pc t).vote) p = 0 := by
    have hZero : Lib.tally v.processor (fun t => (x.s.pc t).vote) p =
        Lib.tally v.processor (fun _ => 0) p := by
      refine Lib.tally_congr fun t ht => ?_
      have hAfter := hQuiet t ht
      cases hPc : x.s.pc t <;> rw [hPc] at hAfter <;> first | rfl | cases hAfter
    rw [hZero, Lib.tally_zero]
  rw [h.issued, hNone, add_zero]

/-- The two marks exclude each other: one needs a thread asleep, the other none. -/
theorem Once.flag_cases (h : Once v x) (p : P) :
    x.s.flag p = 0 ∨ x.s.flag p = 1 ∧ ∀ t, v.processor t = p → (x.s.pc t).Parked := by
  unfold State.flag
  cases hSleeping : x.s.sleeping p with
  | false =>
    cases hEnded : x.s.ended p with
    | false => exact Or.inl rfl
    | true => exact Or.inr ⟨rfl, fun t ht => Or.inr (h.ended p hEnded t ht)⟩
  | true =>
    obtain ⟨hAll, t, ht, hAsleep⟩ := h.sleeping p hSleeping
    cases hEnded : x.s.ended p with
    | false => exact Or.inr ⟨rfl, hAll⟩
    | true =>
      have hEnd := h.ended p hEnded t ht
      cases hPc : x.s.pc t <;> rw [hPc] at hAsleep hEnd <;>
        simp_all [Pc.isAsleep, Pc.isEnded, Pc.after]

/-- **Each processor is counted as sleeping at most once.** Take any number of engines,
processors and threads and any order of their turns, such that a processor whose last running
thread goes to sleep or ends has no thread that has still to begin. In the state reached:

* once no report of a processor is in flight, its `ProcessorSleeping` reports exceed its
  `ProcessorWakeup` reports by 0 or 1, and by 1 only if each of its threads is asleep in the
  input queue or has finished;
* once no report of an engine's processors is in flight, its `processorsSleeping` lies
  between 0 and the number of its processors.
-/
theorem processor_reported_once (v : Server E P T) (as : List (Turn T)) {x : Tracked E P T}
    (hRun : Lib.run v.turn Server.untracked as = some x)
    (hOk : Lib.AllOk v.turn (AllStarted v) Server.untracked as) :
    (∀ p, NoneInFlight v x p → (x.issued p = 0 ∨ x.issued p = 1) ∧
      (x.issued p = 1 → ∀ t, v.processor t = p →
        x.s.pc t = .blocked ∨ x.s.pc t = .finished)) ∧
    ∀ e, (∀ p, v.engine p = e → NoneInFlight v x p) →
      0 ≤ x.s.processorsSleeping e ∧ x.s.processorsSleeping e ≤ Lib.size v.engine e := by
  have hOnce : Once v x := Lib.run_invariant_of_ok (Once v)
    (fun _ _ _ h hOk hTurn => once_turn h hOk hTurn) hOk hRun (once_untracked v)
  refine ⟨fun p hQuiet => ?_, fun e hQuiet => ?_⟩
  · rw [hOnce.issued_eq_flag hQuiet]
    rcases hOnce.flag_cases p with hZero | ⟨hFlag, hParked⟩
    · refine ⟨Or.inl hZero, fun hFlag => ?_⟩
      rw [hZero] at hFlag
      exact absurd hFlag (by decide)
    · refine ⟨Or.inr hFlag, fun _ t ht => ?_⟩
      have hHere := hParked t ht
      have hAfter := hQuiet t ht
      have hNotWaking := hOnce.noWaking t
      simp only [Pc.isWaking, Bool.or_eq_false_iff, decide_eq_false_iff_not] at hNotWaking
      simpa only [Pc.Parked, Pc.isAsleep, Pc.isEnded, hAfter, hNotWaking.1, hNotWaking.2,
        decide_false,
        Bool.or_false, decide_eq_true_eq, reduceCtorEq] using hHere
  · rw [hOnce.engines e]
    have hBounds : ∀ p, v.engine p = e → 0 ≤ x.issued p ∧ x.issued p ≤ 1 := by
      intro p hp
      rw [hOnce.issued_eq_flag (hQuiet p hp)]
      rcases hOnce.flag_cases p with hZero | ⟨hFlag, -⟩
      · omega
      · omega
    exact ⟨Lib.tally_nonneg fun p hp => (hBounds p hp).1,
      Lib.tally_le fun p hp => (hBounds p hp).2⟩

-- ---------------------------------------------------------------------------
-- Two threads that start one after the other
-- ---------------------------------------------------------------------------

/-- Both threads begin before the first one goes to sleep: one report, and both sleep. -/
def bothAsleep : List (Turn Bool) :=
  [.start true, .start false, .sleep true, .sleep false, .report false, .back false]

theorem processor_reported_once_bothAsleep :
    ∃ x, Lib.run (twoThreads false).turn Server.untracked bothAsleep = some x ∧
      x.issued () = 1 ∧ (∀ t, x.s.pc t = .blocked ∨ x.s.pc t = .finished) ∧
      x.s.processorsSleeping () ≤ Lib.size (twoThreads false).engine () := by
  obtain ⟨hReports, hCount⟩ := processor_reported_once (twoThreads false) bothAsleep rfl (by decide)
  refine ⟨_, rfl, rfl, fun t => (hReports () fun t _ => ?_).2 rfl t rfl,
    (hCount () fun p _ t _ => ?_).2⟩
  · cases t <;> rfl
  · cases t <;> rfl

/-- The first thread of an INPUT processor ends before the second one begins: both report, and
the engine counts two sleeping processors where there is one. -/
theorem late_thread_reports_twice :
    ∃ x, Lib.run (twoThreads true).turn Server.untracked
        [.start true, .exit true, .finish true, .report true, .back true,
          .start false, .exit false, .finish false, .report false, .back false] = some x ∧
      NoneInFlight (twoThreads true) x () ∧ x.issued () = 2 ∧
      Lib.size (twoThreads true).engine () < x.s.processorsSleeping () := by
  refine ⟨_, rfl, fun t _ => ?_, rfl, by decide⟩
  cases t <;> rfl

end HectorCore.Batch
