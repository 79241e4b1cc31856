import HectorCore.Batch.Bookkeeping

set_option linter.unusedSectionVars false

/-!
# Threads — the counters of a batch server count, and the processors' flags are true

What holds after every step under the condition `OnTime`, whatever the reports that are under
way.

* `Threads` — a thread's program counter fits its processor and what it has in its hands; the
  counters of a processor count its threads, and its flags are true of all of them;
* `Books`   — the counters of the engines and of the server are sums over the program counters.
-/

namespace HectorCore.Batch

-- ---------------------------------------------------------------------------
-- What a thread may be doing
-- ---------------------------------------------------------------------------

/-- For a thread with `n` resources in its hands, of an INPUT processor or of another one. -/
def After.Fits (input : Bool) (n : Nat) : After → Prop
  | .block => input = false
  | .enter | .enterCall => input = false ∧ 1 ≤ n
  | .work => True
  | .workCall => 1 ≤ n
  | .done => input = true

/-- Where a thread can be, by the kind of its processor and the resources of its engine. -/
def Pc.Fits (input : Bool) (n : Nat) : Pc → Prop
  | .created | .working => True
  | .blocked => input = false
  | .waking | .wakingCall => input = false ∧ 1 ≤ n
  | .finishing | .finished => input = true
  | .psleep a => a.Fits input n ∧ (a = .block ∨ a = .done)
  | .pwake a => a.Fits input n ∧ 1 ≤ n
  | .count k a => k ≤ n ∧ (a = .work ∨ a = .workCall ∧ 1 ≤ n)
  | .check a | .srvSleep a | .srvStuck a | .srvYield a | .srvWake a => a.Fits input n

namespace Pc

variable {input : Bool} {n : Nat} {pc : Pc}

/-- What comes next fits if it was meant to. -/
theorem Fits.of_after {a : After} (h : a.Fits input n) : a.pc.Fits input n := by
  cases a with
  | block | done => exact h
  | enter => exact ⟨by exact_mod_cast h.2, .inl rfl⟩
  | enterCall => exact ⟨by exact_mod_cast h.2, .inr ⟨rfl, h.2⟩⟩
  | work | workCall => trivial

theorem Fits.after {a : After} (h : pc.Fits input n) (hAfter : pc.after = some a) :
    a.Fits input n := by
  cases pc <;> simp only [Pc.after, Option.some.injEq, reduceCtorEq] at hAfter <;> subst hAfter
  case psleep => exact h.1
  case pwake => exact h.1
  case count =>
    rcases h.2 with rfl | ⟨rfl, hHas⟩
    · trivial
    · exact hHas
  all_goals exact h

/-- A thread owes no more than its processor has taken. -/
theorem Fits.owes_le (h : pc.Fits input n) : pc.owes ≤ n := by
  by_cases hCount : ∃ k a, pc = .count k a
  · obtain ⟨k, a, rfl⟩ := hCount
    exact h.1
  · cases hAfter : pc.after with
    | some a =>
      have hFits := h.after hAfter
      rw [owes_of_after hAfter fun k hk => hCount ⟨k, a, hk⟩]
      cases a with
      | enterCall => exact (by exact_mod_cast hFits.2 : (1 : Int) ≤ n)
      | block | enter | work | workCall | done => exact Int.natCast_nonneg n
    | none =>
      cases pc with
      | wakingCall => exact (by exact_mod_cast h.2 : (1 : Int) ≤ n)
      | created | working | blocked | waking | finishing | finished => exact Int.natCast_nonneg n
      | psleep | pwake | count | check | srvSleep | srvStuck | srvYield | srvWake => cases hAfter

/-- A request that is being taken in is in the thread's hands. -/
theorem Fits.of_isTaking (h : pc.Fits input n) (hTaking : pc.isTaking = true) : 1 ≤ n := by
  simp only [isTaking, Bool.or_eq_true, decide_eq_true_eq] at hTaking
  obtain (rfl | hAfter) | hAfter := hTaking
  · exact h.2
  · exact (h.after hAfter).2
  · exact h.after hAfter

/-- A thread sleeps only in a processor with an input queue, and ends only in one without. -/
theorem Fits.of_isAsleep (h : pc.Fits input n) (hAsleep : pc.isAsleep = true) : input = false := by
  simp only [isAsleep, Bool.or_eq_true, decide_eq_true_eq] at hAsleep
  obtain ((rfl | rfl) | rfl) | hAfter := hAsleep
  · exact h
  · exact h.1
  · exact h.1
  · exact h.after hAfter

theorem Fits.of_isEnded (h : pc.Fits input n) (hEnded : pc.isEnded = true) : input = true := by
  simp only [isEnded, Bool.or_eq_true, decide_eq_true_eq] at hEnded
  obtain rfl | hAfter := hEnded
  · exact h
  · exact h.after hAfter

/-- A thread sleeps once. -/
theorem asleep_le_one (pc : Pc) : pc.asleep ≤ 1 := by
  unfold asleep
  split <;> decide

theorem isAsleep_of_asleep (h : pc.asleep = 1) : pc.isAsleep = true := by
  by_contra hNot
  rw [asleep, if_neg hNot] at h
  exact absurd h (by decide)

theorem running_nonneg (pc : Pc) : 0 ≤ pc.running := by
  unfold running
  split <;> decide

/-- A thread that has begun and not ended runs. -/
theorem running_eq_one (hCreated : pc ≠ .created) (hEnded : pc.isEnded = false) :
    pc.running = 1 := by
  simp [running, hCreated, hEnded]

theorem isEnded_of_running (hCreated : pc ≠ .created) (h : pc.running = 0) : pc.isEnded = true := by
  by_contra hNot
  rw [running_eq_one hCreated (Bool.eq_false_of_not_eq_true hNot)] at h
  exact absurd h (by decide)

/-- A sleeping thread is a running one. -/
theorem running_of_isAsleep (h : pc.isAsleep = true) : pc.running = 1 := by
  cases pc <;> simp_all [isAsleep, Pc.after, running, isEnded]

/-- Who sleeps runs, as far as the counters go. -/
theorem asleep_le_running (pc : Pc) : pc.asleep ≤ pc.running := by
  by_cases h : pc.isAsleep = true
  · rw [running_of_isAsleep h]
    exact asleep_le_one pc
  · rw [asleep, if_neg h]
    exact running_nonneg pc

end Pc

variable {E P T : Type} [Fintype E] [Fintype P] [Fintype T]
  [DecidableEq E] [DecidableEq P] [DecidableEq T]
  {v : Server E P T} {s s' : State E P T} {t : T}

-- ---------------------------------------------------------------------------
-- The processors
-- ---------------------------------------------------------------------------

/-- The counters of the processors count, and their flags are true of all of their threads. -/
structure Threads (v : Server E P T) (s : State E P T) : Prop where
  fits : ∀ t, (s.pc t).Fits (v.isInput (v.processor t)) (s.hand t)
  running : ∀ p, s.runningThreads p = Lib.tally v.processor (fun t => (s.pc t).running) p
  asleep : ∀ p, s.sleepingThreads p = Lib.tally v.processor (fun t => (s.pc t).asleep) p
  sleeping : ∀ p, s.sleeping p = true →
    v.isInput p = false ∧ ∀ t, v.processor t = p → (s.pc t).isAsleep = true
  ended : ∀ p, s.ended p = true →
    v.isInput p = true ∧ ∀ t, v.processor t = p → (s.pc t).isEnded = true

/-- A value of one thread changes with its program counter. -/
theorem Local.tally_pc {K : Type} [DecidableEq K] (hLocal : Local v s s' t) (key : T → K)
    (f : Pc → Int) (k : K) :
    Lib.tally key (fun t => f (s'.pc t)) k = Lib.tally key (fun t => f (s.pc t)) k +
      if key t = k then f (s'.pc t) - f (s.pc t) else 0 :=
  Lib.tally_change t (fun t' ht => by rw [hLocal.pc_off t' ht]) k

theorem Local.held_off (hLocal : Local v s s' t) (t' : T) (ht : t' ≠ t) : s'.held t' =
    s.held t' := by
  rw [State.held, State.held, State.lent, State.lent, hLocal.hand_off t' ht, hLocal.asked_off t' ht]

/-- The counters follow from the bookkeeping; what is left are the thread itself and the flags
of its processor. -/
theorem Threads.of_local (h : Threads v s) (hLocal : Local v s s' t)
    (hFits : (s'.pc t).Fits (v.isInput (v.processor t)) (s'.hand t))
    (hSleeping : s'.sleeping (v.processor t) = true → v.isInput (v.processor t) = false ∧
      ∀ t', v.processor t' = v.processor t → (s'.pc t').isAsleep = true)
    (hEnded : s'.ended (v.processor t) = true → v.isInput (v.processor t) = true ∧
      ∀ t', v.processor t' = v.processor t → (s'.pc t').isEnded = true) : Threads v s' := by
  refine ⟨fun t' => ?_, fun p => ?_, fun p => ?_, fun p hp => ?_, fun p hp => ?_⟩
  · by_cases ht : t' = t
    · subst ht
      exact hFits
    · rw [hLocal.pc_off t' ht, hLocal.hand_off t' ht]
      exact h.fits t'
  · rw [hLocal.running p, h.running p, hLocal.tally_pc v.processor Pc.running p]
  · rw [hLocal.asleep p, h.asleep p, hLocal.tally_pc v.processor Pc.asleep p]
  · by_cases hOwn : p = v.processor t
    · subst hOwn
      exact hSleeping hp
    · rw [(hLocal.flags_off p hOwn).1] at hp
      refine ⟨(h.sleeping p hp).1, fun t' ht' => ?_⟩
      rw [hLocal.pc_off t' (by rintro rfl; exact hOwn ht'.symm)]
      exact (h.sleeping p hp).2 t' ht'
  · by_cases hOwn : p = v.processor t
    · subst hOwn
      exact hEnded hp
    · rw [(hLocal.flags_off p hOwn).2] at hp
      refine ⟨(h.ended p hp).1, fun t' ht' => ?_⟩
      rw [hLocal.pc_off t' (by rintro rfl; exact hOwn ht'.symm)]
      exact (h.ended p hp).2 t' ht'

/-- A step that keeps the flags, of a thread that stays asleep if it was and ended if it had. -/
theorem Threads.of_same_flags (h : Threads v s) (hLocal : Local v s s' t)
    (hFits : (s'.pc t).Fits (v.isInput (v.processor t)) (s'.hand t))
    (hSleeping : s'.sleeping = s.sleeping) (hEnded : s'.ended = s.ended)
    (hAsleep : (s.pc t).isAsleep = true → (s'.pc t).isAsleep = true)
    (hEnd : (s.pc t).isEnded = true → (s'.pc t).isEnded = true) : Threads v s' := by
  refine h.of_local hLocal hFits (fun hp => ?_) (fun hp => ?_)
  · rw [hSleeping] at hp
    refine ⟨(h.sleeping _ hp).1, fun t' ht' => ?_⟩
    have hBefore := (h.sleeping _ hp).2 t' ht'
    by_cases ht : t' = t
    · subst ht
      exact hAsleep hBefore
    · rw [hLocal.pc_off t' ht]
      exact hBefore
  · rw [hEnded] at hp
    refine ⟨(h.ended _ hp).1, fun t' ht' => ?_⟩
    have hBefore := (h.ended _ hp).2 t' ht'
    by_cases ht : t' = t
    · subst ht
      exact hEnd hBefore
    · rw [hLocal.pc_off t' ht]
      exact hBefore

/-- Steps that leave the counters alone. -/
theorem threads_plain (h : Threads v s) (hPlain : Plain v s s' t) : Threads v s' := by
  refine h.of_same_flags hPlain.books ?_ hPlain.sleeping hPlain.ended ?_ ?_
  · rcases hPlain.turn with ⟨-, hNew | ⟨n, a, hNew, hHand, ha⟩ | ⟨hNew, hInput⟩⟩ | ⟨hPc, hHas, hNew⟩
    · rw [hNew]
      trivial
    · rw [hNew]
      refine ⟨hHand, ha.imp_right fun hCall => ⟨hCall.1, ?_⟩⟩
      have hOne := hCall.2
      omega
    · rw [hNew]
      exact hInput
    · have hBlocked := h.fits t
      rw [hPc] at hBlocked
      rcases hNew with ⟨hNew, -⟩ | hNew <;> rw [hNew] <;> exact ⟨hBlocked, hHas⟩
  · intro hAsleep
    rcases hPlain.turn with ⟨hPc | hPc, -⟩ | ⟨-, -, ⟨hNew, -⟩ | hNew⟩
    · rw [hPc] at hAsleep
      exact absurd hAsleep (by decide)
    · rw [hPc] at hAsleep
      exact absurd hAsleep (by decide)
    · rw [hNew]
      rfl
    · rw [hNew]
      rfl
  · intro hEnded
    rcases hPlain.turn with ⟨hPc | hPc, -⟩ | ⟨hPc, -⟩ <;> rw [hPc] at hEnded <;>
      exact absurd hEnded (by decide)

/-- The four ways through `UpdateSleeping`. -/
theorem updateSleeping_cases (v : Server E P T) (s : State E P T) (t : T) (n : Int) (a : After) :
    let p := v.processor t
    let s' := v.updateSleeping s t n a
    (s'.hand = s.hand ∧ s'.ended = s.ended ∧ s'.engineSleeping = s.engineSleeping ∧
      s'.resourceCount = s.resourceCount ∧ SameServer s s') ∧
    ((s.sleeping p = true ∧ s'.pc t = .pwake a ∧ s'.sleeping p = false) ∨
    (s.sleeping p = true ∧ s.runningThreads p ≤ s.sleepingThreads p + n ∧ s'.pc t = a.pc) ∨
    (s.sleeping p = false ∧ s.sleepingThreads p + n = s.runningThreads p ∧ s'.pc t = .psleep a) ∨
    (s.sleeping p = false ∧ s'.pc t = a.pc ∧ s'.sleeping p = false)) := by
  dsimp only
  unfold Server.updateSleeping
  dsimp only [State.setPc]
  split
  · rename_i hSleeping
    split
    · exact ⟨⟨rfl, rfl, rfl, rfl, rfl, rfl, rfl, rfl⟩, .inl ⟨hSleeping, Function.update_self _ _ _,
        Function.update_self _ _ _⟩⟩
    · rename_i hLe
      exact ⟨⟨rfl, rfl, rfl, rfl, rfl, rfl, rfl, rfl⟩,
        .inr (.inl ⟨hSleeping, not_lt.mp hLe, Function.update_self _ _ _⟩)⟩
  · rename_i hSleeping
    have hNot := Bool.eq_false_of_not_eq_true hSleeping
    split
    · rename_i hEq
      exact ⟨⟨rfl, rfl, rfl, rfl, rfl, rfl, rfl, rfl⟩,
        .inr (.inr (.inl ⟨hNot, hEq, Function.update_self _ _ _⟩))⟩
    · exact ⟨⟨rfl, rfl, rfl, rfl, rfl, rfl, rfl, rfl⟩,
        .inr (.inr (.inr ⟨hNot, Function.update_self _ _ _, hNot⟩))⟩

/-- A processor with a thread that is awake is not marked as sleeping. -/
theorem Threads.not_sleeping (h : Threads v s) (hPc : (s.pc t).isAsleep = false) :
    s.sleeping (v.processor t) = false := by
  by_contra hNot
  have hAsleep := (h.sleeping _ (Bool.eq_true_of_not_eq_false hNot)).2 t rfl
  rw [hPc] at hAsleep
  exact absurd hAsleep (by decide)

/-- The processor falls asleep when its last thread does, if all of its threads have started. -/
theorem threads_sleep (h : Threads v s)
    (hStarted : s.sleepingThreads (v.processor t) + 1 = s.runningThreads (v.processor t) →
      AllBegun v s t)
    (hInput : v.isInput (v.processor t) = false) (hPc : s.pc t = .working) :
    Threads v (v.updateSleeping s t 1 .block) := by
  have hLocal := local_sleep (v := v) hPc
  have hAwake := h.not_sleeping (t := t) (by rw [hPc]; rfl)
  obtain ⟨⟨hHand, hSameEnded, -, -⟩, hCases⟩ := updateSleeping_cases v s t 1 .block
  generalize v.updateSleeping s t 1 .block = s' at *
  have hNoEnd : ¬ s.ended (v.processor t) = true := by
    intro hEnded
    rw [(h.ended _ hEnded).1] at hInput
    exact absurd hInput (by decide)
  rcases hCases with ⟨hOld, -⟩ | ⟨hOld, -⟩ | ⟨-, hFull, hNew⟩ | ⟨-, hNew, hStay⟩
  · rw [hAwake] at hOld
    exact absurd hOld (by decide)
  · rw [hAwake] at hOld
    exact absurd hOld (by decide)
  · have hFits : ∀ t', v.processor t' = v.processor t →
        (s'.pc t').Fits (v.isInput (v.processor t')) (s'.hand t') := by
      intro t' _
      by_cases ht : t' = t
      · subst ht
        rw [hNew]
        exact ⟨hInput, .inl rfl⟩
      · rw [hLocal.pc_off t' ht, hLocal.hand_off t' ht]
        exact h.fits t'
    -- every thread of the processor is running, so that the last one makes them all sleep
    have hRunning : ∀ t', v.processor t' = v.processor t → (s'.pc t').running = 1 := by
      intro t' ht'
      refine Pc.running_eq_one ?_ (Bool.eq_false_of_not_eq_true fun hEnded => ?_)
      · by_cases ht : t' = t
        · subst ht
          rw [hNew]
          exact Pc.noConfusion
        · rw [hLocal.pc_off t' ht]
          exact hStarted hFull t' ht'
      · have hIn := (hFits t' ht').of_isEnded hEnded
        rw [ht', hInput] at hIn
        exact absurd hIn (by decide)
    have hAll : Lib.tally v.processor (fun t => (s'.pc t).asleep) (v.processor t) =
        Lib.size v.processor (v.processor t) := by
      have hCount : Lib.tally v.processor (fun t => (s'.pc t).running) (v.processor t) =
          Lib.size v.processor (v.processor t) := Lib.tally_congr hRunning
      rw [← hCount, hLocal.tally_pc v.processor Pc.asleep, hLocal.tally_pc v.processor Pc.running,
        ← h.asleep, ← h.running, if_pos rfl, if_pos rfl, hNew, hPc]
      show s.sleepingThreads (v.processor t) + 1 = s.runningThreads (v.processor t) + 0
      omega
    refine h.of_local hLocal (hFits t rfl) (fun _ => ⟨hInput, fun t' ht' => ?_⟩) (fun hp => ?_)
    · exact Pc.isAsleep_of_asleep (Lib.eq_one_of_tally (fun t _ => Pc.asleep_le_one _) hAll ht')
    · rw [hSameEnded] at hp
      exact absurd hp hNoEnd
  · refine h.of_local hLocal ?_ (fun hp => ?_) (fun hp => ?_)
    · rw [hNew]
      exact hInput
    · rw [hStay] at hp
      exact absurd hp (by decide)
    · rw [hSameEnded] at hp
      exact absurd hp hNoEnd

/-- The first thread that wakes up clears the mark. -/
theorem threads_wake {a : After} (h : Threads v s) (ha : Wakes (s.pc t) a) :
    Threads v (v.updateSleeping s t (-1) a) := by
  have hLocal := local_wake (v := v) ha
  have hOwn := h.fits t
  obtain ⟨hInput, hHas, hAfter⟩ : v.isInput (v.processor t) = false ∧ 1 ≤ s.hand t ∧
      a.Fits (v.isInput (v.processor t)) (s.hand t) := by
    generalize s.pc t = pc at ha hOwn
    cases ha
    · exact ⟨hOwn.1, hOwn.2, hOwn⟩
    · exact ⟨hOwn.1, hOwn.2, trivial⟩
    · exact ⟨hOwn.1, hOwn.2, hOwn⟩
  obtain ⟨⟨hHand, hSameEnded, -, -⟩, hCases⟩ := updateSleeping_cases v s t (-1) a
  generalize v.updateSleeping s t (-1) a = s' at *
  have hEnded : s'.ended (v.processor t) = true → v.isInput (v.processor t) = true ∧
      ∀ t', v.processor t' = v.processor t → (s'.pc t').isEnded = true := by
    intro hp
    rw [hSameEnded] at hp
    rw [(h.ended _ hp).1] at hInput
    exact absurd hInput (by decide)
  have hLe : s.sleepingThreads (v.processor t) ≤ s.runningThreads (v.processor t) := by
    rw [h.asleep, h.running]
    exact Lib.tally_le fun t' _ => Pc.asleep_le_running _
  rcases hCases with ⟨-, hNew, hClear⟩ | ⟨-, hTooMany, -⟩ | ⟨-, hTooMany, -⟩ | ⟨-, hNew, hClear⟩
  · refine h.of_local hLocal ?_ (fun hp => ?_) hEnded
    · rw [hNew, hHand]
      exact ⟨hAfter, hHas⟩
    · rw [hClear] at hp
      exact absurd hp (by decide)
  · omega
  · omega
  · refine h.of_local hLocal ?_ (fun hp => ?_) hEnded
    · rw [hNew, hHand]
      exact Pc.Fits.of_after hAfter
    · rw [hClear] at hp
      exact absurd hp (by decide)

/-- A thread that has yet to end has not ended its processor. -/
theorem Threads.not_ended (h : Threads v s) (hPc : (s.pc t).isEnded = false) :
    s.ended (v.processor t) = false := by
  by_contra hNot
  have hEnded := (h.ended _ (Bool.eq_true_of_not_eq_false hNot)).2 t rfl
  rw [hPc] at hEnded
  exact absurd hEnded (by decide)

/-- `ThreadFinished` is about the thread that ends. -/
theorem local_finish (h : Threads v s) (hPc : s.pc t = .finishing) :
    Local v s (v.threadFinished s t) t :=
  local_threadFinished hPc (h.not_ended (by rw [hPc]; rfl))

/-- The last thread that ends ends the processor, if all of its threads have started. -/
theorem threads_finish (h : Threads v s)
    (hStarted : s.runningThreads (v.processor t) = 1 → AllBegun v s t)
    (hPc : s.pc t = .finishing) : Threads v (v.threadFinished s t) := by
  have hLocal := local_finish h hPc
  have hGoing := h.not_ended (t := t) (by rw [hPc]; rfl)
  have hInput := h.fits t
  rw [hPc] at hInput
  have hAwake := h.not_sleeping (t := t) (by rw [hPc]; rfl)
  have hSleeping : s.sleeping (v.processor t) = true → v.isInput (v.processor t) = false ∧
      ∀ t', v.processor t' = v.processor t → ((v.threadFinished s t).pc t').isAsleep = true := by
    intro hp
    rw [hAwake] at hp
    exact absurd hp (by decide)
  by_cases hLast : s.runningThreads (v.processor t) - 1 = 0
  · have hNew : (v.threadFinished s t).pc t = .psleep .done ∧
        (v.threadFinished s t).sleeping = s.sleeping := by
      simp [Server.threadFinished, hLast, State.setPc]
    refine h.of_local hLocal ?_ (by rw [hNew.2]; exact hSleeping)
      (fun _ => ⟨hInput, fun t' ht' => ?_⟩)
    · rw [hNew.1]
      exact ⟨hInput, .inr rfl⟩
    · -- no thread is running any more, and none is still to start
      refine Pc.isEnded_of_running ?_ (Lib.eq_zero_of_tally (fun t _ => Pc.running_nonneg _) ?_ ht')
      · by_cases ht : t' = t
        · subst ht
          rw [hNew.1]
          exact Pc.noConfusion
        · rw [hLocal.pc_off t' ht]
          exact hStarted (by omega) t' ht'
      · rw [hLocal.tally_pc v.processor Pc.running, ← h.running, if_pos rfl, hNew.1, hPc]
        show s.runningThreads (v.processor t) + (-1) ≤ 0
        omega
  · have hNew : (v.threadFinished s t).pc t = .finished ∧
        (v.threadFinished s t).sleeping = s.sleeping ∧ (v.threadFinished s t).ended = s.ended := by
      simp [Server.threadFinished, hLast, State.setPc]
    refine h.of_local hLocal ?_ (by rw [hNew.2.1]; exact hSleeping) (fun hp => ?_)
    · rw [hNew.1]
      exact hInput
    · rw [hNew.2.2, hGoing] at hp
      exact absurd hp (by decide)

/-- What a report leaves alone, and where the thread is after it. -/
theorem report_frame (h : v.report s t = some s') :
    s'.hand = s.hand ∧ s'.sleeping = s.sleeping ∧ s'.ended = s.ended ∧
    (s'.queue = s.queue ∧ s'.deletedResources = s.deletedResources ∧ s'.asked = s.asked) ∧
    ∃ a, (s.pc t).after = some a ∧ (s'.pc t = a.pc ∨ s'.pc t = .check a ∨ s'.pc t = .srvSleep a ∨
      s'.pc t = .srvStuck a ∨ s'.pc t = .srvYield a ∨ s'.pc t = .srvWake a) := by
  unfold Server.report at h
  dsimp only [State.setPc, Server.checkSleeping, Server.engineSleepingReport] at h
  split at h
  case h_9 => exact absurd h (by simp)
  all_goals
    rename_i a hPc
    rw [hPc]
    repeat' split at h
    all_goals first
      | obtain rfl := Option.some.inj h
        refine ⟨rfl, rfl, rfl, ⟨rfl, rfl, rfl⟩, a, rfl, ?_⟩
        simp only [Function.update_self, true_or, or_true]
      | exact absurd h (by simp)

/-- The report of an engine, by the thread that makes it. -/
theorem threads_report (h : Threads v s) (hReport : v.report s t = some s') : Threads v s' := by
  obtain ⟨hHand, hSleeping, hEnded, -, a, hAfter, hNew⟩ := report_frame hReport
  have hFits := (h.fits t).after hAfter
  -- the program counter stays within the report, or goes on behind it
  have hPc : (s'.pc t = a.pc ∨ (s'.pc t).after = some a) ∧
      (s'.pc t).Fits (v.isInput (v.processor t)) (s.hand t) := by
    rcases hNew with hNew | hNew | hNew | hNew | hNew | hNew <;> rw [hNew]
    · exact ⟨.inl rfl, Pc.Fits.of_after hFits⟩
    all_goals exact ⟨.inr rfl, hFits⟩
  refine h.of_same_flags (local_report hReport) (by rw [hHand]; exact hPc.2) hSleeping hEnded ?_ ?_
  · rw [← Pc.isAsleep_of_after hAfter]
    rcases hPc.1 with hBack | hWithin
    · rw [hBack]
      exact id
    · rw [Pc.isAsleep_of_after hWithin]
      exact id
  · rw [← Pc.isEnded_of_after hAfter]
    rcases hPc.1 with hBack | hWithin
    · rw [hBack]
      exact id
    · rw [Pc.isEnded_of_after hWithin]
      exact id

-- ---------------------------------------------------------------------------
-- The books
-- ---------------------------------------------------------------------------

/-- The counters of the engines and of the server, with the reports that are under way. -/
structure Books (v : Server E P T) (s : State E P T) : Prop where
  votes : ∀ e, s.processorsSleeping e =
    Lib.tally v.engine s.flag e + Lib.tally v.engineOf (fun t => (s.pc t).vote) e
  ledger : ∀ e, v.stocked s e + Lib.tally v.engineOf s.held e ≤
    s.resourceCount e + Lib.tally v.engineOf (fun t => (s.pc t).owes) e
  /-- A request that no thread has yet counted is one of some caller. -/
  calls : ∀ p, s.calls p + v.taken s p ≤ Server.requests s p
  server : s.sleepingProcessingEngines =
    Lib.total (fun e => bit (s.engineSleeping e)) - Lib.total (fun t => (s.pc t).claim)

/-- The step lemma. -/
theorem books_step (h : Books v s) (hLocal : Local v s s' t) : Books v s' := by
  refine ⟨fun e => ?_, fun e => ?_, fun p => hLocal.calls p (h.calls p), ?_⟩
  · have hFlags : Lib.tally v.engine s'.flag e = Lib.tally v.engine s.flag e +
        if v.engineOf t = e then s'.flag (v.processor t) - s.flag (v.processor t) else 0 := by
      refine Lib.tally_change (v.processor t) (fun p hp => ?_) e
      rw [State.flag, (hLocal.flags_off p hp).1, (hLocal.flags_off p hp).2]
      rfl
    rw [hLocal.votes e, h.votes e, hFlags, hLocal.tally_pc v.engineOf Pc.vote e]
    split_ifs <;> omega
  · have hHands : Lib.tally v.engineOf s'.held e = Lib.tally v.engineOf s.held e +
        if v.engineOf t = e then s'.held t - s.held t else 0 :=
      Lib.tally_change t hLocal.held_off e
    have hBefore := h.ledger e
    rw [hHands, hLocal.tally_pc v.engineOf Pc.owes e]
    by_cases he : v.engineOf t = e
    · subst he
      have hStep := hLocal.ledger
      rw [if_pos rfl, if_pos rfl]
      omega
    · have hStock : v.stocked s' e = v.stocked s e :=
        Lib.tally_congr fun p hp => hLocal.stock_off p (by rw [hp]; exact fun h => he h.symm)
      rw [if_neg he, if_neg he, hStock, hLocal.count_off e (fun h => he h.symm)]
      omega
  · have hEngines : Lib.total (fun e => bit (s'.engineSleeping e)) =
        Lib.total (fun e => bit (s.engineSleeping e)) +
          (bit (s'.engineSleeping (v.engineOf t)) - bit (s.engineSleeping (v.engineOf t))) := by
      unfold Lib.total
      rw [Lib.tally_change (v.engineOf t) (fun e he => by rw [hLocal.engine_off e he]), if_pos rfl]
    have hClaims : Lib.total (fun t => (s'.pc t).claim) =
        Lib.total (fun t => (s.pc t).claim) + ((s'.pc t).claim - (s.pc t).claim) := by
      unfold Lib.total
      rw [hLocal.tally_pc (fun _ => ()) Pc.claim, if_pos rfl]
    rw [hLocal.server, h.server, hEngines, hClaims]
    omega

end HectorCore.Batch
