import HectorCore.Batch.Sleeping

set_option linter.unusedSectionVars false

/-!
# Bookkeeping — what one step does to the counters of batch mode

A report is sent after the lock is released, so a counter lags behind what it counts; it lags
by what the program counters of the threads say is still to be sent.

* `Pc.asleep`, `Pc.running`, `Pc.vote`, `Pc.owes`, `Pc.claim` — what a thread's program counter
  stands for in the counters;
* `Local`       — the bookkeeping of one step: each counter moves as the program counter does;
* `local_report`, `local_sleep`, `local_wake` — the steps that send reports keep the books;
* `step_cases`  — the kinds of steps; one that only moves resources is `Plain`.
-/

namespace HectorCore.Batch

-- ---------------------------------------------------------------------------
-- What a program counter stands for
-- ---------------------------------------------------------------------------

/-- What a report's continuation has still to count: a request that is being taken in. -/
def After.owes (a : After) : Int := if a = .enterCall then 1 else 0

theorem After.owes_nonneg (a : After) : 0 ≤ a.owes := by
  cases a <;> decide

/-- A report behind which a request is being taken in. -/
def After.taking (a : After) : Int := if a = .enterCall ∨ a = .workCall then 1 else 0

namespace Pc

/-- Between `UpdateSleeping(1)` and `UpdateSleeping(-1)`. -/
def isAsleep (pc : Pc) : Bool :=
  pc = blocked || pc = waking || pc = wakingCall || pc.after = some .block

/-- Past `ThreadFinished`. -/
def isEnded (pc : Pc) : Bool := pc = finished || pc.after = some .done

/-- Counted in `sleepingThreads`, in `runningThreads`. -/
def asleep (pc : Pc) : Int := if pc.isAsleep then 1 else 0
def running (pc : Pc) : Int := if pc = created || pc.isEnded then 0 else 1

/-- What `processorsSleeping` has still to learn. -/
def vote : Pc → Int
  | psleep _ => -1
  | pwake _ => 1
  | _ => 0

/-- What `resourceCount` has still to learn; of a request, from the input queue on. -/
def owes : Pc → Int
  | count n _ => n
  | wakingCall => 1
  | psleep a | pwake a | check a | srvSleep a | srvStuck a | srvYield a | srvWake a => a.owes
  | _ => 0

/-- What `sleepingProcessingEngines` has still to learn. -/
def claim : Pc → Int
  | srvSleep _ => 1
  | srvWake _ => -1
  | _ => 0

/-- A report and its continuation count alike, except for what the report is about. -/
theorem isAsleep_of_after {pc : Pc} {a : After} (h : pc.after = some a) :
    a.pc.isAsleep = pc.isAsleep := by
  cases a <;> cases pc <;> simp [after] at h <;> subst h <;> rfl

theorem isEnded_of_after {pc : Pc} {a : After} (h : pc.after = some a) :
    a.pc.isEnded = pc.isEnded := by
  cases a <;> cases pc <;> simp [after] at h <;> subst h <;> rfl

theorem asleep_of_after {pc : Pc} {a : After} (h : pc.after = some a) :
    a.pc.asleep = pc.asleep := by
  rw [asleep, isAsleep_of_after h]
  rfl

theorem running_of_after {pc : Pc} {a : After} (h : pc.after = some a) :
    a.pc.running = pc.running := by
  cases a <;> cases pc <;> simp [after] at h <;> subst h <;> rfl

theorem vote_after (a : After) : a.pc.vote = 0 := by
  cases a <;> rfl

theorem claim_after (a : After) : a.pc.claim = 0 := by
  cases a <;> rfl

theorem owes_after_le (a : After) : a.owes ≤ a.pc.owes := by
  cases a <;> decide

/-- A report that is not about the count leaves it to its continuation. -/
theorem owes_of_after {pc : Pc} {a : After} (h : pc.after = some a)
    (hCount : ∀ n, pc ≠ .count n a) :
    pc.owes = a.owes := by
  cases pc with
  | count n b =>
    obtain rfl : b = a := Option.some.inj h
    exact absurd rfl (hCount n)
  | psleep b | pwake b | check b | srvSleep b | srvStuck b | srvYield b | srvWake b =>
    obtain rfl : b = a := Option.some.inj h
    rfl
  | created | working | blocked | waking | wakingCall | finishing | finished => cases h

/-- A request stays one all through its report. -/
theorem taking_of_after {pc : Pc} {a : After} (h : pc.after = some a) : pc.taking = a.taking := by
  have hPlain : pc ≠ .wakingCall := by
    rintro rfl
    cases h
  simp [taking, isTaking, h, hPlain, After.taking]

theorem taking_after_le (a : After) : a.pc.taking ≤ a.taking := by
  cases a <;> decide

end Pc

variable {E P T : Type} [Fintype E] [Fintype P] [Fintype T]
  [DecidableEq E] [DecidableEq P] [DecidableEq T]

/-- A Boolean as a number. -/
def bit (b : Bool) : Int := if b then 1 else 0

/-- What a processor's flags contribute to `processorsSleeping`. -/
def State.flag (s : State E P T) (p : P) : Int := bit (s.sleeping p) + bit (s.ended p)

/-- The resources of a thread that requests have been made for; and all of its resources. -/
def State.lent (s : State E P T) (t : T) : Int := Lib.total fun p => (s.asked t p : Int)
def State.held (s : State E P T) (t : T) : Int := s.hand t + s.lent t

/-- The resources that processor `p` holds outside its threads. The requests are their callers'. -/
def State.stock (s : State E P T) (p : P) : Int := s.queue p + s.deletedResources p

/-- The resources that the processors of engine `e` hold outside their threads. -/
def Server.stocked (v : Server E P T) (s : State E P T) (e : E) : Int :=
  Lib.tally v.engine s.stock e

/-- **The bookkeeping of one step** of thread `t`. -/
structure Local (v : Server E P T) (s s' : State E P T) (t : T) : Prop where
  pc_off : ∀ t', t' ≠ t → s'.pc t' = s.pc t'
  hand_off : ∀ t', t' ≠ t → s'.hand t' = s.hand t'
  asked_off : ∀ t', t' ≠ t → s'.asked t' = s.asked t'
  running : ∀ p, s'.runningThreads p = s.runningThreads p +
    if v.processor t = p then (s'.pc t).running - (s.pc t).running else 0
  asleep : ∀ p, s'.sleepingThreads p = s.sleepingThreads p +
    if v.processor t = p then (s'.pc t).asleep - (s.pc t).asleep else 0
  flags_off : ∀ p, p ≠ v.processor t → s'.sleeping p = s.sleeping p ∧ s'.ended p = s.ended p
  votes : ∀ e, s'.processorsSleeping e = s.processorsSleeping e +
    if v.engineOf t = e then s'.flag (v.processor t) - s.flag (v.processor t) +
      ((s'.pc t).vote - (s.pc t).vote) else 0
  stock_off : ∀ p, v.engine p ≠ v.engineOf t → s'.stock p = s.stock p
  ledger : v.stocked s' (v.engineOf t) + s'.held t - (s'.pc t).owes - s'.resourceCount
    (v.engineOf t)
    ≤ v.stocked s (v.engineOf t) + s.held t - (s.pc t).owes - s.resourceCount (v.engineOf t)
  calls : ∀ p, s.calls p + v.taken s p ≤ Server.requests s p →
    s'.calls p + v.taken s' p ≤ Server.requests s' p
  count_off : ∀ e, e ≠ v.engineOf t → s'.resourceCount e = s.resourceCount e
  engine_off : ∀ e, e ≠ v.engineOf t → s'.engineSleeping e = s.engineSleeping e
  server : s'.sleepingProcessingEngines = s.sleepingProcessingEngines +
    (bit (s'.engineSleeping (v.engineOf t)) - bit (s.engineSleeping (v.engineOf t))) -
    ((s'.pc t).claim - (s.pc t).claim)

variable {v : Server E P T} {s s' : State E P T}

/-- The stock of one processor of engine `e` changes. -/
theorem stocked_change {p : P} (hOff : ∀ p', p' ≠ p → s'.stock p' = s.stock p') :
    v.stocked s' (v.engine p) = v.stocked s (v.engine p) + (s'.stock p - s.stock p) := by
  unfold Server.stocked
  rw [Lib.tally_change p hOff, if_pos rfl]

/-- `s'` differs from `s` in nothing but threads and stocks. -/
def SameFlags (s s' : State E P T) : Prop :=
  s' = { s with
    pc := s'.pc, hand := s'.hand, queue := s'.queue, calls := s'.calls, asked := s'.asked
    deletedResources := s'.deletedResources }

/-- A step of thread `t` that neither asks another engine nor takes a request. -/
theorem calls_of_same {t : T} (hCalls : s'.calls = s.calls) (hAsked : s'.asked = s.asked)
    (hPcOff : ∀ t', t' ≠ t → s'.pc t' = s.pc t') (hTaking : (s'.pc t).taking ≤ (s.pc t).taking)
    (p : P) (h : s.calls p + v.taken s p ≤ Server.requests s p) :
    s'.calls p + v.taken s' p ≤ Server.requests s' p := by
  have hTaken : v.taken s' p ≤ v.taken s p := by
    refine Lib.tally_le fun t' _ => ?_
    by_cases ht : t' = t
    · subst ht
      exact hTaking
    · rw [hPcOff t' ht]
  rw [Server.requests, hAsked, hCalls]
  exact (Int.add_le_add_left hTaken _).trans h

/-- A step that touches nothing but the thread and the stock of processor `p` of its engine,
and keeps the thread's weight in every count. -/
theorem Local.of_work {t : T} {p : P} (hSame : SameFlags s s')
    (hEngine : v.engine p = v.engineOf t)
    (hPcOff : ∀ t', t' ≠ t → s'.pc t' = s.pc t') (hHandOff : ∀ t', t' ≠ t → s'.hand t' = s.hand t')
    (hAskedOff : ∀ t', t' ≠ t → s'.asked t' = s.asked t')
    (hStockOff : ∀ p', p' ≠ p → s'.stock p' = s.stock p')
    (hRunning : (s'.pc t).running = (s.pc t).running) (hAsleep : (s'.pc t).asleep = (s.pc t).asleep)
    (hVote : (s'.pc t).vote = (s.pc t).vote) (hClaim : (s'.pc t).claim = (s.pc t).claim)
    (hLedger : s'.stock p + s'.held t - (s'.pc t).owes ≤ s.stock p + s.held t - (s.pc t).owes)
    (hCalls : ∀ p, s.calls p + v.taken s p ≤ Server.requests s p →
      s'.calls p + v.taken s' p ≤ Server.requests s' p) :
    Local v s s' t := by
  have hFlag : s'.flag (v.processor t) = s.flag (v.processor t) := by
    unfold State.flag
    rw [congrArg State.sleeping hSame, congrArg State.ended hSame]
  refine ⟨hPcOff, hHandOff, hAskedOff, fun p => ?_, fun p => ?_, fun p _ => ⟨?_, ?_⟩, fun e => ?_,
    fun p' hp => ?_, ?_, hCalls, fun e _ => ?_, fun e _ => ?_, ?_⟩
  · rw [hRunning, congrArg State.runningThreads hSame]
    simp
  · rw [hAsleep, congrArg State.sleepingThreads hSame]
    simp
  · rw [congrArg State.sleeping hSame]
  · rw [congrArg State.ended hSame]
  · rw [hVote, hFlag, congrArg State.processorsSleeping hSame]
    simp
  · refine hStockOff p' fun hEq => hp ?_
    rw [hEq, hEngine]
  · rw [← hEngine, stocked_change (p := p) hStockOff, congrArg State.resourceCount hSame]
    dsimp only
    omega
  · rw [congrArg State.resourceCount hSame]
  · rw [congrArg State.engineSleeping hSame]
  · rw [hClaim, congrArg State.sleepingProcessingEngines hSame, congrArg State.engineSleeping hSame]
    simp

/-- A counter of one processor or engine. -/
theorem update_add {K : Type} [DecidableEq K] (f : K → Int) (k : K) (n : Int) (k' : K) :
    Function.update f k (f k + n) k' = f k' + if k = k' then n else 0 := by
  by_cases hk : k' = k
  · subst hk
    simp
  · rw [Function.update_of_ne hk, if_neg (Ne.symm hk)]
    omega

/-- The critical section of `UpdateSleeping`: a flag that changes is a report to send. -/
theorem local_updateSleeping {t : T} {n : Int} {a : After}
    (hAsleep : a.pc.asleep = (s.pc t).asleep + n) (hRunning : a.pc.running = (s.pc t).running)
    (hVote : (s.pc t).vote = 0) (hClaim : (s.pc t).claim = 0) (hOwes : a.owes = (s.pc t).owes)
    (hTaking : a.taking = (s.pc t).taking) : Local v s (v.updateSleeping s t n a) t := by
  -- the part that is the same in all branches
  have hBase : ∀ (pc : Pc) (sleeping : P → Bool), pc = a.pc ∨ pc.after = some a →
      (∀ p, p ≠ v.processor t → sleeping p = s.sleeping p) →
      bit (sleeping (v.processor t)) + pc.vote = bit (s.sleeping (v.processor t)) →
      a.owes ≤ pc.owes → pc.claim = 0 →
      Local v s { s with
        sleepingThreads := Function.update s.sleepingThreads (v.processor t)
          (s.sleepingThreads (v.processor t) + n)
        pc := Function.update s.pc t pc, sleeping } t := by
    intro pc sleeping hPc hOff hFlag hLedger hNoClaim
    have hWeights : pc.asleep = (s.pc t).asleep + n ∧ pc.running = (s.pc t).running ∧
        pc.taking ≤ (s.pc t).taking := by
      rw [← hAsleep, ← hRunning, ← hTaking]
      rcases hPc with rfl | hAfter
      · exact ⟨rfl, rfl, Pc.taking_after_le a⟩
      · exact ⟨(Pc.asleep_of_after hAfter).symm, (Pc.running_of_after hAfter).symm,
          (Pc.taking_of_after hAfter).le⟩
    refine ⟨fun t' ht => Function.update_of_ne ht _ _, fun _ _ => rfl, fun _ _ => rfl, fun p => ?_,
      fun p => ?_, fun p hp => ⟨hOff p hp, rfl⟩, fun e => ?_, fun _ _ => rfl, ?_,
      calls_of_same rfl rfl (fun t' ht => Function.update_of_ne ht _ _) ?_,
      fun _ _ => rfl, fun _ _ => rfl, ?_⟩
    · simp [hWeights.2.1]
    · simp only [update_add, Function.update_self, hWeights.1]
      split_ifs <;> omega
    · simp only [Function.update_self, State.flag, hVote]
      split_ifs <;> omega
    · simp only [Function.update_self]
      show v.stocked s _ + s.held t - pc.owes - _ ≤ _
      omega
    · simpa only [Function.update_self] using hWeights.2.2
    · simp [hNoClaim, hClaim]
  unfold Server.updateSleeping
  dsimp only [State.setPc]
  split
  · rename_i hSleeping
    split
    · refine hBase (.pwake a) _ (.inr rfl) (fun p hp => Function.update_of_ne hp _ _) ?_
        (le_refl _) rfl
      rw [Function.update_self, hSleeping]
      rfl
    · refine hBase a.pc s.sleeping (.inl rfl) (fun _ _ => rfl) ?_ (Pc.owes_after_le a)
        (Pc.claim_after a)
      rw [Pc.vote_after]
      omega
  · rename_i hSleeping
    split
    · refine hBase (.psleep a) _ (.inr rfl) (fun p hp => Function.update_of_ne hp _ _) ?_
        (le_refl _) rfl
      rw [Function.update_self, Bool.eq_false_of_not_eq_true hSleeping]
      rfl
    · refine hBase a.pc s.sleeping (.inl rfl) (fun _ _ => rfl) ?_ (Pc.owes_after_le a)
        (Pc.claim_after a)
      rw [Pc.vote_after]
      omega

/-- The critical section of `ThreadFinished`. -/
theorem local_threadFinished {t : T} (hPc : s.pc t = .finishing)
    (hEnded : s.ended (v.processor t) = false) : Local v s (v.threadFinished s t) t := by
  have hBase : ∀ (pc : Pc) (ended : P → Bool), pc.isEnded = true → pc.asleep = 0 →
      (∀ p, p ≠ v.processor t → ended p = s.ended p) →
      bit (ended (v.processor t)) + pc.vote = 0 → pc.owes = 0 → pc.claim = 0 → pc.taking = 0 →
      Local v s { s with
        runningThreads := Function.update s.runningThreads (v.processor t)
          (s.runningThreads (v.processor t) - 1)
        pc := Function.update s.pc t pc, ended } t := by
    intro pc ended hEnd hAsleep hOff hFlag hOwes hClaim hTaking
    refine ⟨fun t' ht => Function.update_of_ne ht _ _, fun _ _ => rfl, fun _ _ => rfl, fun p => ?_,
      fun p => ?_, fun p hp => ⟨rfl, hOff p hp⟩, fun e => ?_, fun _ _ => rfl, ?_,
      calls_of_same rfl rfl (fun t' ht => Function.update_of_ne ht _ _) ?_,
      fun _ _ => rfl, fun _ _ => rfl, ?_⟩
    · have hZero : pc.running = 0 := by simp [Pc.running, hEnd]
      simp only [Int.sub_eq_add_neg, update_add, Function.update_self, hPc, hZero]
      split_ifs <;> simp [Pc.running, Pc.isEnded, Pc.after]
    · have hNow : (Pc.finishing).asleep = 0 := rfl
      simp [hPc, hAsleep, hNow]
    · have hNow : (Pc.finishing).vote = 0 := rfl
      have hBefore : bit false = 0 := rfl
      simp only [Function.update_self, State.flag, hEnded, hPc, hNow, hBefore]
      split_ifs <;> omega
    · have hNow : (Pc.finishing).owes = 0 := rfl
      simp only [Function.update_self, hPc, hOwes, hNow]
      exact le_refl _
    · simp only [Function.update_self, hTaking, hPc]
      exact (by decide : (0 : Int) ≤ Pc.finishing.taking)
    · have hNow : (Pc.finishing).claim = 0 := rfl
      simp [hPc, hClaim, hNow]
  unfold Server.threadFinished
  dsimp only [State.setPc]
  split
  · exact hBase (.psleep .done) _ rfl rfl (fun p hp => Function.update_of_ne hp _ _)
      (by rw [Function.update_self]; rfl) rfl rfl rfl
  · exact hBase .finished s.ended rfl rfl (fun _ _ => rfl) (by rw [hEnded]; rfl) rfl rfl rfl

/-- A thread moves on within or out of a report; only the counters that the step is about
change. Of what it owes, `n` is now counted. -/
theorem Local.of_report {t : T} {a : After} {pc : Pc} {n : Int} (hOld : (s.pc t).after = some a)
    (hNew : pc = a.pc ∨ pc.after = some a) (hSelf : s'.pc = Function.update s.pc t pc)
    (hHand : s'.hand = s.hand) (hCalls : s'.calls = s.calls ∧ s'.asked = s.asked)
    (hStock : s'.queue = s.queue ∧ s'.deletedResources = s.deletedResources)
    (hThreads : s'.runningThreads = s.runningThreads ∧ s'.sleepingThreads = s.sleepingThreads)
    (hFlags : s'.sleeping = s.sleeping ∧ s'.ended = s.ended)
    (hVotes : ∀ e, s'.processorsSleeping e = s.processorsSleeping e +
      if v.engineOf t = e then pc.vote - (s.pc t).vote else 0)
    (hCount : ∀ e, s'.resourceCount e = s.resourceCount e + if v.engineOf t = e then n else 0)
    (hOwes : (s.pc t).owes ≤ pc.owes + n)
    (hEngine : ∀ e, e ≠ v.engineOf t → s'.engineSleeping e = s.engineSleeping e)
    (hServer : s'.sleepingProcessingEngines = s.sleepingProcessingEngines +
      (bit (s'.engineSleeping (v.engineOf t)) - bit (s.engineSleeping (v.engineOf t))) -
      (pc.claim - (s.pc t).claim)) : Local v s s' t := by
  have hPc : s'.pc t = pc := by rw [hSelf, Function.update_self]
  have hSame : s'.stock = s.stock := by
    funext p
    rw [State.stock, hStock.1, hStock.2]
    rfl
  have hHeld : s'.held t = s.held t := by
    rw [State.held, State.held, State.lent, State.lent, hHand, hCalls.2]
  have hWeights : pc.running = (s.pc t).running ∧ pc.asleep = (s.pc t).asleep ∧
      pc.taking ≤ (s.pc t).taking := by
    rw [← Pc.running_of_after hOld, ← Pc.asleep_of_after hOld, Pc.taking_of_after hOld]
    rcases hNew with rfl | hAfter
    · exact ⟨rfl, rfl, Pc.taking_after_le a⟩
    · exact ⟨(Pc.running_of_after hAfter).symm, (Pc.asleep_of_after hAfter).symm,
        (Pc.taking_of_after hAfter).le⟩
  obtain ⟨hRunning, hAsleep, hTaking⟩ := hWeights
  have hPcOff : ∀ t', t' ≠ t → s'.pc t' = s.pc t' := by
    intro t' ht
    rw [hSelf, Function.update_of_ne ht]
  refine ⟨hPcOff, fun _ _ => by rw [hHand], fun _ _ => by rw [hCalls.2], fun p => ?_, fun p => ?_,
    fun p _ => by rw [hFlags.1, hFlags.2]; exact ⟨rfl, rfl⟩, fun e => ?_, fun p _ => by rw [hSame],
    ?_, calls_of_same hCalls.1 hCalls.2 hPcOff (by rw [hPc]; exact hTaking),
      fun e he => ?_, hEngine,
    by rw [hPc]; exact hServer⟩
  · rw [hThreads.1, hPc, hRunning]
    simp
  · rw [hThreads.2, hPc, hAsleep]
    simp
  · rw [hVotes e, hPc]
    simp only [State.flag, hFlags.1, hFlags.2]
    split_ifs <;> omega
  · have hHere := hCount (v.engineOf t)
    rw [if_pos rfl] at hHere
    rw [Server.stocked, hSame, hHeld, hPc, hHere]
    unfold Server.stocked
    omega
  · rw [hCount e, if_neg (Ne.symm he)]
    omega

theorem local_checkSleeping {t : T} {a : After} (hPc : s.pc t = .check a) :
    Local v s (v.checkSleeping s t a) t := by
  have hOld : (s.pc t).after = some a := by rw [hPc]; rfl
  have hBase : ∀ (pc : Pc) (engineSleeping : E → Bool), pc = a.pc ∨ pc.after = some a →
    pc.vote = 0 →
      a.owes ≤ pc.owes → (∀ e, e ≠ v.engineOf t → engineSleeping e = s.engineSleeping e) →
      bit (engineSleeping (v.engineOf t)) - pc.claim = bit (s.engineSleeping (v.engineOf t)) →
      Local v s { s with pc := Function.update s.pc t pc, engineSleeping } t := by
    intro pc engineSleeping hNew hVote hOwes hOff hClaim
    have hPlain : (s.pc t).vote = 0 ∧ (s.pc t).owes = a.owes ∧ (s.pc t).claim = 0 := by
      rw [hPc]
      exact ⟨rfl, rfl, rfl⟩
    refine Local.of_report (n := 0) hOld hNew rfl rfl ⟨rfl, rfl⟩ ⟨rfl, rfl⟩ ⟨rfl, rfl⟩ ⟨rfl, rfl⟩
      (fun e => ?_) (fun e => ?_) ?_ hOff ?_
    · simp [hVote, hPlain.1]
    · simp
    · rw [hPlain.2.1, add_zero]
      exact hOwes
    · rw [hPlain.2.2]
      dsimp only
      omega
  unfold Server.checkSleeping
  dsimp only [State.setPc]
  split
  · rename_i hSleeping
    split
    · refine hBase (.srvWake a) _ (.inr rfl) rfl (le_refl _)
        (fun e he => Function.update_of_ne he _ _) ?_
      rw [Function.update_self, hSleeping]
      rfl
    · exact hBase a.pc s.engineSleeping (.inl rfl) (Pc.vote_after a) (Pc.owes_after_le a)
        (fun _ _ => rfl) (by rw [Pc.claim_after]; omega)
  · rename_i hSleeping
    split
    · refine hBase (.srvSleep a) _ (.inr rfl) rfl (le_refl _)
        (fun e he => Function.update_of_ne he _ _) ?_
      rw [Function.update_self, Bool.eq_false_of_not_eq_true hSleeping]
      rfl
    · exact hBase a.pc s.engineSleeping (.inl rfl) (Pc.vote_after a) (Pc.owes_after_le a)
        (fun _ _ => rfl) (by rw [Pc.claim_after]; omega)

/-- The steps inside the server, where no engine's flag changes. -/
theorem Local.of_server {t : T} {a : After} {pc : Pc} (hOld : (s.pc t).after = some a)
    (hPlain : (s.pc t).vote = 0 ∧ (s.pc t).owes = a.owes)
    (hNew : pc = a.pc ∨ (pc.after = some a ∧ pc.vote = 0 ∧ pc.owes = a.owes ∧ pc.claim = 0))
    {k : Int} (hServer : k = s.sleepingProcessingEngines + (s.pc t).claim) {wokenUp : Bool}
    {serverLock usingWokenUp : Option T} {finished : Bool} :
    Local v s { s with
      pc := Function.update s.pc t pc, sleepingProcessingEngines := k
      wokenUp, serverLock, usingWokenUp, finished } t := by
  have hWeights : pc.vote = 0 ∧ a.owes ≤ pc.owes ∧ pc.claim = 0 := by
    rcases hNew with rfl | ⟨-, hVote, hOwes, hClaim⟩
    · exact ⟨Pc.vote_after a, Pc.owes_after_le a, Pc.claim_after a⟩
    · exact ⟨hVote, le_of_eq hOwes.symm, hClaim⟩
  refine Local.of_report (n := 0) hOld (hNew.imp_right fun h => h.1) rfl rfl ⟨rfl, rfl⟩
    ⟨rfl, rfl⟩ ⟨rfl, rfl⟩ ⟨rfl, rfl⟩ (fun e => ?_) (fun e => ?_) ?_ (fun _ _ => rfl) ?_
  · simp [hWeights.1, hPlain.1]
  · simp
  · rw [hPlain.2, add_zero]
    exact hWeights.2.1
  · rw [hWeights.2.2, hServer]
    simp only []
    omega

/-- One step of a report. -/
theorem local_report {t : T} (h : v.report s t = some s') : Local v s s' t := by
  unfold Server.report at h
  dsimp only [State.setPc] at h
  split at h <;> rename_i hPc
  -- the counters of the engine
  · rename_i a
    obtain rfl := Option.some.inj h
    refine Local.of_report (n := 0) (by rw [hPc]; rfl) (.inr rfl) rfl rfl ⟨rfl, rfl⟩ ⟨rfl, rfl⟩
      ⟨rfl, rfl⟩ ⟨rfl, rfl⟩ (fun e => ?_) (fun e => ?_) ?_ (fun _ _ => rfl) ?_
    · rw [hPc]
      exact update_add _ _ 1 e
    · simp
    · rw [hPc, add_zero]
      exact le_refl a.owes
    · simp [hPc, Pc.claim]
  · rename_i a
    obtain rfl := Option.some.inj h
    refine Local.of_report (n := 0) (by rw [hPc]; rfl) (.inr rfl) rfl rfl ⟨rfl, rfl⟩ ⟨rfl, rfl⟩
      ⟨rfl, rfl⟩ ⟨rfl, rfl⟩ (fun e => ?_) (fun e => ?_) ?_ (fun _ _ => rfl) ?_
    · rw [hPc]
      exact update_add _ _ (-1) e
    · simp
    · rw [hPc, add_zero]
      exact le_refl a.owes
    · simp [hPc, Pc.claim]
  · rename_i n a
    obtain rfl := Option.some.inj h
    refine Local.of_report (n := n) (by rw [hPc]; rfl) (.inr rfl) rfl rfl ⟨rfl, rfl⟩ ⟨rfl, rfl⟩
      ⟨rfl, rfl⟩ ⟨rfl, rfl⟩ (fun e => ?_) (fun e => ?_) ?_ (fun _ _ => rfl) ?_
    · simp [hPc, Pc.vote]
    · exact update_add _ _ _ e
    · rw [hPc]
      exact Int.le_add_of_nonneg_left a.owes_nonneg
    · simp [hPc, Pc.claim]
  · obtain rfl := Option.some.inj h
    exact local_checkSleeping hPc
  -- inside the server
  · rename_i a
    split at h
    · exact absurd h (by simp)
    · obtain rfl := Option.some.inj h
      have hOld : (s.pc t).after = some a := by rw [hPc]; rfl
      have hPlain : (s.pc t).vote = 0 ∧ (s.pc t).owes = a.owes := by rw [hPc]; exact ⟨rfl, rfl⟩
      have hServer : s.sleepingProcessingEngines + 1 =
          s.sleepingProcessingEngines + (s.pc t).claim := by rw [hPc]; rfl
      unfold Server.engineSleepingReport
      dsimp only [State.setPc]
      split
      · split
        · exact Local.of_server hOld hPlain (.inr ⟨rfl, rfl, rfl, rfl⟩) hServer
        · exact Local.of_server hOld hPlain (.inr ⟨rfl, rfl, rfl, rfl⟩) hServer
      · exact Local.of_server hOld hPlain (.inl rfl) hServer
  · split at h
    · exact absurd h (by simp)
    · obtain rfl := Option.some.inj h
      exact Local.of_server (by rw [hPc]; rfl) (by rw [hPc]; exact ⟨rfl, rfl⟩)
        (.inr ⟨rfl, rfl, rfl, rfl⟩) (by rw [hPc]; exact (add_zero _).symm)
  · split at h
    · exact absurd h (by simp)
    · obtain rfl := Option.some.inj h
      exact Local.of_server (by rw [hPc]; rfl) (by rw [hPc]; exact ⟨rfl, rfl⟩)
        (.inl rfl) (by rw [hPc]; exact (add_zero _).symm)
  · split at h
    · exact absurd h (by simp)
    · obtain rfl := Option.some.inj h
      exact Local.of_server (by rw [hPc]; rfl) (by rw [hPc]; exact ⟨rfl, rfl⟩)
        (.inl rfl) (by rw [hPc]; rfl)
  · exact absurd h (by simp)

/-- Where a thread goes on that `GetItem` has given a resource: to count it, if it comes from
the engine's input queue. -/
inductive Wakes : Pc → After → Prop where
  | enter : Wakes .waking .enter
  | work : Wakes .waking .work
  | call : Wakes .wakingCall .enterCall

/-- `UpdateSleeping(1)` -/
theorem local_sleep {t : T} (hPc : s.pc t = .working) :
    Local v s (v.updateSleeping s t 1 .block) t := by
  refine local_updateSleeping ?_ ?_ ?_ ?_ ?_ ?_ <;> rw [hPc] <;> rfl

/-- `UpdateSleeping(-1)` -/
theorem local_wake {t : T} {a : After} (ha : Wakes (s.pc t) a) :
    Local v s (v.updateSleeping s t (-1) a) t := by
  generalize hPc : s.pc t = pc at ha
  cases ha <;> refine local_updateSleeping ?_ ?_ ?_ ?_ ?_ ?_ <;> rw [hPc] <;> rfl

-- ---------------------------------------------------------------------------
-- The kinds of steps
-- ---------------------------------------------------------------------------

/-- In the loop over `pthread_yield`, in front of `ProcessingEngineWakeup`. -/
def Pc.isYielding : Pc → Bool
  | .srvYield _ => true
  | _ => false

def Pc.isWakingServer : Pc → Bool
  | .srvWake _ => true
  | _ => false

/-- Every thread that was created for the processor of thread `t` has begun to run. -/
def AllBegun (v : Server E P T) (s : State E P T) (t : T) : Prop :=
  ∀ t', v.processor t' = v.processor t → s.pc t' ≠ .created

/-- **The condition.**

* When the last running thread of a processor goes to sleep or ends, every thread that was
  created for the processor has begun to run.
* When the server has waited and `wokenUp` is not set, no engine's `ProcessingEngineWakeup` is
  still under way, unless all engines sleep again.
* No resource is in an engine uncounted, and none is counted out twice: no INPUT module returns a
  deleted one, a MULTI module tells of all that it makes, and no two threads of a processor hand
  on one deleted resource. -/
def OnTime (v : Server E P T) (s : State E P T) : Label P T → Prop
  | .sleep t =>
    s.sleepingThreads (v.processor t) + 1 = s.runningThreads (v.processor t) → AllBegun v s t
  | .finish t => s.runningThreads (v.processor t) = 1 → AllBegun v s t
  | .report t =>
    (s.pc t).isYielding = true → s.wokenUp = false → (∃ t', (s.pc t').isWakingServer = true) →
      ∀ e, s.engineSleeping e = true
  | .create _ n k => k = n
  | .fetchDeleted _ | .discardTwice _ => False
  | _ => True

instance decidableOnTime (v : Server E P T) (s : State E P T) :
    (a : Label P T) → Decidable (OnTime v s a)
  | .sleep t => inferInstanceAs (Decidable (_ = _ →
      ∀ t', v.processor t' = v.processor t → s.pc t' ≠ .created))
  | .finish t => inferInstanceAs (Decidable (_ = _ →
      ∀ t', v.processor t' = v.processor t → s.pc t' ≠ .created))
  | .report t => inferInstanceAs (Decidable ((s.pc t).isYielding = true → s.wokenUp = false →
      (∃ t', (s.pc t').isWakingServer = true) → ∀ e, s.engineSleeping e = true))
  | .create _ n k => inferInstanceAs (Decidable (k = n))
  | .fetchDeleted _ | .discardTwice _ => isFalse id
  | .start _ | .call _ _ | .answer _ _ | .get _ | .getCall _ | .fetch _ | .drop _ | .put _ _
  | .copy _ _ | .copyOut _ | .leave _ | .delete _ | .discard _ | .take _ | .takeCall _ | .wake _
  | .exit _ => isTrue trivial

/-- What only the reports to the server change. -/
structure SameServer (s s' : State E P T) : Prop where
  finished : s'.finished = s.finished
  wokenUp : s'.wokenUp = s.wokenUp
  serverLock : s'.serverLock = s.serverLock
  count : s'.sleepingProcessingEngines = s.sleepingProcessingEngines

/-- A step that moves resources, and no flag. -/
structure Plain (v : Server E P T) (s s' : State E P T) (t : T) : Prop where
  books : Local v s s' t
  sleeping : s'.sleeping = s.sleeping
  ended : s'.ended = s.ended
  engineSleeping : s'.engineSleeping = s.engineSleeping
  count : s'.resourceCount = s.resourceCount
  server : SameServer s s'
  turn : ((s.pc t = .created ∨ s.pc t = .working) ∧
      (s'.pc t = .working ∨
        (∃ (n : Int) (a : After), s'.pc t = .count n a ∧ n ≤ s'.hand t ∧
          (a = .work ∨ a = .workCall ∧ n = 1)) ∨
        (s'.pc t = .finishing ∧ v.isInput (v.processor t) = true))) ∨
    (s.pc t = .blocked ∧ 1 ≤ s'.hand t ∧
      (s'.pc t = .waking ∧ s.queue (v.processor t) ≠ 0 ∨ s'.pc t = .wakingCall))

/-- A step of the main loop. -/
theorem Plain.of_working {t : T} (p : P) (hSame : SameFlags s s')
    (hEngine : v.engine p = v.engineOf t)
    (hPcOff : ∀ t', t' ≠ t → s'.pc t' = s.pc t') (hHandOff : ∀ t', t' ≠ t → s'.hand t' = s.hand t')
    (hAskedOff : ∀ t', t' ≠ t → s'.asked t' = s.asked t')
    (hStockOff : ∀ p', p' ≠ p → s'.stock p' = s.stock p') (hPc : s.pc t = .working)
    (hNext : s'.pc t = .working ∨
      (∃ (n : Int) (a : After), s'.pc t = .count n a ∧ n ≤ s'.hand t ∧
        (a = .work ∨ a = .workCall ∧ n = 1)) ∨
      (s'.pc t = .finishing ∧ v.isInput (v.processor t) = true))
    (hLedger : s'.stock p + s'.held t - (s'.pc t).owes ≤ s.stock p + s.held t)
    (hCalls : ∀ p, s.calls p + v.taken s p ≤ Server.requests s p →
      s'.calls p + v.taken s' p ≤ Server.requests s' p) :
    Plain v s s' t := by
  have hWeights : (s'.pc t).running = 1 ∧ (s'.pc t).asleep = 0 ∧ (s'.pc t).vote = 0 ∧
      (s'.pc t).claim = 0 := by
    rcases hNext with h | ⟨n, a, h, -, rfl | ⟨rfl, -⟩⟩ | ⟨h, -⟩ <;> rw [h] <;>
      exact ⟨rfl, rfl, rfl, rfl⟩
  obtain ⟨hRunning, hAsleep, hVote, hClaim⟩ := hWeights
  refine ⟨Local.of_work hSame hEngine hPcOff hHandOff hAskedOff hStockOff ?_ ?_ ?_ ?_ ?_ hCalls,
    ?_, ?_, ?_, ?_, ?_, .inl ⟨.inr hPc, hNext⟩⟩
  · rw [hRunning, hPc]
    rfl
  · rw [hAsleep, hPc]
    rfl
  · rw [hVote, hPc]
    rfl
  · rw [hClaim, hPc]
    rfl
  · have hNone : (s.pc t).owes = 0 := by rw [hPc]; rfl
    omega
  · rw [congrArg State.sleeping hSame]
  · rw [congrArg State.ended hSame]
  · rw [congrArg State.engineSleeping hSame]
  · rw [congrArg State.resourceCount hSame]
  · exact ⟨by rw [congrArg State.finished hSame], by rw [congrArg State.wokenUp hSame],
      by rw [congrArg State.serverLock hSame], by
        rw [congrArg State.sleepingProcessingEngines hSame]⟩

theorem working_eq_some {t : T} {next : State E P T} (h : Server.working s t next = some s') :
    s.pc t = .working ∧ next = s' := by
  unfold Server.working at h
  split at h
  · exact ⟨‹_›, Option.some.inj h⟩
  · exact absurd h (by simp)

/-- A step of the main loop with a guard that forbids it. -/
theorem guarded_eq_some {c : Prop} [Decidable c] {t : T} {next : State E P T}
    (h : (if c then none else Server.working s t next) = some s') :
    ¬ c ∧ s.pc t = .working ∧ next = s' := by
  split at h
  · exact absurd h (by simp)
  · exact ⟨‹_›, working_eq_some h⟩

/-- A step of the main loop with a guard that allows it. -/
theorem allowed_eq_some {c : Prop} [Decidable c] {t : T} {next : State E P T}
    (h : (if c then Server.working s t next else none) = some s') :
    c ∧ s.pc t = .working ∧ next = s' := by
  split at h
  · exact ⟨‹_›, working_eq_some h⟩
  · exact absurd h (by simp)

/-- A step that is not one of the main loop. -/
theorem enabled_eq_some {c : Prop} [Decidable c] {next : State E P T}
    (h : (if c then some next else none) = some s') : c ∧ next = s' := by
  split at h
  · exact ⟨‹_›, Option.some.inj h⟩
  · exact absurd h (by simp)

/-- A thread begins to run. -/
theorem plain_start {t : T} (h : v.step s (.start t) = some s') : Plain v s s' t := by
  obtain ⟨hPc, rfl⟩ := enabled_eq_some h
  refine ⟨⟨fun t' ht => Function.update_of_ne ht _ _, fun _ _ => rfl, fun _ _ => rfl, fun p => ?_,
    fun p => ?_, fun p _ => ⟨rfl, rfl⟩, fun e => ?_, fun _ _ => rfl, ?_,
    calls_of_same rfl rfl (fun t' ht => Function.update_of_ne ht _ _) ?_,
    fun _ _ => rfl, fun _ _ => rfl, ?_⟩,
    rfl, rfl, rfl, rfl, ⟨rfl, rfl, rfl, rfl⟩, .inl ⟨.inl hPc, .inl (Function.update_self _ _ _)⟩⟩
  all_goals dsimp only [State.setPc]
  · rw [Function.update_self, hPc]
    exact update_add _ _ 1 p
  · simp [hPc, show Pc.working.asleep = 0 from rfl, show Pc.created.asleep = 0 from rfl]
  · simp [hPc, State.flag, show Pc.working.vote = 0 from rfl, show Pc.created.vote = 0 from rfl]
  · rw [Function.update_self, hPc]
    exact le_refl _
  · rw [Function.update_self, hPc]
    exact le_refl (0 : Int)
  · simp [hPc, show Pc.working.claim = 0 from rfl, show Pc.created.claim = 0 from rfl]

/-- A blocked thread takes a resource from its queue. -/
theorem plain_take {t : T} (h : v.step s (.take t) = some s') : Plain v s s' t := by
  obtain ⟨⟨hPc, hQueue⟩, rfl⟩ := enabled_eq_some h
  refine ⟨Local.of_work (p := v.processor t) rfl rfl (fun t' ht => Function.update_of_ne ht _ _)
    (fun t' ht => Function.update_of_ne ht _ _) (fun _ _ => rfl) (fun p hp => ?_) ?_ ?_ ?_ ?_ ?_
    (calls_of_same rfl rfl (fun t' ht => Function.update_of_ne ht _ _) ?_),
    rfl, rfl, rfl, rfl, ⟨rfl, rfl, rfl, rfl⟩,
    .inr ⟨hPc, ?_, .inl ⟨Function.update_self _ _ _, hQueue⟩⟩⟩
  all_goals dsimp only [State.setPc, State.setHand, State.setQueue]
  · simp [State.stock, Function.update_of_ne hp]
  · rw [Function.update_self, hPc]
    rfl
  · rw [Function.update_self, hPc]
    rfl
  · rw [Function.update_self, hPc]
    rfl
  · rw [Function.update_self, hPc]
    rfl
  · have hOwes : Pc.waking.owes = 0 ∧ Pc.blocked.owes = 0 := ⟨rfl, rfl⟩
    simp only [State.stock, State.held, State.lent, Function.update_self, hPc, hOwes.1, hOwes.2]
    omega
  · rw [Function.update_self, hPc]
    exact le_refl (0 : Int)
  · rw [Function.update_self]
    omega

/-- A thread takes a request out of its queue. -/
theorem calls_of_taking {t : T} {p : P} {pc : Pc} {n : Nat} (hOwn : v.processor t = p)
    (hCalls : s.calls p ≠ 0) (hTaking : pc.taking = 1) (hOld : (s.pc t).taking = 0) (p' : P)
    (h : s.calls p' + v.taken s p' ≤ Server.requests s p') :
    (((s.setCalls p (s.calls p - 1)).setHand t n).setPc t pc).calls p' +
      v.taken (((s.setCalls p (s.calls p - 1)).setHand t n).setPc t pc) p' ≤
      Server.requests (((s.setCalls p (s.calls p - 1)).setHand t n).setPc t pc) p' := by
  have hTaken : v.taken (((s.setCalls p (s.calls p - 1)).setHand t n).setPc t pc) p' =
      v.taken s p' + if v.processor t = p' then 1 else 0 := by
    unfold Server.taken
    rw [Lib.tally_change (f := fun t => (s.pc t).taking) t
      fun t' ht => congrArg Pc.taking (Function.update_of_ne ht _ _)]
    simp only [State.setPc, Function.update_self, hTaking, hOld, sub_zero]
  have hRest : (((s.setCalls p (s.calls p - 1)).setHand t n).setPc t pc).calls p' =
      Function.update s.calls p (s.calls p - 1) p' := rfl
  have hAsked : Server.requests (((s.setCalls p (s.calls p - 1)).setHand t n).setPc t pc) p' =
      Server.requests s p' := rfl
  rw [hTaken, hRest, hAsked, hOwn]
  by_cases hp : p = p'
  · subst hp
    rw [Function.update_self, if_pos rfl]
    omega
  · rw [Function.update_of_ne (Ne.symm hp), if_neg hp]
    omega

theorem plain_takeCall {t : T} (h : v.step s (.takeCall t) = some s') : Plain v s s' t := by
  obtain ⟨⟨hPc, hCalls⟩, rfl⟩ := enabled_eq_some h
  refine ⟨Local.of_work (p := v.processor t) rfl rfl (fun t' ht => Function.update_of_ne ht _ _)
    (fun t' ht => Function.update_of_ne ht _ _) (fun _ _ => rfl) (fun p hp => rfl) ?_ ?_ ?_ ?_ ?_
    (calls_of_taking rfl hCalls rfl (by rw [hPc]; rfl)),
    rfl, rfl, rfl, rfl, ⟨rfl, rfl, rfl, rfl⟩, .inr ⟨hPc, ?_, .inr (Function.update_self _ _ _)⟩⟩
  all_goals dsimp only [State.setPc, State.setHand, State.setCalls]
  · rw [Function.update_self, hPc]
    rfl
  · rw [Function.update_self, hPc]
    rfl
  · rw [Function.update_self, hPc]
    rfl
  · rw [Function.update_self, hPc]
    rfl
  · have hOwes : Pc.wakingCall.owes = 1 ∧ Pc.blocked.owes = 0 := ⟨rfl, rfl⟩
    simp only [State.stock, State.held, State.lent, Function.update_self, hPc, hOwes.1, hOwes.2]
    omega
  · rw [Function.update_self]
    omega

/-- A step that only moves resources. -/
theorem Plain.of_move {t : T} {p : P} {n q d : Nat} (hEngine : v.engine p = v.engineOf t)
    (hPc : s.pc t = .working)
    (hLedger : q + d + n ≤ s.queue p + s.deletedResources p + s.hand t) :
    Plain v s (((s.setHand t n).setQueue p q).setDeleted p d) t := by
  refine Plain.of_working p rfl hEngine (fun _ _ => rfl) (fun t' ht => Function.update_of_ne ht _ _)
    (fun _ _ => rfl) (fun p' hp => ?_) hPc (.inl hPc) ?_
    (calls_of_same (t := t) rfl rfl (fun _ _ => rfl) ?_)
  · simp [State.stock, State.setDeleted, State.setQueue, State.setHand, Function.update_of_ne hp]
  · have hOwes : (s.pc t).owes = 0 := by rw [hPc]; rfl
    simp only [State.stock, State.held, State.lent, State.setDeleted, State.setQueue, State.setHand,
      Function.update_self, hOwes]
    omega
  · exact le_refl _

/-- A step that moves resources and goes on to `UpdateResourceCount(k)`. -/
theorem Plain.of_count {t : T} {p : P} {k : Int} {n q d : Nat} (hEngine : v.engine p = v.engineOf t)
    (hPc : s.pc t = .working) (hHand : k ≤ n)
    (hLedger : (q : Int) + d + n ≤ s.queue p + s.deletedResources p + s.hand t + k) :
    Plain v s ((((s.setHand t n).setQueue p q).setDeleted p d).setPc t (.count k .work)) t := by
  refine Plain.of_working p rfl hEngine (fun t' ht => Function.update_of_ne ht _ _)
    (fun t' ht => Function.update_of_ne ht _ _) (fun _ _ => rfl) (fun p' hp => ?_) hPc
    (.inr (.inl ⟨k, .work, ?_, ?_, .inl rfl⟩)) ?_
    (calls_of_same rfl rfl (fun t' ht => Function.update_of_ne ht _ _) ?_)
  · simp [State.stock, State.setPc, State.setDeleted, State.setQueue, State.setHand,
      Function.update_of_ne hp]
  · simp [State.setPc]
  · simpa [State.setPc, State.setDeleted, State.setQueue, State.setHand] using hHand
  · simp only [State.stock, State.held, State.lent, State.setPc, State.setDeleted, State.setQueue,
      State.setHand, Function.update_self, Pc.owes]
    omega
  · simp only [State.setPc, Function.update_self, hPc]
    exact le_refl (0 : Int)

/-- `GetItem` without waiting: a resource from the engine's input queue is still to be counted. -/
theorem plain_get {t : T} (h : v.step s (.get t) = some s') : Plain v s s' t := by
  obtain ⟨hGuard, hPc, rfl⟩ := guarded_eq_some h
  have hQueue : s.queue (v.processor t) ≠ 0 := (not_or.mp hGuard).2
  split
  · have hPlain : Plain v s _ t := Plain.of_count (p := v.processor t) (k := 1) (n := s.hand t + 1)
      (q := s.queue (v.processor t) - 1) (d := s.deletedResources (v.processor t)) rfl hPc
      (by omega) (by omega)
    simpa only [State.setPc, State.setHand, State.setQueue, State.setDeleted,
      Function.update_eq_self] using hPlain
  · have hPlain : Plain v s _ t := Plain.of_move (p := v.processor t) (n := s.hand t + 1)
      (q := s.queue (v.processor t) - 1) (d := s.deletedResources (v.processor t)) rfl
      hPc (by omega)
    have hStay : Function.update s.pc t .working = s.pc := by
      rw [← hPc, Function.update_eq_self]
    simpa only [State.setPc, State.setHand, State.setQueue, State.setDeleted,
      Function.update_eq_self, hStay] using hPlain

/-- `GetItem` without waiting, of a request. -/
theorem plain_getCall {t : T} (h : v.step s (.getCall t) = some s') : Plain v s s' t := by
  obtain ⟨hGuard, hPc, rfl⟩ := guarded_eq_some h
  have hCalls : s.calls (v.processor t) ≠ 0 := (not_or.mp hGuard).2
  refine Plain.of_working (v.processor t) rfl rfl (fun t' ht => Function.update_of_ne ht _ _)
    (fun t' ht => Function.update_of_ne ht _ _) (fun _ _ => rfl) (fun _ _ => rfl) hPc
    (.inr (.inl ⟨1, .workCall, Function.update_self _ _ _, ?_, .inr ⟨rfl, rfl⟩⟩)) ?_
    (calls_of_taking rfl hCalls rfl (by rw [hPc]; rfl))
  · simp only [State.setPc, State.setHand, State.setCalls, Function.update_self]
    omega
  · simp only [State.stock, State.held, State.lent, State.setPc, State.setHand, State.setCalls,
      Function.update_self, Pc.owes]
    omega

/-- The requests that go out to one processor, by the thread and by the processor. -/
theorem lent_setAsked (s : State E P T) (t : T) (p : P) (n : Nat) :
    (s.setAsked t p n).lent t = s.lent t + (n - s.asked t p) := by
  unfold State.lent Lib.total
  rw [Lib.tally_change (f := fun p => (s.asked t p : Int)) p fun p' hp => ?_]
  · simp [State.setAsked]
  · simp [State.setAsked, Function.update_of_ne hp]

theorem requests_setAsked (s : State E P T) (t : T) (p : P) (n : Nat) (p' : P) :
    Server.requests (s.setAsked t p n) p' =
      Server.requests s p' + if p = p' then (n : Int) - s.asked t p else 0 := by
  unfold Server.requests Lib.total
  rw [Lib.tally_change (f := fun t => (s.asked t p' : Int)) t fun t' ht => ?_]
  · by_cases hp : p = p'
    · subst hp
      simp [State.setAsked]
    · simp [State.setAsked, Function.update_of_ne (Ne.symm hp), hp]
  · simp [State.setAsked, Function.update_of_ne ht]

/-- A module asks another engine: its resource is lent, and one more request is on the way. -/
theorem plain_call {t : T} {p : P} (h : v.step s (.call t p) = some s') : Plain v s s' t := by
  obtain ⟨hGuard, hPc, rfl⟩ := guarded_eq_some h
  have hHand : s.hand t ≠ 0 := (not_or.mp hGuard).1
  refine Plain.of_working (v.processor t) rfl rfl (fun _ _ => rfl)
    (fun t' ht => Function.update_of_ne ht _ _) (fun t' ht => Function.update_of_ne ht _ _)
    (fun _ _ => rfl) hPc (.inl hPc) ?_ (fun p' hBefore => ?_)
  · have hOwes : (s.pc t).owes = 0 := by rw [hPc]; rfl
    have hLent := lent_setAsked s t p (s.asked t p + 1)
    show s.stock _ + ((Function.update s.hand t (s.hand t - 1) t : Nat) +
      (s.setAsked t p (s.asked t p + 1)).lent t) - (s.pc t).owes ≤ s.stock _ + (s.hand t + s.lent t)
    rw [Function.update_self, hOwes]
    omega
  · have hRequests := requests_setAsked s t p (s.asked t p + 1) p'
    show ((Function.update s.calls p (s.calls p + 1) p' : Nat) : Int) + v.taken s p' ≤
      Server.requests (s.setAsked t p (s.asked t p + 1)) p'
    rw [hRequests]
    by_cases hp : p = p'
    · subst hp
      rw [Function.update_self, if_pos rfl]
      omega
    · rw [Function.update_of_ne (Ne.symm hp), if_neg hp]
      omega

theorem plain_answer {t : T} {p : P} (h : v.step s (.answer t p) = some s') : Plain v s s' t := by
  obtain ⟨hGuard, hPc, rfl⟩ := guarded_eq_some h
  obtain ⟨hAsked, hInside⟩ := not_or.mp hGuard
  refine Plain.of_working (v.processor t) rfl rfl (fun _ _ => rfl)
    (fun t' ht => Function.update_of_ne ht _ _) (fun t' ht => Function.update_of_ne ht _ _)
    (fun _ _ => rfl) hPc (.inl hPc) ?_ (fun p' hBefore => ?_)
  · have hOwes : (s.pc t).owes = 0 := by rw [hPc]; rfl
    have hLent := lent_setAsked s t p (s.asked t p - 1)
    show s.stock _ + ((Function.update s.hand t (s.hand t + 1) t : Nat) +
      (s.setAsked t p (s.asked t p - 1)).lent t) - (s.pc t).owes ≤ s.stock _ + (s.hand t + s.lent t)
    rw [Function.update_self, hOwes]
    omega
  · have hRequests := requests_setAsked s t p (s.asked t p - 1) p'
    show (s.calls p' : Int) + v.taken s p' ≤ Server.requests (s.setAsked t p (s.asked t p - 1)) p'
    rw [hRequests]
    by_cases hp : p = p'
    · subst hp
      rw [if_pos rfl]
      omega
    · rw [if_neg hp]
      omega

/-- The INPUT module has no more resources. -/
theorem plain_exit {t : T} (h : v.step s (.exit t) = some s') : Plain v s s' t := by
  obtain ⟨hInput, hPc, rfl⟩ := allowed_eq_some h
  refine Plain.of_working (v.processor t) rfl rfl (fun t' ht => Function.update_of_ne ht _ _)
    (fun _ _ => rfl) (fun _ _ => rfl) (fun _ _ => rfl) hPc
    (.inr (.inr ⟨Function.update_self _ _ _, hInput⟩)) ?_
    (calls_of_same rfl rfl (fun t' ht => Function.update_of_ne ht _ _) ?_)
  · simp [State.setPc, State.stock, State.held, State.lent, Pc.owes]
  · simp only [State.setPc, Function.update_self, hPc]
    exact le_refl (0 : Int)

/-- **The kinds of steps.** -/
theorem step_cases {a : Label P T} (h : v.step s a = some s') (hOk : OnTime v s a) :
    ∃ t, Plain v s s' t ∨
      ((s.sleepingThreads (v.processor t) + 1 = s.runningThreads (v.processor t) → AllBegun v s t) ∧
        v.isInput (v.processor t) = false ∧ s.pc t = .working ∧
        s' = v.updateSleeping s t 1 .block) ∨
      (∃ after, Wakes (s.pc t) after ∧ s' = v.updateSleeping s t (-1) after) ∨
      ((s.runningThreads (v.processor t) = 1 → AllBegun v s t) ∧
        s.pc t = .finishing ∧ s' = v.threadFinished s t) ∨
      (v.report s t = some s' ∧ OnTime v s (.report t)) := by
  cases a with
  | start t => exact ⟨t, .inl (plain_start h)⟩
  | fetchDeleted t => exact hOk.elim
  | discardTwice t => exact hOk.elim
  | take t => exact ⟨t, .inl (plain_take h)⟩
  | takeCall t => exact ⟨t, .inl (plain_takeCall h)⟩
  | get t => exact ⟨t, .inl (plain_get h)⟩
  | getCall t => exact ⟨t, .inl (plain_getCall h)⟩
  | call t p => exact ⟨t, .inl (plain_call h)⟩
  | answer t p => exact ⟨t, .inl (plain_answer h)⟩
  | exit t => exact ⟨t, .inl (plain_exit h)⟩
  | report t => exact ⟨t, .inr (.inr (.inr (.inr ⟨h, hOk⟩)))⟩
  -- resources that come into the engine or leave it, counted next
  | fetch t =>
    obtain ⟨-, hPc, rfl⟩ := allowed_eq_some h
    have hPlain : Plain v s _ t := Plain.of_count (p := v.processor t) (k := 1) (n := s.hand t + 1)
      (q := s.queue (v.processor t)) (d := s.deletedResources (v.processor t)) rfl hPc (by omega)
      (by omega)
    exact ⟨t, .inl (by simpa only [State.setPc, State.setHand, State.setQueue, State.setDeleted,
      Function.update_eq_self] using hPlain)⟩
  | create t n k =>
    obtain ⟨hPc, rfl⟩ := working_eq_some h
    obtain rfl : k = n := hOk
    split
    · rename_i hNone
      have hPlain : Plain v s _ t := Plain.of_move (p := v.processor t) (n := s.hand t + k)
        (q := s.queue (v.processor t)) (d := s.deletedResources (v.processor t)) rfl hPc (by omega)
      have hStay : Function.update s.pc t .working = s.pc := by
        rw [← hPc, Function.update_eq_self]
      exact ⟨t, .inl (by simpa only [State.setPc, State.setHand, State.setQueue, State.setDeleted,
        Function.update_eq_self, hStay] using hPlain)⟩
    · have hPlain : Plain v s _ t := Plain.of_count (p := v.processor t) (k := k)
        (n := s.hand t + k)
        (q := s.queue (v.processor t)) (d := s.deletedResources (v.processor t)) rfl hPc (by omega)
        (by omega)
      exact ⟨t, .inl (by simpa only [State.setPc, State.setHand, State.setQueue, State.setDeleted,
        Function.update_eq_self] using hPlain)⟩
  | copy t p =>
    obtain ⟨hGuard, hPc, rfl⟩ := guarded_eq_some h
    obtain ⟨hHand, hEngine⟩ := not_or.mp hGuard
    have hPlain : Plain v s _ t := Plain.of_count (p := p) (k := 1) (n := s.hand t)
      (q := s.queue p + 1) (d := s.deletedResources p) (of_not_not hEngine) hPc
      (by omega) (by omega)
    exact ⟨t, .inl (by simpa only [State.setPc, State.setHand, State.setQueue, State.setDeleted,
      Function.update_eq_self] using hPlain)⟩
  | copyOut t =>
    obtain ⟨hGuard, hPc, rfl⟩ := guarded_eq_some h
    have hPlain : Plain v s _ t := Plain.of_count (p := v.processor t) (k := 1) (n := s.hand t)
      (q := s.queue (v.processor t)) (d := s.deletedResources (v.processor t)) rfl hPc (by omega)
      (by omega)
    exact ⟨t, .inl (by simpa only [State.setPc, State.setHand, State.setQueue, State.setDeleted,
      Function.update_eq_self] using hPlain)⟩
  | leave t =>
    obtain ⟨hGuard, hPc, rfl⟩ := guarded_eq_some h
    have hPlain : Plain v s _ t := Plain.of_count (p := v.processor t) (k := -1) (n := s.hand t - 1)
      (q := s.queue (v.processor t)) (d := s.deletedResources (v.processor t)) rfl hPc (by omega)
      (by omega)
    exact ⟨t, .inl (by simpa only [State.setPc, State.setHand, State.setQueue, State.setDeleted,
      Function.update_eq_self] using hPlain)⟩
  | discard t =>
    obtain ⟨hGuard, hPc, rfl⟩ := guarded_eq_some h
    have hPlain : Plain v s _ t := Plain.of_count (p := v.processor t) (k := -1) (n := s.hand t)
      (q := s.queue (v.processor t)) (d := s.deletedResources (v.processor t) - 1) rfl
      hPc (by omega)
      (by omega)
    exact ⟨t, .inl (by simpa only [State.setPc, State.setHand, State.setQueue, State.setDeleted,
      Function.update_eq_self] using hPlain)⟩
  -- resources that go from one place to another, or get lost
  | drop t =>
    obtain ⟨hGuard, hPc, rfl⟩ := guarded_eq_some h
    have hPlain : Plain v s _ t := Plain.of_move (p := v.processor t) (n := s.hand t - 1)
      (q := s.queue (v.processor t)) (d := s.deletedResources (v.processor t)) rfl hPc (by omega)
    exact ⟨t, .inl (by simpa only [State.setHand, State.setQueue, State.setDeleted,
      Function.update_eq_self] using hPlain)⟩
  | put t p =>
    obtain ⟨hGuard, hPc, rfl⟩ := guarded_eq_some h
    obtain ⟨hHand, hEngine⟩ := not_or.mp hGuard
    have hPlain : Plain v s _ t := Plain.of_move (p := p) (n := s.hand t - 1) (q := s.queue p + 1)
      (d := s.deletedResources p) (of_not_not hEngine) hPc (by omega)
    exact ⟨t, .inl (by simpa only [State.setHand, State.setQueue, State.setDeleted,
      Function.update_eq_self] using hPlain)⟩
  | delete t =>
    obtain ⟨hGuard, hPc, rfl⟩ := guarded_eq_some h
    have hPlain : Plain v s _ t := Plain.of_move (p := v.processor t) (n := s.hand t - 1)
      (q := s.queue (v.processor t)) (d := s.deletedResources (v.processor t) + 1) rfl
      hPc (by omega)
    exact ⟨t, .inl (by simpa only [State.setHand, State.setQueue, State.setDeleted,
      Function.update_eq_self] using hPlain)⟩
  -- the reports
  | sleep t =>
    obtain ⟨hInput, hPc, rfl⟩ := guarded_eq_some h
    exact ⟨t, .inr (.inl ⟨hOk, Bool.eq_false_of_not_eq_true hInput, hPc, rfl⟩)⟩
  | wake t =>
    refine ⟨t, .inr (.inr (.inl ?_))⟩
    simp only [Server.step] at h
    split at h
    · rename_i hPc
      rw [hPc, ← Option.some.inj h]
      split
      · exact ⟨_, .enter, rfl⟩
      · exact ⟨_, .work, rfl⟩
    · rename_i hPc
      rw [hPc, ← Option.some.inj h]
      exact ⟨_, .call, rfl⟩
    · cases h
  | finish t =>
    obtain ⟨hPc, rfl⟩ := enabled_eq_some h
    exact ⟨t, .inr (.inr (.inr (.inl ⟨hOk, hPc, rfl⟩)))⟩

end HectorCore.Batch
