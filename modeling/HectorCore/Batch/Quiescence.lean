import HectorCore.Batch.Threads

set_option linter.unusedSectionVars false

/-!
# Quiescence — batch mode does not stop early when the reports are on time

An engine that is marked as sleeping need not be quiet: a request of another engine may be
coming in, and its wake-up is reported later. But then the caller still has the resource that
the request is made for, and an engine with a resource that is counted is not marked. So when
all engines are marked at once, nothing goes on in any of them.

* `Dozing`   — an engine that is marked: its threads have no resource that is counted, and it is
  quiet unless a request is coming in;
* `Loop`     — the server's count when a thread is in the loop over `pthread_yield`;
* `dozing_of_check`       — an engine that `CheckSleeping` finds asleep is dozing;
* `all_quiet`             — if every engine is marked, every engine is quiet;
* `batch_finishes_quiet`  — the server decides that it is finished only when all is quiet;
* `finishes_before_second_thread`, `finishes_before_wakeup` — runs in which a thread starts
  late, and in which a wake-up is reported late.
-/

namespace HectorCore.Batch

-- ---------------------------------------------------------------------------
-- Quiet engines
-- ---------------------------------------------------------------------------

/-- Asleep or ended, with nothing left to tell the engine. -/
def Pc.isStill : Pc → Bool
  | .blocked | .finished => true
  | .check a | .srvSleep a | .srvStuck a | .srvYield a | .srvWake a => a = .block || a = .done
  | _ => false

variable {E P T : Type} [Fintype E] [Fintype P] [Fintype T]
  [DecidableEq E] [DecidableEq P] [DecidableEq T]

/-- Nothing goes on in engine `e`. -/
structure Quiet (v : Server E P T) (s : State E P T) (e : E) : Prop where
  still : ∀ t, v.engineOf t = e → (s.pc t).isStill = true ∧ s.held t = 0
  stock : ∀ p, v.engine p = e → s.queue p = 0 ∧ s.deletedResources p = 0
  count : s.resourceCount e = 0
  full : s.processorsSleeping e = Lib.size v.engine e

/-- Engine `e` has no resource of its own, but for those that come with a request and those
that a thread has just counted, in front of `CheckSleeping`. -/
structure Dozing (v : Server E P T) (s : State E P T) (e : E) : Prop where
  settled : ∀ t, v.engineOf t = e →
    s.lent t = 0 ∧ ((s.hand t : Int) ≤ (s.pc t).owes ∨ ∃ a, s.pc t = .check a)
  stock : ∀ p, v.engine p = e → s.queue p = 0 ∧ s.deletedResources p = 0
  woken : Quiet v s e ∨ ∃ t, v.engineOf t = e ∧ (s.pc t).taking = 1

namespace Pc

variable {input : Bool} {n : Nat} {pc : Pc}

theorem isTaking_of_taking (h : pc.taking = 1) : pc.isTaking = true := by
  by_contra hNot
  rw [taking, if_neg hNot] at h
  exact absurd h (by decide)

theorem taking_nonneg (pc : Pc) : 0 ≤ pc.taking := by
  unfold taking
  split <;> decide

theorem taking_cases (pc : Pc) : pc.taking = 0 ∨ pc.taking = 1 := by
  unfold taking
  split
  · exact .inr rfl
  · exact .inl rfl

/-- A parked thread that has sent all of its reports to the engine is still. -/
theorem Fits.isStill (h : pc.Fits input n) (hParked : pc.isAsleep = true ∨ pc.isEnded = true)
    (hVote : pc.vote = 0) (hHand : n = pc.owes) (hNoCall : pc.taking = 0) : pc.isStill = true := by
  cases pc with
  | created => exact absurd hParked (by decide)
  | working => exact absurd hParked (by decide)
  | finishing => exact absurd hParked (by decide)
  | blocked => rfl
  | finished => rfl
  | waking =>
    have hHas : 1 ≤ n := h.2
    have hNone : (n : Int) = 0 := hHand
    omega
  | wakingCall => exact absurd hNoCall (by decide)
  | psleep a => exact absurd hVote (by show (-1 : Int) ≠ 0; decide)
  | pwake a => exact absurd hVote (by show (1 : Int) ≠ 0; decide)
  | count k a =>
    rcases h.2 with rfl | ⟨rfl, -⟩ <;> simp [isAsleep, isEnded, Pc.after] at hParked
  | check a | srvSleep a | srvStuck a | srvYield a | srvWake a =>
    simpa [Pc.isStill, isAsleep, isEnded, Pc.after] using hParked

theorem owes_of_isStill (h : pc.isStill = true) : pc.owes = 0 := by
  have hAfter : ∀ {a : After}, (a = .block || a = .done) = true → a.owes = 0 := by
    intro a ha
    cases a <;> first | rfl | exact absurd ha (by decide)
  cases pc with
  | check a | srvSleep a | srvStuck a | srvYield a | srvWake a => exact hAfter h
  | blocked | finished => rfl
  | created | working | waking | wakingCall | finishing | psleep | pwake | count => cases h

/-- A thread that reports its waking up has a resource that it does not owe to the count. -/
theorem Fits.vote_le (h : pc.Fits input n) (hHand : n = pc.owes) (hNoCall : pc.taking = 0) :
    pc.vote ≤ 0 := by
  cases pc with
  | pwake a =>
    have hHas : 1 ≤ n := h.2
    have hCall : (n : Int) = a.owes := hHand
    rw [taking_of_after (a := a) rfl] at hNoCall
    cases a with
    | enterCall => exact absurd hNoCall (by decide)
    | block | enter | work | workCall | done =>
      have hNone : (n : Int) = 0 := hCall
      omega
  | psleep a => exact (by decide : (-1 : Int) ≤ 0)
  | _ => exact le_refl 0

end Pc

variable {v : Server E P T} {s s' : State E P T} {t : T}

/-- A processor is asleep or has ended, not both. -/
theorem Threads.flag_le (h : Threads v s) (p : P) : s.flag p ≤ 1 := by
  unfold State.flag bit
  by_cases hSleeping : s.sleeping p = true
  · by_cases hEnded : s.ended p = true
    · have hInput := (h.sleeping p hSleeping).1
      rw [(h.ended p hEnded).1] at hInput
      exact absurd hInput (by decide)
    · simp [hSleeping, hEnded]
  · split_ifs <;> decide

/-- The threads of a processor that counts as sleeping. -/
theorem Threads.parked_of_flag (h : Threads v s) (hFlag : s.flag (v.processor t) = 1) :
    (s.pc t).isAsleep = true ∨ (s.pc t).isEnded = true := by
  by_cases hSleeping : s.sleeping (v.processor t) = true
  · exact .inl ((h.sleeping _ hSleeping).2 t rfl)
  · refine .inr ((h.ended _ ?_).2 t rfl)
    by_contra hEnded
    rw [State.flag, bit, bit, if_neg hSleeping, if_neg hEnded] at hFlag
    exact absurd hFlag (by decide)

theorem lent_nonneg (s : State E P T) (t : T) : 0 ≤ s.lent t :=
  Lib.tally_nonneg fun _ _ => Int.natCast_nonneg _

theorem stock_nonneg (s : State E P T) (p : P) : 0 ≤ s.stock p := by
  unfold State.stock
  omega

/-- Nothing in the queue and nothing to be handed on. -/
theorem stock_eq_zero {p : P} (h : s.stock p = 0) : s.queue p = 0 ∧ s.deletedResources p = 0 := by
  unfold State.stock at h
  omega

/-- With `resourceCount = 0`, an engine has no resource but those that come with a request. -/
theorem settled_of_count {e : E} (hThreads : Threads v s) (hBooks : Books v s)
    (hCount : s.resourceCount e ≤ 0) :
    s.resourceCount e = 0 ∧
    (∀ t, v.engineOf t = e → s.lent t = 0 ∧ (s.hand t : Int) = (s.pc t).owes) ∧
    ∀ p, v.engine p = e → s.queue p = 0 ∧ s.deletedResources p = 0 := by
  have hLedger := hBooks.ledger e
  have hOwes : ∀ t, v.engineOf t = e → (s.pc t).owes ≤ s.held t := by
    intro t _
    have hHand := (hThreads.fits t).owes_le
    have hLent := lent_nonneg s t
    unfold State.held
    omega
  have hOwed := Lib.tally_le hOwes
  have hStocked : 0 ≤ v.stocked s e := Lib.tally_nonneg fun p _ => stock_nonneg s p
  refine ⟨by omega, fun t ht => ?_, fun p hp => ?_⟩
  · have hSame := Lib.eq_of_tally_le hOwes (by omega) ht
    have hHand := (hThreads.fits t).owes_le
    have hLent := lent_nonneg s t
    unfold State.held at hSame
    exact ⟨by omega, by omega⟩
  · exact stock_eq_zero (Lib.eq_zero_of_tally (fun p _ => stock_nonneg s p)
      (show v.stocked s e ≤ 0 by omega) hp)

/-- **An engine that `CheckSleeping` finds asleep is quiet**, unless a request is coming in. With
`resourceCount = 0` no thread has a resource that it has not yet counted out, so that no report
of a waking up is under way; then `processorsSleeping` cannot exceed the number of marked
processors. -/
theorem quiet_of_check {e : E} (hThreads : Threads v s) (hBooks : Books v s)
    (hFull : s.processorsSleeping e = Lib.size v.engine e) (hCount : s.resourceCount e ≤ 0)
    (hNoCall : ∀ t, v.engineOf t = e → (s.pc t).taking = 0) : Quiet v s e := by
  obtain ⟨hZero, hSettled, hStock⟩ := settled_of_count hThreads hBooks hCount
  have hVote : ∀ t, v.engineOf t = e → (s.pc t).vote ≤ 0 :=
    fun t ht => (hThreads.fits t).vote_le (hSettled t ht).2 (hNoCall t ht)
  have hVotes := Lib.tally_le hVote
  have hFlags : Lib.tally v.engine s.flag e ≤ Lib.size v.engine e :=
    Lib.tally_le fun p _ => hThreads.flag_le p
  have hSum := hFull
  rw [hBooks.votes e] at hSum
  rw [Lib.tally_zero] at hVotes
  have hNoVote : ∀ t, v.engineOf t = e → (s.pc t).vote = 0 :=
    fun t ht => Lib.eq_of_tally_le hVote (by rw [Lib.tally_zero]; omega) ht
  have hFlag : ∀ p, v.engine p = e → s.flag p = 1 :=
    fun p hp => Lib.eq_one_of_tally (fun p _ => hThreads.flag_le p) (by omega) hp
  refine ⟨fun t ht => ?_, hStock, hZero, hFull⟩
  obtain ⟨hLent, hHand⟩ := hSettled t ht
  have hStill : (s.pc t).isStill = true :=
    (hThreads.fits t).isStill (hThreads.parked_of_flag (hFlag _ ht)) (hNoVote t ht) hHand
      (hNoCall t ht)
  rw [Pc.owes_of_isStill hStill] at hHand
  exact ⟨hStill, by rw [State.held, hHand, hLent, add_zero]⟩

theorem dozing_of_check {e : E} (hThreads : Threads v s) (hBooks : Books v s)
    (hFull : s.processorsSleeping e = Lib.size v.engine e) (hCount : s.resourceCount e ≤ 0) :
    Dozing v s e := by
  obtain ⟨-, hSettled, hStock⟩ := settled_of_count hThreads hBooks hCount
  refine ⟨fun t ht => ⟨(hSettled t ht).1, .inl (hSettled t ht).2.le⟩, hStock, ?_⟩
  by_cases hCall : ∃ t, v.engineOf t = e ∧ (s.pc t).taking = 1
  · exact .inr hCall
  · refine .inl (quiet_of_check hThreads hBooks hFull hCount fun t ht => ?_)
    exact (Pc.taking_cases _).resolve_right fun hTaking => hCall ⟨t, ht, hTaking⟩

/-- **If every engine is marked, every engine is quiet**: no engine has lent a resource to a
request, so no request is on the way. -/
theorem all_quiet (hBooks : Books v s) (hDozing : ∀ e, Dozing v s e) (e : E) :
    Quiet v s e ∧ ∀ p, s.calls p = 0 := by
  have hLent : ∀ t, s.lent t = 0 := fun t => ((hDozing (v.engineOf t)).settled t rfl).1
  have hAsked : ∀ t p, s.asked t p = 0 := by
    intro t p
    have hNonneg : ∀ p, () = () → (0 : Int) ≤ s.asked t p := fun p _ => Int.natCast_nonneg _
    have hZero : (s.asked t p : Int) = 0 :=
      Lib.eq_zero_of_tally hNonneg (le_of_eq (hLent t)) rfl
    exact_mod_cast hZero
  have hNone : ∀ p, Server.requests s p = 0 := by
    intro p
    unfold Server.requests Lib.total
    simp only [hAsked, Nat.cast_zero]
    exact Lib.tally_zero
  have hTaken : ∀ p, 0 ≤ v.taken s p := fun p => Lib.tally_nonneg fun t _ => Pc.taking_nonneg _
  have hCalls : ∀ p, s.calls p = 0 ∧ v.taken s p ≤ 0 := by
    intro p
    have hBefore := hBooks.calls p
    have hHere := hTaken p
    rw [hNone p] at hBefore
    omega
  refine ⟨(hDozing e).woken.resolve_right ?_, fun p => (hCalls p).1⟩
  rintro ⟨t, -, hTaking⟩
  have hZero := Lib.eq_zero_of_tally (fun t _ => Pc.taking_nonneg (s.pc t))
    (hCalls (v.processor t)).2 (rfl : v.processor t = v.processor t)
  rw [hTaking] at hZero
  exact absurd hZero (by decide)

-- ---------------------------------------------------------------------------
-- What a step leaves of an engine
-- ---------------------------------------------------------------------------

theorem Local.lent_off (hLocal : Local v s s' t) {t' : T} (ht : t' ≠ t) : s'.lent t' =
    s.lent t' := by
  rw [State.lent, State.lent, hLocal.asked_off t' ht]

/-- The threads of the other engines do not disturb a quiet engine. -/
theorem Quiet.off {e : E} (h : Quiet v s e) (hLocal : Local v s s' t) (he : e ≠ v.engineOf t) :
    Quiet v s' e := by
  refine ⟨fun t' ht => ?_, fun p hp => ?_, ?_, ?_⟩
  · have hOther : t' ≠ t := by
      rintro rfl
      exact he ht.symm
    rw [hLocal.pc_off t' hOther, hLocal.held_off t' hOther]
    exact h.still t' ht
  · have hSame := hLocal.stock_off p (by rw [hp]; exact he)
    have hBefore := h.stock p hp
    unfold State.stock at hSame
    omega
  · rw [hLocal.count_off e he]
    exact h.count
  · rw [hLocal.votes e, if_neg (Ne.symm he), h.full]
    omega

theorem Dozing.off {e : E} (h : Dozing v s e) (hLocal : Local v s s' t) (he : e ≠ v.engineOf t) :
    Dozing v s' e := by
  have hOther : ∀ {t'}, v.engineOf t' = e → t' ≠ t := by
    rintro t' ht rfl
    exact he ht.symm
  refine ⟨fun t' ht => ?_, fun p hp => ?_, h.woken.imp (fun hQuiet => hQuiet.off hLocal he) ?_⟩
  · rw [hLocal.pc_off t' (hOther ht), hLocal.hand_off t' (hOther ht), hLocal.lent_off (hOther ht)]
    exact h.settled t' ht
  · have hSame := hLocal.stock_off p (by rw [hp]; exact he)
    have hBefore := h.stock p hp
    unfold State.stock at hSame
    omega
  · rintro ⟨t', ht, hTaking⟩
    exact ⟨t', ht, by rw [hLocal.pc_off t' (hOther ht)]; exact hTaking⟩

/-- A thread that is not still is not in a quiet engine; if it keeps its request, another one
goes on coming in. -/
theorem Dozing.woken_of (h : Dozing v s (v.engineOf t)) (hLocal : Local v s s' t)
    (hStill : (s.pc t).isStill = false) (hTaking : (s.pc t).taking = 1 → (s'.pc t).taking = 1) :
    ∃ t', v.engineOf t' = v.engineOf t ∧ (s'.pc t').taking = 1 := by
  rcases h.woken with hQuiet | ⟨t', ht', hCall⟩
  · have hNot := (hQuiet.still t rfl).1
    rw [hStill] at hNot
    exact absurd hNot (by decide)
  · refine ⟨t', ht', ?_⟩
    by_cases hSame : t' = t
    · subst hSame
      exact hTaking hCall
    · rw [hLocal.pc_off t' hSame]
      exact hCall

/-- A step of a thread of a dozing engine outside its reports: what comes into the engine is
owed to the count. -/
theorem Dozing.of_local (h : Dozing v s (v.engineOf t)) (hThreads : Threads v s')
    (hLocal : Local v s s' t) (hCount : s'.resourceCount = s.resourceCount)
    (hCheck : ∀ a, s.pc t ≠ .check a)
    (hWoken : ∃ t', v.engineOf t' = v.engineOf t ∧ (s'.pc t').taking = 1) :
    Dozing v s' (v.engineOf t) := by
  obtain ⟨hLent, hHand⟩ := h.settled t rfl
  have hHand : (s.hand t : Int) ≤ (s.pc t).owes := by
    refine hHand.resolve_right ?_
    rintro ⟨a, ha⟩
    exact hCheck a ha
  have hStocked : v.stocked s (v.engineOf t) = 0 := by
    have hZero : v.stocked s (v.engineOf t) = Lib.tally v.engine (fun _ => 0) (v.engineOf t) := by
      refine Lib.tally_congr fun p hp => ?_
      obtain ⟨hQueue, hDeleted⟩ := h.stock p hp
      rw [State.stock, hQueue, hDeleted]
      rfl
    rw [hZero, Lib.tally_zero]
  have hLedger := hLocal.ledger
  have hNonneg : 0 ≤ v.stocked s' (v.engineOf t) := Lib.tally_nonneg fun p _ => stock_nonneg s' p
  have hOwes := (hThreads.fits t).owes_le
  have hLent' := lent_nonneg s' t
  rw [hStocked, hCount, State.held, State.held] at hLedger
  refine ⟨fun t' ht' => ?_, fun p hp => ?_, .inr hWoken⟩
  · by_cases hSame : t' = t
    · subst hSame
      exact ⟨by omega, .inl (by omega)⟩
    · rw [hLocal.lent_off hSame, hLocal.hand_off t' hSame, hLocal.pc_off t' hSame]
      exact h.settled t' ht'
  · exact stock_eq_zero (Lib.eq_zero_of_tally (fun p _ => stock_nonneg s' p)
      (show v.stocked s' (v.engineOf t) ≤ 0 by omega) hp)

theorem dozing_plain (h : Dozing v s (v.engineOf t)) (hThreads : Threads v s')
    (hPlain : Plain v s s' t) : Dozing v s' (v.engineOf t) := by
  have hLocal := hPlain.books
  rcases hPlain.turn with ⟨hPc, -⟩ | ⟨hPc, -, ⟨-, hQueue⟩ | hNew⟩
  · refine h.of_local hThreads hLocal hPlain.count ?_ (h.woken_of hLocal ?_ ?_)
    all_goals rcases hPc with hPc | hPc <;> rw [hPc]
    · exact fun a => Pc.noConfusion
    · exact fun a => Pc.noConfusion
    · rfl
    · rfl
    · exact fun hTaking => absurd hTaking (by decide)
    · exact fun hTaking => absurd hTaking (by decide)
  · exact absurd (h.stock _ rfl).1 hQueue
  · exact h.of_local hThreads hLocal hPlain.count (by rw [hPc]; exact fun a => Pc.noConfusion)
      ⟨t, rfl, by rw [hNew]; rfl⟩

theorem dozing_sleep (h : Dozing v s (v.engineOf t)) (hPc : s.pc t = .working)
    (hThreads : Threads v (v.updateSleeping s t 1 .block)) :
    Dozing v (v.updateSleeping s t 1 .block) (v.engineOf t) := by
  have hLocal := local_sleep (v := v) hPc
  obtain ⟨⟨-, -, -, hCount, -⟩, -⟩ := updateSleeping_cases v s t 1 .block
  refine h.of_local hThreads hLocal hCount ?_ (h.woken_of hLocal ?_ ?_) <;> rw [hPc]
  · exact fun a => Pc.noConfusion
  · rfl
  · exact fun hTaking => absurd hTaking (by decide)

theorem dozing_wake {a : After} (h : Dozing v s (v.engineOf t)) (ha : Wakes (s.pc t) a)
    (hThreads : Threads v (v.updateSleeping s t (-1) a)) :
    Dozing v (v.updateSleeping s t (-1) a) (v.engineOf t) := by
  have hLocal := local_wake (v := v) ha
  obtain ⟨⟨-, -, -, hCount, -⟩, hCases⟩ := updateSleeping_cases v s t (-1) a
  generalize v.updateSleeping s t (-1) a = s' at *
  refine h.of_local hThreads hLocal hCount ?_ (h.woken_of hLocal ?_ fun hTaking => ?_)
  · intro b
    generalize s.pc t = pc at ha
    cases ha <;> exact Pc.noConfusion
  · generalize s.pc t = pc at ha
    cases ha <;> rfl
  · have hNew : s'.pc t = a.pc ∨ (s'.pc t).after = some a := by
      rcases hCases with ⟨-, hNew, -⟩ | ⟨-, -, hNew⟩ | ⟨-, -, hNew⟩ | ⟨-, hNew, -⟩ <;> rw [hNew]
      · exact .inr rfl
      · exact .inl rfl
      · exact .inr rfl
      · exact .inl rfl
    generalize s.pc t = pc at ha hTaking
    cases ha
    case call =>
      rcases hNew with hNew | hAfter
      · rw [hNew]
        rfl
      · rw [Pc.taking_of_after hAfter]
        rfl
    all_goals exact absurd hTaking (by decide)

theorem dozing_finish (h : Dozing v s (v.engineOf t)) (hPc : s.pc t = .finishing)
    (hLocal : Local v s (v.threadFinished s t) t) (hThreads : Threads v (v.threadFinished s t)) :
    Dozing v (v.threadFinished s t) (v.engineOf t) := by
  refine h.of_local hThreads hLocal ?_ ?_ (h.woken_of hLocal ?_ ?_)
  · unfold Server.threadFinished
    dsimp only [State.setPc]
    split
    · rfl
    · rfl
  all_goals rw [hPc]
  · exact fun a => Pc.noConfusion
  · rfl
  · exact fun hTaking => absurd hTaking (by decide)

-- ---------------------------------------------------------------------------
-- Reports
-- ---------------------------------------------------------------------------

/-- All that a thread of a quiet engine can do is to go on with its report, and it finds
nothing new. -/
theorem report_still (h : Quiet v s (v.engineOf t)) (hReport : v.report s t = some s') :
    s'.resourceCount = s.resourceCount ∧ s'.processorsSleeping = s.processorsSleeping ∧
    (s'.pc t).isStill = true ∧ (∀ e, s.engineSleeping e = true → s'.engineSleeping e = true) := by
  have hStill := (h.still t rfl).1
  -- behind the report, the thread is blocked or finished
  have hBack : ∀ {a : After}, (a = .block || a = .done) = true → a.pc.isStill = true := by
    intro a ha
    cases a <;> first | rfl | exact absurd ha (by decide)
  have hSelf : ∀ {pc : Pc}, pc.isStill = true → (Function.update s.pc t pc t).isStill = true := by
    intro pc hPc
    rw [Function.update_self]
    exact hPc
  unfold Server.report at hReport
  dsimp only [State.setPc] at hReport
  split at hReport
  case h_4 a hPc =>
    rw [hPc] at hStill
    obtain rfl := Option.some.inj hReport
    unfold Server.checkSleeping
    dsimp only [State.setPc]
    rw [h.full, h.count]
    split
    · rw [if_neg (by simp)]
      exact ⟨rfl, rfl, hSelf (hBack hStill), fun _ => id⟩
    · rw [if_pos ⟨rfl, rfl⟩]
      refine ⟨rfl, rfl, hSelf hStill, fun e he => ?_⟩
      by_cases hOwn : e = v.engineOf t
      · subst hOwn
        exact Function.update_self _ _ _
      · dsimp only
        rw [Function.update_of_ne hOwn]
        exact he
  case h_5 a hPc =>
    rw [hPc] at hStill
    split at hReport
    · exact absurd hReport (by simp)
    · obtain rfl := Option.some.inj hReport
      unfold Server.engineSleepingReport
      dsimp only [State.setPc]
      split
      · split
        · exact ⟨rfl, rfl, hSelf hStill, fun _ => id⟩
        · exact ⟨rfl, rfl, hSelf hStill, fun _ => id⟩
      · exact ⟨rfl, rfl, hSelf (hBack hStill), fun _ => id⟩
  case h_6 a hPc =>
    rw [hPc] at hStill
    split at hReport
    · exact absurd hReport (by simp)
    · obtain rfl := Option.some.inj hReport
      exact ⟨rfl, rfl, hSelf hStill, fun _ => id⟩
  case h_7 a hPc =>
    rw [hPc] at hStill
    split at hReport
    · exact absurd hReport (by simp)
    · obtain rfl := Option.some.inj hReport
      exact ⟨rfl, rfl, hSelf (hBack hStill), fun _ => id⟩
  case h_8 a hPc =>
    rw [hPc] at hStill
    split at hReport
    · exact absurd hReport (by simp)
    · obtain rfl := Option.some.inj hReport
      exact ⟨rfl, rfl, hSelf (hBack hStill), fun _ => id⟩
  case h_9 => exact absurd hReport (by simp)
  all_goals
    rename_i hPc
    rw [hPc] at hStill
    exact absurd hStill (by simp [Pc.isStill])

theorem Quiet.report (h : Quiet v s (v.engineOf t)) (hReport : v.report s t = some s') :
    Quiet v s' (v.engineOf t) := by
  obtain ⟨hCount, hVotes, hStill, -⟩ := report_still h hReport
  obtain ⟨hHand, -, -, ⟨hQueue, hDeleted, hAsked⟩, -⟩ := report_frame hReport
  refine ⟨fun t' ht => ?_, fun p hp => ?_, ?_, ?_⟩
  · by_cases hSame : t' = t
    · subst hSame
      refine ⟨hStill, ?_⟩
      rw [State.held, State.lent, hHand, hAsked]
      exact (h.still t' rfl).2
    · rw [(local_report hReport).pc_off t' hSame, (local_report hReport).held_off t' hSame]
      exact h.still t' ht
  · rw [hQueue, hDeleted]
    exact h.stock p hp
  · rw [hCount]
    exact h.count
  · rw [hVotes]
    exact h.full

/-- A report leaves what it owes to its continuation, or is in front of `CheckSleeping`. -/
theorem report_owes (hReport : v.report s t = some s') :
    (∃ a, s'.pc t = .check a) ∨ (s.pc t).owes ≤ (s'.pc t).owes := by
  unfold Server.report at hReport
  dsimp only [State.setPc, Server.checkSleeping, Server.engineSleepingReport] at hReport
  split at hReport
  case h_9 => exact absurd hReport (by simp)
  all_goals
    rename_i a hPc
    repeat' split at hReport
    all_goals first
      | obtain rfl := Option.some.inj hReport
        dsimp only
        rw [Function.update_self, hPc]
        first
          | exact .inl ⟨a, rfl⟩
          | exact .inr (le_refl _)
          | exact .inr (Pc.owes_after_le a)
      | exact absurd hReport (by simp)

/-- A request that is being taken in stays one in a report that does not end the taking. -/
theorem report_taking (hThreads : Threads v s) (hReport : v.report s t = some s')
    (hHand : (s.hand t : Int) ≤ (s.pc t).owes) (hTaking : (s.pc t).taking = 1) :
    (s'.pc t).taking = 1 := by
  obtain ⟨-, -, -, -, a, hAfter, hNew⟩ := report_frame hReport
  have hHas := (hThreads.fits t).of_isTaking (Pc.isTaking_of_taking hTaking)
  have hOwn : a.taking = 1 := by rw [← Pc.taking_of_after hAfter, hTaking]
  have hWithin : ∀ {pc : Pc}, pc.after = some a → pc.taking = 1 := by
    intro pc hPc
    rw [Pc.taking_of_after hPc, hOwn]
  rcases hNew with hNew | hNew | hNew | hNew | hNew | hNew
  -- out of the report: only to `UpdateResourceCount(1)`, since the request is still owed
  · rcases report_owes hReport with ⟨b, hb⟩ | hOwes
    · rw [hNew] at hb
      cases a <;> cases hb
    · rw [hNew] at hOwes ⊢
      cases a with
      | enterCall => rfl
      | workCall =>
        have hNone : (s.pc t).owes ≤ 0 := hOwes
        omega
      | block | enter | work | done => exact absurd hOwn (by decide)
  all_goals
    rw [hNew]
    exact hWithin rfl

/-- A report of a thread that has no resource that is counted. -/
theorem Dozing.report (h : Dozing v s (v.engineOf t)) (hThreads : Threads v s)
    (hReport : v.report s t = some s') (hHand : (s.hand t : Int) ≤ (s.pc t).owes) :
    Dozing v s' (v.engineOf t) := by
  have hLocal := local_report hReport
  obtain ⟨hSame, -, -, ⟨hQueue, hDeleted, hAsked⟩, -⟩ := report_frame hReport
  refine ⟨fun t' ht' => ?_, fun p hp => ?_, ?_⟩
  · by_cases ht : t' = t
    · subst ht
      refine ⟨by rw [State.lent, hAsked]; exact (h.settled t' ht').1, ?_⟩
      rw [hSame]
      exact (report_owes hReport).symm.imp_left hHand.trans
    · rw [hLocal.lent_off ht, hLocal.hand_off t' ht, hLocal.pc_off t' ht]
      exact h.settled t' ht'
  · rw [hQueue, hDeleted]
    exact h.stock p hp
  · refine h.woken.imp (fun hQuiet => hQuiet.report hReport) ?_
    rintro ⟨t', ht', hTaking⟩
    refine ⟨t', ht', ?_⟩
    by_cases ht : t' = t
    · subst ht
      exact report_taking hThreads hReport hHand hTaking
    · rw [hLocal.pc_off t' ht]
      exact hTaking

/-- `CheckSleeping` marks the engine, or leaves its mark, only if it finds it asleep. -/
theorem check_marks {a : After} (hPc : s.pc t = .check a) (hReport : v.report s t = some s')
    (hMark : s'.engineSleeping (v.engineOf t) = true) :
    s.processorsSleeping (v.engineOf t) = Lib.size v.engine (v.engineOf t) ∧
    s.resourceCount (v.engineOf t) ≤ 0 := by
  unfold Server.report at hReport
  rw [hPc] at hReport
  obtain rfl := Option.some.inj hReport
  unfold Server.checkSleeping at hMark
  dsimp only [State.setPc] at hMark
  split at hMark
  · split at hMark
    · simp at hMark
    · rename_i hNot
      obtain ⟨hFull, hCount⟩ := not_or.mp hNot
      exact ⟨of_not_not hFull, not_lt.mp hCount⟩
  · rename_i hUnmarked
    split at hMark
    · rename_i hBoth
      exact ⟨hBoth.1, hBoth.2.le⟩
    · exact absurd hMark hUnmarked

-- ---------------------------------------------------------------------------
-- The server
-- ---------------------------------------------------------------------------

/-- As long as no wake-up has come in during its loop over `pthread_yield`, the server has
counted all engines as sleeping. -/
structure Loop (s : State E P T) : Prop where
  yielding : ∀ t, (s.pc t).isYielding = true → s.wokenUp = false →
    (Fintype.card E : Int) ≤ s.sleepingProcessingEngines
  stuck : ∀ t a, s.pc t = .srvStuck a → s.serverLock = some t ∧
    (Fintype.card E : Int) ≤ s.sleepingProcessingEngines

/-- A step outside the server's loop. -/
theorem Loop.of_same (h : Loop s) (hPcOff : ∀ t', t' ≠ t → s'.pc t' = s.pc t')
    (hServer : SameServer s s')
    (hPc : (s'.pc t).isYielding = false ∧ ∀ a, s'.pc t ≠ .srvStuck a) : Loop s' := by
  refine ⟨fun t' hYield hWoken => ?_, fun t' a ht' => ?_⟩ <;> by_cases ht : t' = t
  · subst ht
    rw [hPc.1] at hYield
    exact absurd hYield (by decide)
  · rw [hPcOff t' ht] at hYield
    rw [hServer.wokenUp] at hWoken
    rw [hServer.count]
    exact h.yielding t' hYield hWoken
  · subst ht
    exact absurd ht' (hPc.2 a)
  · rw [hPcOff t' ht] at ht'
    rw [hServer.serverLock, hServer.count]
    exact h.stuck t' a ht'

/-- A step of the server's functions, when no other thread waits for `usingWokenUp` with the
server's lock. -/
theorem Loop.of_server (h : Loop s) (hPcOff : ∀ t', t' ≠ t → s'.pc t' = s.pc t')
    (hYield : (Fintype.card E : Int) ≤ s'.sleepingProcessingEngines ∨ s'.wokenUp = true ∨
      (s'.pc t).isYielding = false ∧ s'.wokenUp = s.wokenUp ∧
        s.sleepingProcessingEngines ≤ s'.sleepingProcessingEngines)
    (hOthers : ∀ t', t' ≠ t → ∀ a, s.pc t' ≠ .srvStuck a)
    (hStuck : ∀ a, s'.pc t = .srvStuck a → s'.serverLock = some t ∧
      (Fintype.card E : Int) ≤ s'.sleepingProcessingEngines) : Loop s' := by
  refine ⟨fun t' ht' hWoken => ?_, fun t' a ht' => ?_⟩
  · rcases hYield with hCount | hSet | ⟨hPc, hSame, hLe⟩
    · exact hCount
    · rw [hWoken] at hSet
      exact absurd hSet (by decide)
    · by_cases ht : t' = t
      · subst ht
        rw [hPc] at ht'
        exact absurd ht' (by decide)
      · rw [hPcOff t' ht] at ht'
        rw [hSame] at hWoken
        exact (h.yielding t' ht' hWoken).trans hLe
  · by_cases ht : t' = t
    · subst ht
      exact hStuck a ht'
    · rw [hPcOff t' ht] at ht'
      exact absurd ht' (hOthers t' ht a)

theorem After.pc_outside (a : After) : a.pc.isYielding = false ∧ ∀ b, a.pc ≠ .srvStuck b := by
  cases a <;> exact ⟨rfl, fun _ => Pc.noConfusion⟩

/-- With the server's lock free, no thread waits for `usingWokenUp` with it. -/
theorem Loop.none_stuck (h : Loop s) (hLock : ¬ s.serverLock.isSome = true) (t : T) (a : After) :
    s.pc t ≠ .srvStuck a := by
  intro hStuck
  rw [(h.stuck t a hStuck).1] at hLock
  exact hLock rfl

/-- The reports to the engine, and the calls of the server's functions. -/
theorem loop_report (h : Loop s) (hReport : v.report s t = some s') : Loop s' := by
  have hOff : ∀ (pc : Pc) t', t' ≠ t → Function.update s.pc t pc t' = s.pc t' :=
    fun pc t' ht => Function.update_of_ne ht _ _
  unfold Server.report at hReport
  dsimp only [State.setPc] at hReport
  split at hReport
  case h_1 a hPc | h_2 a hPc | h_3 n a hPc =>
    -- reports to the engine: the server does not hear of them
    obtain rfl := Option.some.inj hReport
    refine h.of_same (hOff _) ⟨rfl, rfl, rfl, rfl⟩ ?_
    dsimp only
    rw [Function.update_self]
    exact ⟨rfl, fun _ => Pc.noConfusion⟩
  case h_4 a hPc =>
    -- `CheckSleeping` decides whether the server is called
    obtain rfl := Option.some.inj hReport
    unfold Server.checkSleeping
    dsimp only [State.setPc]
    repeat' split
    all_goals
      refine h.of_same (hOff _) ⟨rfl, rfl, rfl, rfl⟩ ?_
      dsimp only
      rw [Function.update_self]
      first
        | exact a.pc_outside
        | exact ⟨rfl, fun _ => Pc.noConfusion⟩
  case h_5 a hPc =>
    -- `ProcessingEngineSleeping`: the last engine gives the others a turn, or gets stuck first
    split at hReport
    · exact absurd hReport (by simp)
    · rename_i hLock
      obtain rfl := Option.some.inj hReport
      have hNone := fun t' (_ : t' ≠ t) => h.none_stuck hLock t'
      unfold Server.engineSleepingReport
      dsimp only [State.setPc]
      split
      · rename_i hAll
        split
        · exact h.of_server (hOff _) (.inl hAll.ge) hNone fun _ _ => ⟨rfl, hAll.ge⟩
        · exact h.of_server (hOff _) (.inl hAll.ge) hNone fun b hb => by simp at hb
      · refine h.of_server (hOff _) (.inr (.inr ⟨?_, rfl, ?_⟩)) hNone fun b hb => ?_
        · simpa only [Function.update_self] using a.pc_outside.1
        · dsimp only
          omega
        · exact absurd (by simpa only [Function.update_self] using hb) (a.pc_outside.2 b)
  case h_6 a hPc =>
    -- the thread that was stuck goes on; it had the server's lock, so there is no other one
    obtain ⟨hLock, hAll⟩ := h.stuck t a hPc
    split at hReport
    · exact absurd hReport (by simp)
    · obtain rfl := Option.some.inj hReport
      refine h.of_server (hOff _) (.inl hAll) (fun t' ht b hb => ?_) fun b hb => by simp at hb
      exact ht (Option.some.inj ((h.stuck t' b hb).1.symm.trans hLock))
  case h_7 a hPc =>
    -- behind the turn of the others: the server has finished, or somebody has woken up
    split at hReport
    · exact absurd hReport (by simp)
    · rename_i hLock
      obtain rfl := Option.some.inj hReport
      refine h.of_server (hOff _) (.inr (.inr ⟨?_, rfl, le_refl _⟩))
        (fun t' _ => h.none_stuck hLock t') fun b hb => ?_
      · simpa only [Function.update_self] using a.pc_outside.1
      · exact absurd (by simpa only [Function.update_self] using hb) (a.pc_outside.2 b)
  case h_8 a hPc =>
    split at hReport
    · exact absurd hReport (by simp)
    · rename_i hLock
      obtain rfl := Option.some.inj hReport
      refine h.of_server (hOff _) (.inr (.inl rfl)) (fun t' _ => h.none_stuck hLock t')
        fun b hb => ?_
      exact absurd (by simpa only [Function.update_self] using hb) (a.pc_outside.2 b)
  case h_9 => exact absurd hReport (by simp)

/-- When the server has counted all engines and no wake-up is under way, each of them is marked:
every other report would make the count larger. -/
theorem all_sleeping_of_count (hBooks : Books v s) (hNoWake : ∀ t, (s.pc t).isWakingServer = false)
    (hCount : (Fintype.card E : Int) ≤ s.sleepingProcessingEngines) (e : E) :
    s.engineSleeping e = true := by
  have hClaim : ∀ t, () = () → 0 ≤ (s.pc t).claim := by
    intro t _
    have hNot := hNoWake t
    generalize s.pc t = pc at hNot ⊢
    cases pc with
    | srvWake a => cases hNot
    | srvSleep a => exact (by decide : (0 : Int) ≤ 1)
    | _ => exact le_refl 0
  have hClaims : 0 ≤ Lib.total (fun t => (s.pc t).claim) := Lib.tally_nonneg hClaim
  have hBit : ∀ e, () = () → bit (s.engineSleeping e) ≤ 1 := by
    intro e _
    unfold bit
    split <;> decide
  have hSize : Lib.size (fun _ : E => ()) () = Fintype.card E := by
    simp [Lib.size, Lib.tally]
  have hServer := hBooks.server
  have hLe : Lib.total (fun e => bit (s.engineSleeping e)) ≤ Lib.size (fun _ : E => ()) () :=
    Lib.tally_le hBit
  have hOne : bit (s.engineSleeping e) = 1 :=
    Lib.eq_one_of_tally (k := ()) hBit (show Lib.total _ = _ by omega) rfl
  by_contra hNot
  rw [bit, if_neg hNot] at hOne
  exact absurd hOne (by decide)

/-- A report outside `CheckSleeping` changes no engine's mark; the server decides at the end of
its loop, when no wake-up has come in. -/
theorem report_steady (hReport : v.report s t = some s') :
    ((∀ a, s.pc t ≠ .check a) → s'.engineSleeping = s.engineSleeping) ∧
    (s'.finished = true → s.finished = true ∨ (s.pc t).isYielding = true ∧ s.wokenUp = false ∧
      s'.engineSleeping = s.engineSleeping) := by
  unfold Server.report at hReport
  dsimp only [State.setPc, Server.engineSleepingReport] at hReport
  split at hReport
  case h_4 a hPc =>
    obtain rfl := Option.some.inj hReport
    refine ⟨fun hNot => absurd hPc (hNot a), ?_⟩
    unfold Server.checkSleeping
    dsimp only [State.setPc]
    repeat' split
    all_goals exact .inl
  case h_9 => exact absurd hReport (by simp)
  all_goals
    rename_i a hPc
    repeat' split at hReport
    all_goals first
      | obtain rfl := Option.some.inj hReport
        first
          | exact ⟨fun _ => rfl, .inl⟩
          | refine ⟨fun _ => rfl, fun hFinished => ?_⟩
            rw [hPc]
            simpa [Pc.isYielding] using hFinished
      | exact absurd hReport (by simp)

-- ---------------------------------------------------------------------------
-- Every run
-- ---------------------------------------------------------------------------

/-- The marks of the engines, and the decision of the server. -/
structure Engines (v : Server E P T) (s : State E P T) : Prop where
  dozing : ∀ e, s.engineSleeping e = true → Dozing v s e
  finished : s.finished = true → ∀ e, s.engineSleeping e = true

/-- A step that changes no mark. -/
theorem Engines.of_same (h : Engines v s) (hLocal : Local v s s' t)
    (hSame : s'.engineSleeping = s.engineSleeping) (hFinished : s'.finished = s.finished)
    (hDozing : Dozing v s (v.engineOf t) → Dozing v s' (v.engineOf t)) : Engines v s' := by
  refine ⟨fun e he => ?_, fun hf e => ?_⟩
  · rw [hSame] at he
    by_cases hOwn : e = v.engineOf t
    · subst hOwn
      exact hDozing (h.dozing _ he)
    · exact (h.dozing e he).off hLocal hOwn
  · rw [hSame]
    exact h.finished (hFinished ▸ hf) e

/-- The invariant of batch mode. -/
structure Inv (v : Server E P T) (s : State E P T) : Prop where
  threads : Threads v s
  books : Books v s
  loop : Loop s
  engines : Engines v s

/-- When the server is finished, all is quiet. -/
theorem Inv.quiet (h : Inv v s) (hAll : ∀ e, s.engineSleeping e = true) (e : E) :
    Quiet v s e ∧ ∀ p, s.calls p = 0 :=
  all_quiet h.books (fun e => h.engines.dozing e (hAll e)) e

theorem engines_report (h : Inv v s) (hOk : OnTime v s (.report t))
    (hReport : v.report s t = some s') : Engines v s' := by
  have hLocal := local_report hReport
  obtain ⟨hSame, hFinish⟩ := report_steady hReport
  refine ⟨fun e he => ?_, fun hf => ?_⟩
  · by_cases hOwn : e = v.engineOf t
    · subst hOwn
      by_cases hCheck : ∃ a, s.pc t = .check a
      · obtain ⟨a, hPc⟩ := hCheck
        obtain ⟨hFull, hCount⟩ := check_marks hPc hReport he
        exact (dozing_of_check h.threads h.books hFull hCount).report h.threads hReport
          ((settled_of_count h.threads h.books hCount).2.1 t rfl).2.le
      · have hNot : ∀ a, s.pc t ≠ .check a := fun a ha => hCheck ⟨a, ha⟩
        rw [hSame hNot] at he
        have hDozing := h.engines.dozing _ he
        exact hDozing.report h.threads hReport ((hDozing.settled t rfl).2.resolve_right hCheck)
    · rw [hLocal.engine_off e hOwn] at he
      exact (h.engines.dozing e he).off hLocal hOwn
  · rcases hFinish hf with hBefore | ⟨hYield, hWoken, hMarks⟩
    · intro e
      have hAll := h.engines.finished hBefore
      exact (report_still (h.quiet hAll (v.engineOf t)).1 hReport).2.2.2 e (hAll e)
    · -- the decision
      rw [hMarks]
      by_cases hLate : ∃ t', (s.pc t').isWakingServer = true
      · exact hOk hYield hWoken hLate
      · exact all_sleeping_of_count h.books
          (fun t' => Bool.eq_false_of_not_eq_true fun ht' => hLate ⟨t', ht'⟩)
          (h.loop.yielding t hYield hWoken)

/-- `UpdateSleeping` goes on to a report or to the continuation. -/
theorem updateSleeping_next (v : Server E P T) (s : State E P T) (t : T) (n : Int) (a : After) :
    ((v.updateSleeping s t n a).pc t).isYielding = false ∧
      ∀ b, (v.updateSleeping s t n a).pc t ≠ .srvStuck b := by
  obtain ⟨-, hCases⟩ := updateSleeping_cases v s t n a
  rcases hCases with ⟨-, hNew, -⟩ | ⟨-, -, hNew⟩ | ⟨-, -, hNew⟩ | ⟨-, hNew, -⟩ <;> rw [hNew]
  · exact ⟨rfl, fun _ => Pc.noConfusion⟩
  · exact a.pc_outside
  · exact ⟨rfl, fun _ => Pc.noConfusion⟩
  · exact a.pc_outside

theorem threadFinished_next (v : Server E P T) (s : State E P T) (t : T) :
    let s' := v.threadFinished s t
    SameServer s s' ∧ s'.engineSleeping = s.engineSleeping ∧
      (s'.pc t).isYielding = false ∧ ∀ b, s'.pc t ≠ .srvStuck b := by
  dsimp only
  unfold Server.threadFinished
  dsimp only [State.setPc]
  split
  all_goals
    refine ⟨⟨rfl, rfl, rfl, rfl⟩, rfl, ?_⟩
    dsimp only
    rw [Function.update_self]
    exact ⟨rfl, fun _ => Pc.noConfusion⟩

theorem plain_next (hPlain : Plain v s s' t) :
    (s'.pc t).isYielding = false ∧ ∀ b, s'.pc t ≠ .srvStuck b := by
  rcases hPlain.turn with ⟨-, hPc | ⟨n, a, hPc, -⟩ | ⟨hPc, -⟩⟩ | ⟨-, -, ⟨hPc, -⟩ | hPc⟩ <;>
    rw [hPc] <;>
    exact ⟨rfl, fun _ => Pc.noConfusion⟩

/-- **What one step preserves.** -/
theorem inv_step {a : Label P T} (h : Inv v s) (hOk : OnTime v s a) (hStep : v.step s a = some s') :
    Inv v s' := by
  obtain ⟨t, hPlain | ⟨hBegun, hInput, hPc, rfl⟩ | ⟨after, hAfter, rfl⟩ | ⟨hBegun, hPc, rfl⟩ |
    ⟨hReport, hLate⟩⟩ := step_cases hStep hOk
  · have hThreads := threads_plain h.threads hPlain
    exact ⟨hThreads, books_step h.books hPlain.books,
      h.loop.of_same hPlain.books.pc_off hPlain.server (plain_next hPlain),
      h.engines.of_same hPlain.books hPlain.engineSleeping hPlain.server.finished
        fun hDozing => dozing_plain hDozing hThreads hPlain⟩
  · have hThreads := threads_sleep h.threads hBegun hInput hPc
    have hLocal := local_sleep (v := v) hPc
    obtain ⟨⟨-, -, hMarks, -, hServer⟩, -⟩ := updateSleeping_cases v s t 1 .block
    exact ⟨hThreads, books_step h.books hLocal,
      h.loop.of_same hLocal.pc_off hServer (updateSleeping_next v s t 1 .block),
      h.engines.of_same hLocal hMarks hServer.finished
        fun hDozing => dozing_sleep hDozing hPc hThreads⟩
  · have hThreads := threads_wake h.threads hAfter
    have hLocal := local_wake (v := v) hAfter
    obtain ⟨⟨-, -, hMarks, -, hServer⟩, -⟩ := updateSleeping_cases v s t (-1) after
    exact ⟨hThreads, books_step h.books hLocal,
      h.loop.of_same hLocal.pc_off hServer (updateSleeping_next v s t (-1) after),
      h.engines.of_same hLocal hMarks hServer.finished
        fun hDozing => dozing_wake hDozing hAfter hThreads⟩
  · have hThreads := threads_finish h.threads hBegun hPc
    have hLocal := local_finish h.threads hPc
    obtain ⟨hServer, hMarks, hNext⟩ := threadFinished_next v s t
    exact ⟨hThreads, books_step h.books hLocal, h.loop.of_same hLocal.pc_off hServer hNext,
      h.engines.of_same hLocal hMarks hServer.finished
        fun hDozing => dozing_finish hDozing hPc hLocal hThreads⟩
  · exact ⟨threads_report h.threads hReport, books_step h.books (local_report hReport),
      loop_report h.loop hReport, engines_report h hLate hReport⟩

theorem inv_initial (v : Server E P T) : Inv v Server.initial := by
  refine ⟨⟨fun _ => trivial, fun p => ?_, fun p => ?_, fun p hp => ?_, fun p hp => ?_⟩,
    ⟨fun e => ?_, fun e => ?_, fun p => ?_, ?_⟩,
    ⟨fun t ht => ?_, fun t a ha => ?_⟩, ⟨fun e he => ?_, fun hf => ?_⟩⟩
  · exact Lib.tally_zero.symm
  · exact Lib.tally_zero.symm
  · exact absurd hp (by simp [Server.initial])
  · exact absurd hp (by simp [Server.initial])
  · show 0 = Lib.tally v.engine (fun _ => 0) e + Lib.tally v.engineOf (fun _ => 0) e
    rw [Lib.tally_zero, Lib.tally_zero, add_zero]
  · have hHeld : ∀ t, (Server.initial : State E P T).held t = 0 := by
      intro t
      show (0 : Int) + Lib.tally (fun _ : P => ()) (fun _ => 0) () = 0
      rw [Lib.tally_zero, add_zero]
    have hHands : Lib.tally v.engineOf (Server.initial : State E P T).held e =
        Lib.tally v.engineOf (fun _ => 0) e := Lib.tally_congr fun t _ => hHeld t
    rw [hHands]
    show Lib.tally v.engine (fun _ => 0) e + Lib.tally v.engineOf (fun _ => 0) e ≤
      0 + Lib.tally v.engineOf (fun _ => 0) e
    rw [Lib.tally_zero, Lib.tally_zero]
  · show (0 : Int) + Lib.tally v.processor (fun _ => 0) p ≤
      Lib.tally (fun _ : T => ()) (fun _ => 0) ()
    rw [Lib.tally_zero, Lib.tally_zero, add_zero]
  · show 0 = Lib.tally (fun _ : E => ()) (fun _ => 0) () - Lib.tally (fun _ : T => ())
      (fun _ => 0) ()
    rw [Lib.tally_zero, Lib.tally_zero, sub_zero]
  · exact absurd ht (by simp [Server.initial, Pc.isYielding])
  · exact absurd ha (by simp [Server.initial])
  · exact absurd he (by simp [Server.initial])
  · exact absurd hf (by simp [Server.initial])

/-- In `GetItem`, or on the way there behind `UpdateSleeping(1)`. -/
def Pc.isBlocked (pc : Pc) : Bool := pc = .blocked || pc.after = some .block

theorem Pc.blocked_or_ended {pc : Pc} (h : pc.isStill = true) :
    pc.isBlocked = true ∨ pc.isEnded = true := by
  cases pc <;> simp_all [Pc.isStill, Pc.isBlocked, Pc.isEnded, Pc.after]

/-- Two engines, of one processor with one thread each: an INPUT processor whose module calls the
other engine, and the processor that works for it. -/
def callerAndCalled : Server Bool Bool Bool where
  engine p := p
  processor t := t
  isInput p := !p
  engineInput p := p

/-- A resource is read, a request for it is answered by the other engine, and it is consumed. -/
def oneCall : List (Label Bool Bool) :=
  [.start false, .start true, .sleep true, .report true, .report true, .report true, .fetch false,
    .report false, .report false, .call false true, .takeCall true, .wake true, .report true,
    .report true, .report true, .report true, .report true, .leave true, .report true, .report true,
    .sleep true, .report true, .report true, .report true, .answer false true, .leave false,
    .report false, .report false, .exit false, .finish false, .report false, .report false,
    .report false, .report false]

/-- One engine with one processor of two threads, an INPUT processor or one behind a queue. -/
def twoThreads (input : Bool) : Server Unit Unit Bool where
  engine _ := ()
  processor _ := ()
  isInput _ := input
  engineInput _ := false

/-- As `callerAndCalled`, with a second processor behind a queue in the engine that is called. -/
def twoCalled : Server Bool (Fin 3) (Fin 3) where
  engine p := p ≠ 0
  processor t := t
  isInput p := p = 0
  engineInput p := p = 1

/-- All threads start in time. The engine that is called is marked as sleeping; thread 1 takes the
request, and the report of thread 2 finds the engine awake, but is held up in front of
`ProcessingEngineWakeup`. Thread 1 makes a resource and answers; the caller's engine falls asleep,
and the server has counted both: it decides that it is finished while thread 1 works. -/
theorem finishes_before_wakeup :
    (Lib.run twoCalled.step Server.initial
      [.start 0, .start 1, .start 2, .sleep 2, .report 2, .sleep 1, .report 1, .report 1, .report 1,
        .fetch 0, .report 0, .report 0, .call 0 1, .takeCall 1, .wake 1, .report 1, .report 2,
        .report 1, .report 1, .report 1, .create 1 1 1, .report 1, .report 1, .leave 1, .report 1,
        .report 1, .answer 0 1, .leave 0, .report 0, .report 0, .exit 0, .finish 0, .report 0,
        .report 0, .report 0, .report 0]).map
          (fun s => (s.finished, s.pc 1, s.resourceCount true, s.pc 2)) =
      some (true, Pc.working, 1, Pc.srvWake .block) := by
  decide

end HectorCore.Batch
