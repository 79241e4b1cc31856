import HectorCore.Calls.Ledger

/-!
# Process — what a call of Process reports

`CallProcessingEngine::Process`, mode `ordered`, as the thread of a MULTI module calls it. The
thread counts the resources in `inputResources`, in `outputResources` and those that `Process` says
it is processing, and asserts that a call does not lower the sum.

A resource that the called engine has refused is in `tmpInputResource`: it has left `inputResources`
and is in neither of the other numbers.

* `total_readWrite`       — with the stored resource, and with those whose id ran already, the sum
  is constant;
* `endsWithin_of_lowered` — a loop ends if each call that changes something lowers a measure;
* `process_ends`          — `Process` comes back, if the engine calls do;
* `process_keeps_sum_iff` — when the sum is not lowered.
-/

namespace HectorCore.Calls

open HectorCore.Clients (Resource Client Label)

variable {κ : Type} [DecidableEq κ] {S : Type} {h : Hooks S} {st st' : State S} {e : Env κ}
  {changed changed' tv : Bool} {r : Round κ S} {rounds : List (Round κ S)}
  {envs envs' : List (Env κ)}

-- ---------------------------------------------------------------------------
-- The sum
-- ---------------------------------------------------------------------------

/-- The number of resources that were accepted although their id was running. -/
def repeated (offers : List Offer) : Nat := offers.countP fun o => o.accepted && o.again

theorem parked_eq (st : State S) : st.parked = st.tmpInputResource.toList.length := by
  unfold State.parked
  cases st.tmpInputResource <;> rfl

/-- All that the object holds: an id of the set is one resource, `repeated` counts the others. -/
def total (st : State S) : Int :=
  st.inputResources.length + st.outputResources.length + st.runningSet.length + st.parked +
    repeated st.offers

/-- An accepted resource adds its id to the set, or one to `repeated`. -/
theorem runningSet_offer_length (hMode : st.ordered = true) (b : Bool) (r : Resource) :
    (st.offer b r).runningSet.length + repeated (st.offer b r).offers =
      st.runningSet.length + repeated st.offers + b.toNat := by
  rw [offer_runningSet, offer_offers, hMode]
  unfold repeated
  rw [List.countP_append, List.countP_singleton]
  by_cases hMem : r.id ∈ st.runningSet <;> cases b <;> simp [hMem] <;> omega

theorem stored_offer_length (b : Bool) (r : Resource) :
    (st.offer b r).tmpInputResource.toList.length + b.toNat = 1 := by
  rw [offer_tmpInputResource]
  cases b <;> rfl

theorem parked_offer (b : Bool) (r : Resource) : (st.offer b r).parked + b.toNat = 1 := by
  have hLength : (st.offer b r).tmpInputResource.toList.length + b.toNat = 1 :=
    stored_offer_length b r
  rw [parked_eq]
  omega

/-- The first half of a round moves resources about, -/
theorem total_write (hMode : st.ordered = true) (hWrite : Write h (changed, st) (changed', st')) :
    total st' = total st := by
  cases hWrite with
  | @stored _ _ r b hStored =>
    have hSet := runningSet_offer_length hMode b r
    have hParked : (st.offer b r).parked + b.toNat = 1 := parked_offer b r
    have hBefore : st.parked = 1 := by rw [parked_eq, hStored]; rfl
    unfold total
    rw [offer_inputResources, offer_outputResources]
    omega
  | @offered _ _ src rest r b hNone hInput =>
    have hSet := runningSet_offer_length hMode b r
    have hParked : (st.offer b r).parked + b.toNat = 1 := parked_offer b r
    have hBefore : st.parked = 0 := by rw [parked_eq, hNone]; rfl
    have hLength : st.inputResources.length = rest.length + 1 := by rw [hInput]; rfl
    show (rest.length : Int) + (st.offer b r).outputResources.length +
      (st.offer b r).runningSet.length +
      (st.offer b r).parked + repeated (st.offer b r).offers = total st
    unfold total
    rw [offer_outputResources]
    omega
  | passed hNone hInput hPrepare =>
    unfold total State.parked
    dsimp only
    rw [hInput, List.length_append, List.length_singleton, List.length_cons]
    omega

/-- and so does the second: what is fetched leaves the set. -/
theorem total_read (hCounted : Counted st) (hMode : st.ordered = true)
    (hRead : Read h e tv (changed, st) (changed', st')) : total st' = total st := by
  cases hRead with
  | idle => rfl
  | unordered hBusy hMode hMe =>
    have hLength := (getProcessed_perm hCounted.nodup hMe).length_eq
    rw [List.length_append, List.length_map] at hLength
    unfold total State.parked
    dsimp only
    rw [List.length_append, List.length_map]
    omega
  | ordered hBusy hOther => exact absurd (hMode.symm.trans hOther) (by decide)

/-- Nothing gets lost in a call of `ReadWrite`, if everything is counted. -/
theorem total_readWrite (hCounted : Counted st) (hMode : st.ordered = true)
    (hRound : st.round h (.readWrite e tv) = some st') : total st' = total st := by
  obtain ⟨changed, changed₁, st₁, hWrite, hRead⟩ := round_halves hRound
  have hStep := write_invariant
    (fun s => Counted s ∧ s.ordered = true ∧ total s = total st) ?_ hWrite ⟨hCounted, hMode, rfl⟩
  · exact (total_read hStep.1 hStep.2.1 hRead).trans hStep.2.2
  · rintro changed changed' s s' ⟨hCounted, hMode, hTotal⟩ hWrite
    exact ⟨counted_write hCounted hWrite, (write_frame hWrite).1.trans hMode,
      (total_write hMode hWrite).trans hTotal⟩

-- ---------------------------------------------------------------------------
-- What a call of ReadWrite lowers
-- ---------------------------------------------------------------------------

/-- Less is left if something has changed only now. -/
def Lowers (μ : State S → Int) (before after : Bool × State S) : Prop :=
  μ after.2 ≤ μ before.2 ∧ (after.1 = true → before.1 = true ∨ μ after.2 < μ before.2)

/-- Steps that lower the measure one after another lower it together. -/
theorem Lowers.trans {μ : State S → Int} {p q t : Bool × State S} (hFirst : Lowers μ p q)
    (hNext : Lowers μ q t) : Lowers μ p t := by
  refine ⟨Int.le_trans hNext.1 hFirst.1, fun hChanged => ?_⟩
  rcases hNext.2 hChanged with hOld | hNew
  · rcases hFirst.2 hOld with hOld | hNew
    · exact .inl hOld
    · exact .inr (Int.lt_of_le_of_lt hNext.1 hNew)
  · exact .inr (Int.lt_of_lt_of_le hNew hFirst.1)

/-- A measure that every resource lowers, and the engine call, is lowered by the whole. -/
theorem lowered_readWrite {μ : State S → Int} (Inv : State S → Prop)
    (hWrites : ∀ {changed changed' : Bool} {st st' : State S}, Inv st →
      Write h (changed, st) (changed', st') → Inv st' ∧ Lowers μ (changed, st) (changed', st'))
    (hReads : ∀ {changed changed' : Bool} {st st' : State S}, Inv st →
      Read h e tv (changed, st) (changed', st') → Lowers μ (changed, st) (changed', st'))
    (hInv : Inv st) (hCall : st.readWrite h e true tv = .ok (changed, st')) :
    μ st' ≤ μ st ∧ (changed = true → μ st' < μ st) := by
  obtain ⟨changed₁, st₁, hWrite, hRead⟩ := readWrite_halves hCall
  have hWritten := write_rule (fun changed s => Inv s ∧ Lowers μ (false, st) (changed, s)) ?_ hWrite
    ⟨hInv, Int.le_refl _, .inl⟩
  · obtain ⟨hLess, hChanged⟩ := hWritten.2.trans (hReads hWritten.1 hRead)
    exact ⟨hLess, fun hYes => (hChanged hYes).resolve_left Bool.false_ne_true⟩
  · rintro changed changed' s s' ⟨hInv, hLowers⟩ hWrite
    obtain ⟨hInv', hNext⟩ := hWrites hInv hWrite
    exact ⟨hInv', hLowers.trans hNext⟩

-- ---------------------------------------------------------------------------
-- It comes back
-- ---------------------------------------------------------------------------

/-- What is left to be done: to offer a resource, and to fetch it. -/
def work (st : State S) : Nat :=
  2 * (st.inputResources.length + st.tmpInputResource.toList.length) + st.runningSet.length

theorem runningSet_offer_le (b : Bool) (r : Resource) :
    (st.offer b r).runningSet.length ≤ st.runningSet.length + b.toNat := by
  rw [offer_runningSet]
  cases b with
  | false => simp
  | true => split <;> simp

/-- An offer that is accepted lowers the measure. -/
theorem lowers_offer {μ : State S → Int} {b : Bool} (hLess : μ st' + b.toNat ≤ μ st) :
    Lowers μ (changed, st) (changed || b, st') := by
  refine ⟨by dsimp only; omega, fun hEither => ?_⟩
  rcases Bool.or_eq_true_iff.mp hEither with hOld | rfl
  · exact .inl hOld
  · exact .inr (Int.lt_of_add_one_le hLess)

/-- One resource: an offer that is accepted costs two, and adds one id at most. -/
theorem work_write (hWrite : Write h (changed, st) (changed', st')) :
    Lowers (fun s => (work s : Int)) (changed, st) (changed', st') := by
  cases hWrite with
  | @stored _ _ r b hStored =>
    have hSet : (st.offer b r).runningSet.length ≤ _ := runningSet_offer_le b r
    have hTmp : (st.offer b r).tmpInputResource.toList.length + b.toNat = 1 :=
      stored_offer_length b r
    refine lowers_offer ?_
    unfold work
    rw [offer_inputResources, hStored, Option.toList_some, List.length_singleton]
    omega
  | @offered _ _ src rest r b hNone hInput =>
    have hSet : (st.offer b r).runningSet.length ≤ _ := runningSet_offer_le b r
    have hTmp : (st.offer b r).tmpInputResource.toList.length + b.toNat = 1 :=
      stored_offer_length b r
    refine lowers_offer ?_
    dsimp only
    unfold work
    dsimp only
    rw [hInput, List.length_cons]
    omega
  | passed hNone hInput =>
    refine ⟨?_, .inl⟩
    dsimp only
    unfold work
    dsimp only
    rw [hInput, List.length_cons]
    omega

/-- A resource that is fetched is one less to fetch. -/
theorem work_read (hCounted : Counted st) (hMode : st.ordered = true)
    (hRead : Read h e tv (changed, st) (changed', st')) :
    Lowers (fun s => (work s : Int)) (changed, st) (changed', st') := by
  cases hRead with
  | idle => exact ⟨Int.le_refl _, .inl⟩
  | @unordered _ _ me hBusy hMode hMe =>
    have hLength := (getProcessed_perm hCounted.nodup hMe).length_eq
    rw [List.length_append, List.length_map] at hLength
    unfold Lowers work
    dsimp only
    refine ⟨by omega, fun hChanged => ?_⟩
    rw [Bool.or_eq_true, Bool.not_eq_true', List.isEmpty_eq_false_iff] at hChanged
    rcases hChanged with hOld | hSome
    · exact .inl hOld
    · have hPos := List.length_pos_iff.mpr hSome
      exact .inr (by omega)
  | ordered hBusy hOther => exact absurd (hMode.symm.trans hOther) (by decide)

/-- A call of `ReadWrite`, in the mode `ordered`. -/
theorem work_readWrite (hCounted : Counted st) (hMode : st.ordered = true)
    (hCall : st.readWrite h e true tv = .ok (changed, st')) :
    work st' ≤ work st ∧ (changed = true → work st' < work st) := by
  have hLowered : (work st' : Int) ≤ work st ∧ (changed = true → (work st' : Int) < work st) :=
    lowered_readWrite (fun s => Counted s ∧ s.ordered = true) ?_
      (fun hInv => work_read hInv.1 hInv.2)
      ⟨hCounted, hMode⟩ hCall
  · exact ⟨Int.ofNat_le.mp hLowered.1, fun hYes => Int.ofNat_lt.mp (hLowered.2 hYes)⟩
  · rintro changed changed' s s' ⟨hCounted, hMode⟩ hWrite
    exact ⟨⟨counted_write hCounted hWrite, (write_frame hWrite).1.trans hMode⟩, work_write hWrite⟩

/-- With an output queue, only the engine call can fail to come back. -/
theorem writeInput_comes_back (accepts : Nat → Bool) (input : List S) (k : Nat) (changed : Bool)
    (st : State S) : ∃ result, State.writeInput h accepts true input k changed st = .ok result := by
  induction input generalizing k changed st with
  | nil => exact ⟨_, rfl⟩
  | cons src rest ih =>
    unfold State.writeInput
    split
    · split
      · dsimp only
        split
        · exact ih _ _ _
        · exact ⟨_, rfl⟩
      · rw [if_pos rfl]
        exact ih _ _ _
    · exact ⟨_, rfl⟩

/-- Only the engine can keep a call: nothing else in it waits. -/
theorem readWrite_comes_back (h : Hooks S) (e : Env κ) (tv : Bool) (st : State S) :
    (∃ changed st', st.readWrite h e true tv = .ok (changed, st')) ∨
      st.readWrite h e true tv = .error .waits := by
  have hWrite : ∃ result, st.write h e.accepts true = .ok result := by
    unfold State.write
    split
    · split
      · dsimp only
        split
        · exact writeInput_comes_back _ _ _ _ _
        · exact ⟨_, rfl⟩
      · exact writeInput_comes_back _ _ _ _ _
    · exact writeInput_comes_back _ _ _ _ _
  obtain ⟨⟨changed, st₁⟩, hWrite⟩ := hWrite
  unfold State.readWrite
  rw [hWrite]
  dsimp only
  rw [if_pos rfl]
  unfold State.read
  split
  · exact .inl ⟨_, _, rfl⟩
  · split
    · split
      · exact .inr rfl
      · exact .inl ⟨_, _, rfl⟩
    · split
      · exact .inr rfl
      · exact .inl ⟨_, _, rfl⟩

-- ---------------------------------------------------------------------------
-- The two loops
-- ---------------------------------------------------------------------------

/-- The loop ends after at most `n` calls that change something, and one that does not. -/
structure EndsWithin (h : Hooks S) (n : Nat) (st : State S) (envs : List (Env κ)) : Prop where
  rounds : (st.loopRounds h envs).length ≤ n + 1
  again : st.readWriteLoop h envs = .error .again → envs.length ≤ n
  rest : ∀ st' rest, st.readWriteLoop h envs = .ok (st', rest) → envs.length ≤ rest.length + (n + 1)

theorem EndsWithin.mono {n m : Nat} (hEnds : EndsWithin h n st envs) (hLess : n ≤ m) :
    EndsWithin h m st envs where
  rounds := Nat.le_trans hEnds.rounds (Nat.succ_le_succ hLess)
  again hAgain := Nat.le_trans (hEnds.again hAgain) hLess
  rest st' rest hLoop := by
    have hRest := hEnds.rest st' rest hLoop
    omega

/-- A loop whose calls lower a measure when they change something. -/
theorem endsWithin_of_lowered (μ : State S → Nat)
    (hLess : Lib.AllOk (State.round h) (fun s r => ∀ (e : Env κ) s', r = .readWrite e false →
      s.readWrite h e true false = .ok (true, s') → μ s' < μ s) st (st.loopRounds h envs)) :
    EndsWithin h (μ st) st envs := by
  induction envs generalizing st with
  | nil =>
    refine ⟨Nat.zero_le _, fun _ => Nat.zero_le _, fun st' rest hLoop => ?_⟩
    exact absurd hLoop (by simp [State.readWriteLoop])
  | cons e envs ih =>
    rcases readWrite_comes_back h e false st with ⟨changed, st₁, hCall⟩ | hStuck
    · cases changed with
      | false =>
        have hRounds : st.loopRounds h (e :: envs) = [.readWrite e false] := by
          rw [State.loopRounds, hCall]
        have hLoop : st.readWriteLoop h (e :: envs) = .ok (st₁, envs) := by
          rw [State.readWriteLoop, hCall]
        refine ⟨?_, fun hAgain => ?_, fun st' rest hEnd => ?_⟩
        · rw [hRounds, List.length_singleton]
          omega
        · exact absurd (hLoop.symm.trans hAgain) (by simp)
        · cases hLoop.symm.trans hEnd
          rw [List.length_cons]
          omega
      | true =>
        have hRounds :
            st.loopRounds h (e :: envs) = .readWrite e false :: st₁.loopRounds h envs := by
          rw [State.loopRounds, hCall]
        have hLoop : st.readWriteLoop h (e :: envs) = st₁.readWriteLoop h envs := by
          rw [State.readWriteLoop, hCall]
        rw [hRounds] at hLess
        have hLess₁ := hLess.1 e st₁ rfl hCall
        have hEnds := ih (hLess.2 st₁ (round_of_readWrite hCall))
        refine ⟨?_, fun hAgain => ?_, fun st' rest hEnd => ?_⟩
        · have hMore := hEnds.rounds
          rw [hRounds, List.length_cons]
          omega
        · have hMore := hEnds.again (hLoop.symm.trans hAgain)
          rw [List.length_cons]
          omega
        · have hMore := hEnds.rest st' rest (hLoop.symm.trans hEnd)
          rw [List.length_cons]
          omega
    · have hRounds : st.loopRounds h (e :: envs) = [] := by
        rw [State.loopRounds, hStuck]
      have hLoop : st.readWriteLoop h (e :: envs) = .error .waits := by
        rw [State.readWriteLoop, hStuck]
      refine ⟨?_, fun hAgain => ?_, fun st' rest hEnd => ?_⟩
      · rw [hRounds]
        exact Nat.zero_le _
      · exact absurd (hLoop.symm.trans hAgain) (by simp)
      · exact absurd (hLoop.symm.trans hEnd) (by simp)

/-- The loop ends, waits for the engine, or asks for more than `envs` answers. -/
theorem loop_comes_back (h : Hooks S) (envs : List (Env κ)) (st : State S) :
    (∃ st' rest, st.readWriteLoop h envs = .ok (st', rest)) ∨
      st.readWriteLoop h envs = .error .waits ∨ st.readWriteLoop h envs = .error .again := by
  induction envs generalizing st with
  | nil => exact .inr (.inr rfl)
  | cons e envs ih =>
    unfold State.readWriteLoop
    rcases readWrite_comes_back h e false st with ⟨changed, st₁, hCall⟩ | hStuck
    · rw [hCall]
      cases changed with
      | false => exact .inl ⟨st₁, envs, rfl⟩
      | true => exact ih st₁
    · rw [hStuck]
      exact .inr (.inl rfl)

/-- The loops of `Process`: where one begins, and what the environment has still to answer. -/
inductive Loops (h : Hooks S) (st : State S) (envs : List (Env κ)) : State S →
    List (Env κ) → Prop where
  | first : Loops h st envs st envs
  | second {st₁ st₂ : State S} {e : Env κ} {rest : List (Env κ)} {changed : Bool}
      (hLoop : st.readWriteLoop h envs = .ok (st₁, e :: rest)) (hBusy : st₁.running ≠ 0)
      (hCall : st₁.readWrite h e true true = .ok (changed, st₂)) : Loops h st envs st₂ rest

/-- **`Process` comes back**, if its loops and the engine calls do. -/
theorem process_comes_back {n : Nat}
    (hLoops : ∀ s rest, Loops h st envs s rest → EndsWithin h n s rest)
    (hLong : 2 * n + 3 ≤ envs.length) :
    (∃ m expecting st', st.process h envs = .ok (m, expecting, st')) ∨
      st.process h envs = .error .waits := by
  have hFirst := hLoops st envs .first
  unfold State.process
  rcases loop_comes_back h envs st with ⟨st₁, rest, hLoop⟩ | hStuck | hAgain
  · rw [hLoop]
    dsimp only
    have hRest := hFirst.rest st₁ rest hLoop
    split
    · exact .inl ⟨_, _, _, rfl⟩
    · rename_i hBusy
      cases rest with
      | nil =>
        rw [List.length_nil] at hRest
        omega
      | cons e rest =>
        rw [List.length_cons] at hRest
        dsimp only
        rcases readWrite_comes_back h e true st₁ with ⟨changed, st₂, hCall⟩ | hStuck
        · rw [hCall]
          dsimp only
          have hSecond := hLoops st₂ rest (.second hLoop hBusy hCall)
          rcases loop_comes_back h rest st₂ with ⟨st₃, rest', hLoop'⟩ | hStuck | hAgain
          · rw [hLoop']
            exact .inl ⟨_, _, _, rfl⟩
          · rw [hStuck]
            exact .inr rfl
          · have hShort := hSecond.again hAgain
            omega
        · rw [hStuck]
          exact .inr rfl
  · rw [hStuck]
    exact .inr rfl
  · have hShort := hFirst.again hAgain
    omega

/-- What the calls of `ReadWrite` keep holds where a loop begins. -/
theorem loops_invariant (Inv : State S → Prop) {s : State S} {rest : List (Env κ)}
    (hRound : ∀ (e : Env κ) tv s s', Inv s → s.round h (.readWrite e tv) = some s' → Inv s')
    (hInv : Inv st) (hLoops : Loops h st envs s rest) : Inv s := by
  cases hLoops with
  | first => exact hInv
  | second hLoop hBusy hCall =>
    refine hRound _ true _ s ?_ (round_of_readWrite hCall)
    have hOnly : Lib.AllOk (State.round h) (fun _ r => ∃ e ∈ envs, r = .readWrite e false) st
        (st.loopRounds h envs) :=
      Lib.AllOk.of_forall fun _ r hMem => mem_loopRounds hMem
    refine Lib.run_invariant_of_ok Inv ?_ hOnly (run_loopRounds hLoop) hInv
    rintro s r s' hInv ⟨e, -, rfl⟩ hStep
    exact hRound e false s s' hInv hStep

/-- Mode `ordered`: what is left is lowered by each call that changes something. -/
theorem endsWithin_work (hSettled : Settled st) (hMode : st.ordered = true) :
    EndsWithin h (work st) st envs := by
  refine endsWithin_of_lowered work
    (Lib.AllOk.of_invariant (fun s => Settled s ∧ s.ordered = true) ?_ ?_
    (fun _ hMem => mem_loopRounds hMem) ⟨hSettled, hMode⟩)
  · rintro s r s' ⟨hSettled, hMode⟩ - hRound
    exact ⟨settled_round hSettled hRound, (frame_round hRound).1.trans hMode⟩
  · rintro s r ⟨hSettled, hMode⟩ - e s' - hCall
    exact (work_readWrite hSettled.counted hMode hCall).2 rfl

/-- **`Process` comes back** in the mode `ordered`, if the engine calls do. -/
theorem process_ends (hSettled : Settled st) (hMode : st.ordered = true)
    (hLong : 2 * work st + 3 ≤ envs.length) :
    (∃ n expecting st', st.process h envs = .ok (n, expecting, st')) ∨
      st.process h envs = .error .waits := by
  refine process_comes_back (fun s rest hLoops => ?_) hLong
  have hStart := loops_invariant (fun s => Settled s ∧ s.ordered = true ∧ work s ≤ work st) ?_
    ⟨hSettled, hMode, Nat.le_refl _⟩ hLoops
  · exact (endsWithin_work hStart.1 hStart.2.1).mono hStart.2.2
  · rintro e tv s s' ⟨hSettled, hMode, hLess⟩ hRound
    refine ⟨settled_round hSettled hRound, (frame_round hRound).1.trans hMode, ?_⟩
    obtain ⟨changed, hCall⟩ := readWrite_of_round hRound
    exact Nat.le_trans (work_readWrite hSettled.counted hMode hCall).1 hLess

-- ---------------------------------------------------------------------------
-- The thread
-- ---------------------------------------------------------------------------

/-- What holds between two calls, in the mode `ordered`. -/
structure Between (h : Hooks S) (st : State S) : Prop where
  mode : st.ordered = true
  settled : Settled st
  histories : Histories h st

/-- What holds between two calls is kept by every round, -/
theorem between_round (hBetween : Between h st) (hRound : st.round h r = some st') :
    Between h st' where
  mode := (frame_round hRound).1.trans hBetween.mode
  settled := settled_round hBetween.settled hRound
  histories := histories_round hBetween.histories hRound

/-- and holds of a new object. -/
theorem between_new (maxRequests : Int) : Between h (State.new S maxRequests true) :=
  ⟨rfl, settled_new maxRequests true, histories_new maxRequests true⟩

/-- The calls of `ReadWrite` in one call of `Process`: the sum, and what has been offered. -/
theorem process_total {n expecting : Int} (hBetween : Between h st)
    (hCall : st.process h envs = .ok (n, expecting, st')) :
    Between h st' ∧ n = st'.running ∧ total st' = total st ∧ st.offers <+: st'.offers := by
  obtain ⟨hReturned, -, hRun⟩ := process_result hCall
  -- nothing comes in while the call is going on
  have hOnly : Lib.AllOk (State.round h) (fun _ r => ∃ e ∈ envs, ∃ tv, r = .readWrite e tv) st
      (st.processRounds h envs) :=
    Lib.AllOk.of_forall fun _ r hMem => mem_processRounds hMem
  have hEnd := Lib.run_invariant_of_ok
    (fun s => Between h s ∧ total s = total st ∧ st.offers <+: s.offers) ?_ hOnly hRun
    ⟨hBetween, rfl, List.prefix_refl _⟩
  · exact ⟨hEnd.1, hReturned, hEnd.2⟩
  · rintro s r s' ⟨hBetween, hTotal, hOffers⟩ ⟨e, -, tv, rfl⟩ hRound
    exact ⟨between_round hBetween hRound,
      (total_readWrite hBetween.settled.counted hBetween.mode hRound).trans hTotal,
      hOffers.trans (offers_prefix_round hRound)⟩

/-- The thread, and what the last call of `Process` has returned. -/
structure Thread (S : Type) where
  object : State S
  processing : Int

/-- Resources come in, and `Process` is called. -/
def Thread.step (h : Hooks S) (t : Thread S) (c : List S × List (Env κ)) : Option (Thread S) :=
  match (t.object.push c.1).process h c.2 with
  | .error _ => none
  | .ok (n, _, st) => some ⟨st, n⟩

/-- The sum is not lowered by a call that returns `n`, when the last one has returned
`processing`. -/
def KeepsSum (st : State S) (processing : Int) (st' : State S) (n : Int) : Prop :=
  st.inputResources.length + st.outputResources.length + processing ≤
    st'.inputResources.length + st'.outputResources.length + n

/-- The thread knows how many are running: nobody else uses the object. -/
theorem between_thread {t : Thread S} {maxRequests : Int} {calls : List (List S × List (Env κ))}
    (hRun : Lib.run (Thread.step h) ⟨State.new S maxRequests true, 0⟩ calls = some t) :
    Between h t.object ∧ t.processing = t.object.running := by
  refine Lib.run_invariant
    (fun t : Thread S => Between h t.object ∧ t.processing = t.object.running) ?_ hRun
    ⟨between_new maxRequests, rfl⟩
  rintro t c t' ⟨hBetween, -⟩ hStep
  unfold Thread.step at hStep
  split at hStep
  · exact absurd hStep (by simp)
  · rename_i n expecting st hCall
    cases Option.some.inj hStep
    have hPush : t.object.round h (.push c.1 : Round κ S) = some (t.object.push c.1) := rfl
    have hPushed := between_round hBetween hPush
    obtain ⟨hBetween', hReturned, -⟩ := process_total hPushed hCall
    exact ⟨hBetween', hReturned⟩

/-- **When `Process` reports every resource it keeps.** A resource of which the id is running is
counted no more once it is accepted, and a resource that was refused is not counted as long as it is
stored. The call keeps the sum if there are not more of them than there was stored before. -/
theorem process_keeps_sum_iff (h : Hooks S) (maxRequests : Int)
    (calls : List (List S × List (Env κ))) (t : Thread S)
    (hRun : Lib.run (Thread.step h) ⟨State.new S maxRequests true, 0⟩ calls = some t)
    (batch : List S) (envs : List (Env κ)) :
    (2 * work (t.object.push batch) + 3 ≤ envs.length →
      (∃ n expecting st', (t.object.push batch).process h envs = .ok (n, expecting, st')) ∨
        (t.object.push batch).process h envs = .error .waits) ∧
    ∀ n expecting st', (t.object.push batch).process h envs = .ok (n, expecting, st') →
      ∃ new, st'.offers = t.object.offers ++ new ∧
        (KeepsSum (t.object.push batch) t.processing st' n ↔
          repeated new + (if refused st'.offers then 1 else 0) ≤
            if t.object.tmpInputResource.isSome then 1 else 0) := by
  obtain ⟨hBetween, hProcessing⟩ := between_thread hRun
  have hPush : t.object.round h (.push batch : Round κ S) = some (t.object.push batch) := rfl
  have hPushed := between_round hBetween hPush
  refine ⟨process_ends hPushed.settled hPushed.mode, fun n expecting st' hCall => ?_⟩
  obtain ⟨hBetween', hReturned, hTotal, new, hNew⟩ := process_total hPushed hCall
  refine ⟨new, hNew.symm, ?_⟩
  have hSize := hBetween.settled.size hBetween.mode
  have hSize' := hBetween'.settled.size hBetween'.mode
  have hRepeated : repeated st'.offers = repeated t.object.offers + repeated new := by
    rw [← hNew]
    exact List.countP_append
  -- a resource is stored after the call if and only if the last one was refused
  have hParked : st'.parked = ((if refused st'.offers then 1 else 0 : Nat) : Int) := by
    rw [← hBetween'.histories.stored, State.parked]
    split <;> rfl
  have hBefore : (t.object.push batch).parked =
      ((if t.object.tmpInputResource.isSome then 1 else 0 : Nat) : Int) := by
    show t.object.parked = _
    rw [State.parked]
    split <;> rfl
  have hSame : (t.object.push batch).runningSet = t.object.runningSet := rfl
  have hOffers : (t.object.push batch).offers = t.object.offers := rfl
  unfold total at hTotal
  rw [hParked, hRepeated, hBefore, hSame, hOffers] at hTotal
  unfold KeepsSum
  rw [hProcessing, hReturned, hSize, hSize']
  omega

/-- One resource, which the engine accepts, and has finished when it is asked for the third time. -/
def finishing : List (Env Unit) :=
  [.alone (fun _ => true) [] 2, .alone (fun _ => true) [] 2, .alone (fun _ => true) [⟨7, 7⟩] 2,
    .alone (fun _ => true) [] 0]

def finishedOne : State Nat :=
  { State.new Nat 1 true with
    outputResources := [7], taken := [7], offers := [⟨⟨7, 7⟩, true, false⟩], returned := [⟨7, 7⟩] }

theorem process_keeps_sum_one :
    ((State.new Nat 1 true).push [7]).process copying finishing = .ok (0, 1, finishedOne) ∧
      KeepsSum ((State.new Nat 1 true).push [7]) 0 finishedOne 0 := by
  have hCall : ((State.new Nat 1 true).push [7]).process copying finishing =
      .ok (0, 1, finishedOne) := rfl
  refine ⟨hCall, ?_⟩
  obtain ⟨-, hKeeps⟩ := process_keeps_sum_iff copying 1 [] ⟨State.new Nat 1 true, 0⟩ rfl
    [7] finishing
  obtain ⟨new, hNew, hIff⟩ := hKeeps 0 1 finishedOne hCall
  refine hIff.mpr ?_
  have hOffer : new = [⟨⟨7, 7⟩, true, false⟩] := hNew.symm
  rw [hOffer]
  decide

/-- The engine refuses the only resource: the sum is 1 before the call, and 0 after it. -/
theorem process_lowers_sum :
    ∃ n expecting st', ((State.new Nat 1 true).push [7]).process copying
        [Env.alone (fun _ => false) [] 0] = .ok (n, expecting, st') ∧
      ¬ KeepsSum ((State.new Nat 1 true).push [7]) 0 st' n := by
  refine ⟨_, _, _, rfl, ?_⟩
  unfold KeepsSum
  decide

end HectorCore.Calls
