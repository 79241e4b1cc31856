import HectorCore.Calls.Process

/-!
# Books — running, and what a call hands out

Sequences of calls of `ReadWrite` with an output queue, in both modes. The books are exact if after
every call `running` is the number of resources that were accepted and not returned, and if a call
without a time-out hands out what is available: all of it, or, in the mode `ordered`, the longest
prefix of what was submitted.

* Mode `ordered` uses the set. `running` is right as long as no id runs twice, but the results come
  in the order in which the set is visited, with gaps.
* The other mode uses the vector, and nothing is ever removed from it. `running` is right as long as
  nothing is handed out.
* A call without a time-out looks into `finishedResources` only, never into the output queue.

The results:

* `kept_round`      — what the two containers contain, and the bounds of `running`;
* `exact_books_iff` — when the books are exact.
-/

namespace HectorCore.Calls

open HectorCore.Clients (Resource Client Label)

variable {κ : Type} [DecidableEq κ] {S : Type} {h : Hooks S} {st st₁ st' : State S} {e : Env κ}
  {changed changed₁ changed' tv : Bool} {r : Round κ S} {ids : List Int} {me : Client}

/-- The resource is finished, or waits in the output queue. -/
def Env.available (e : Env κ) (id : Int) : Bool :=
  (e.engine.finishedResources id).isSome || e.engine.queue.any fun r => decide (r.id = id)

/-- The ids of what was accepted and not returned, in the order of submission. -/
def pending (accepted returned : List Resource) : List Int :=
  (accepted.map Resource.id).diff (returned.map Resource.id)

/-- The books after a call that led from `st` to `st'`. -/
structure ExactBooks (e : Env κ) (tv : Bool) (st st' : State S) : Prop where
  running : st'.running = st'.accepted.length - st'.returned.length
  bounds : 0 ≤ st'.running ∧ st'.running ≤ st'.maxRequests
  handed : tv = false → ∃ out, st'.returned = st.returned ++ out ∧
    if st.ordered then
      out.map Resource.id = (pending st'.accepted st.returned).takeWhile e.available
    else ∀ id ∈ pending st'.accepted st.returned, e.available id = true → id ∈ out.map Resource.id

/-- A round keeps exact books; new input does not touch them. -/
def ExactRound (st st' : State S) : Round κ S → Prop
  | .push _ => True
  | .readWrite e tv => ExactBooks e tv st st'

/-- What a call needs for it, from the state before and from the engine. -/
def Bookable (h : Hooks S) (st : State S) : Round κ S → Prop
  | .push _ => True
  | .readWrite e tv => ∀ changed st₁, st.write h e.accepts true = .ok (changed, st₁) →
    if st.ordered then
      -- no id is accepted twice
      repeated st₁.offers = repeated st.offers ∧
        (tv = false →
          (e.order st₁.runningSet).filter (fun id => (e.engine.finishedResources id).isSome) =
            (pending st₁.accepted st.returned).takeWhile e.available)
    else if tv then
      ∀ me, st₁.running ≠ 0 → e.getProcessed true st₁.runningVector true = some me → me.output = []
    else ∀ id ∈ st₁.accepted.map Resource.id, e.available id = false

-- ---------------------------------------------------------------------------
-- The engine call without a time-out
-- ---------------------------------------------------------------------------

/-- A call that does not wait takes what is finished, and all of it. -/
theorem getProcessed_finished (hNodup : ids.Nodup)
    (hMe : e.getProcessed false (e.order ids) false = some me) :
    me.output.map Resource.id =
      (e.order ids).filter fun id => (e.engine.finishedResources id).isSome := by
  obtain ⟨s, b, hRun, hPc, rfl⟩ := getProcessed_run hMe
  rw [Clients.nonblocking_output ((e.perm ids).nodup_iff.mpr hNodup) e.roles e.free
    e.outside hRun hPc,
    List.map_filterMap]
  have hKeyed : (fun id => (e.engine.finishedResources id).map Resource.id) =
      Option.guard fun id => (e.engine.finishedResources id).isSome := by
    funext id
    cases hFound : e.engine.finishedResources id with
    | none => simp [Option.guard, hFound]
    | some r => simp [Option.guard, hFound, e.keyed id r hFound]
  rw [hKeyed, List.filterMap_eq_filter]

/-- In order it takes nothing while none of the ids is available. -/
theorem getProcessed_nil (hNone : ∀ id ∈ ids, e.available id = false)
    (hMe : e.getProcessed true ids false = some me) : me.output = [] := by
  obtain ⟨s, b, hRun, hPc, rfl⟩ := getProcessed_run hMe
  refine Clients.nonblocking_ordered_nil ?_ e.roles e.free e.outside hRun hPc
  intro id hMem
  have hAway := hNone id hMem
  unfold Env.available at hAway
  rw [Bool.or_eq_false_iff] at hAway
  simpa using hAway.1

-- ---------------------------------------------------------------------------
-- The two containers
-- ---------------------------------------------------------------------------

/-- An id that was accepted again is not in the set twice; the vector holds all that was
accepted. -/
structure Booked (st : State S) : Prop where
  set : st.ordered = true →
    st.accepted.length = st.runningSet.length + st.returned.length + repeated st.offers
  vector : st.ordered = false → st.runningVector = st.accepted.map Resource.id

/-- An offer is booked as it is accepted. -/
theorem booked_offer (hBooked : Booked st) (b : Bool) (r : Resource) : Booked (st.offer b r) where
  set := by
    intro hMode
    rw [offer_ordered] at hMode
    have hSet := hBooked.set hMode
    have hSize := runningSet_offer_length hMode b r
    rw [offer_accepted, offer_returned]
    cases b with
    | false => simpa [hSet] using hSize.symm
    | true =>
      rw [if_pos rfl, List.length_append, List.length_singleton]
      simp only [Bool.toNat_true] at hSize
      omega
  vector := by
    intro hMode
    rw [offer_ordered] at hMode
    rw [offer_runningVector, offer_accepted, hMode, hBooked.vector hMode]
    cases b <;> simp

/-- What is written is booked. -/
theorem booked_write (hBooked : Booked st) (hWrite : Write h (changed, st) (changed', st')) :
    Booked st' := by
  cases hWrite with
  | stored b => exact booked_offer hBooked b _
  | offered b =>
    have hOffer := booked_offer hBooked b
    exact ⟨(hOffer _).set, (hOffer _).vector⟩
  | passed => exact ⟨hBooked.set, hBooked.vector⟩

/-- What is read is booked. -/
theorem booked_read (hCounted : Counted st) (hBooked : Booked st)
    (hRead : Read h e tv (changed, st) (changed', st')) : Booked st' := by
  cases hRead with
  | idle => exact hBooked
  | @unordered _ _ me hBusy hMode hMe =>
    refine ⟨fun _ => ?_, fun hOther => absurd (hMode.symm.trans hOther) (by decide)⟩
    have hLength := (getProcessed_perm hCounted.nodup hMe).length_eq
    rw [List.length_append, List.length_map] at hLength
    have hSet := hBooked.set hMode
    show st.accepted.length = me.ids.length + (st.returned ++ me.output).length + repeated st.offers
    rw [List.length_append]
    omega
  | ordered hBusy hMode =>
    exact ⟨fun hOther => absurd (hMode.symm.trans hOther) (by decide), hBooked.vector⟩

/-- What holds between two calls. -/
structure Kept (st : State S) : Prop where
  settled : Settled st
  within : Within st
  booked : Booked st

/-- A new object owes nothing. -/
theorem kept_new {maxRequests : Int} (hMax : 0 < maxRequests) (ordered : Bool) :
    Kept (State.new S maxRequests ordered) :=
  ⟨settled_new maxRequests ordered,
    ⟨Int.le_refl _, Int.le_of_lt hMax, fun hStored => absurd rfl hStored⟩,
    ⟨fun _ => rfl, fun _ => rfl⟩⟩

/-- Between the two halves of a call. -/
structure Written (st st₁ : State S) : Prop where
  mode : st₁.ordered = st.ordered
  counted : Counted st₁
  within : Within st₁
  booked : Booked st₁
  returned : st₁.returned = st.returned

/-- What the first half of a round leaves for the second. -/
theorem written_write (hKept : Kept st) (hWrite : st.write h e.accepts true = .ok (changed, st₁)) :
    Written st st₁ := by
  refine write_invariant (Written st) ?_ hWrite
    ⟨rfl, hKept.settled.counted, hKept.within, hKept.booked, rfl⟩
  intro changed changed' s s' hWritten hWrite
  obtain ⟨hMode, -, hReturned⟩ := write_frame hWrite
  exact ⟨hMode.trans hWritten.mode, counted_write hWritten.counted hWrite,
    within_write hWritten.within hWrite, booked_write hWritten.booked hWrite,
    hReturned.trans hWritten.returned⟩

/-- The second half restores what holds between the rounds. -/
theorem kept_read (hWritten : Written st st₁) (hRead : Read h e tv (changed, st₁) (changed', st')) :
    Kept st' ∧ st'.ordered = st.ordered ∧ st'.offers = st₁.offers := by
  have hCounted := counted_read hWritten.counted hRead
  refine ⟨⟨⟨hCounted.1, hCounted.2⟩, within_read hWritten.counted hWritten.within hRead,
    booked_read hWritten.counted hWritten.booked hRead⟩, ?_, ?_⟩
  · cases hRead <;> exact hWritten.mode
  · cases hRead <;> rfl

/-- The step lemma. -/
theorem kept_round (hKept : Kept st) (hRound : st.round h r = some st') : Kept st' := by
  cases r with
  | push batch =>
    cases Option.some.inj hRound
    exact ⟨settled_round hKept.settled hRound, within_push hKept.within batch,
      ⟨hKept.booked.set, hKept.booked.vector⟩⟩
  | readWrite e tv =>
    obtain ⟨changed, changed₁, st₁, hWrite, hRead⟩ := round_halves hRound
    exact (kept_read (written_write hKept hWrite) hRead).1

-- ---------------------------------------------------------------------------
-- One call
-- ---------------------------------------------------------------------------

/-- Mode `ordered`: `running` is right if and only if no id was accepted while it was running. -/
theorem running_exact_iff (hKept : Kept st) (hMode : st.ordered = true) :
    st.running = st.accepted.length - st.returned.length ↔ repeated st.offers = 0 := by
  have hSize := hKept.settled.size hMode
  have hSet := hKept.booked.set hMode
  omega

/-- The other mode: if and only if nothing was returned. -/
theorem running_exact_iff_nil (hKept : Kept st) (hMode : st.ordered = false) :
    st.running = st.accepted.length - st.returned.length ↔ st.returned = [] := by
  have hVector := hKept.settled.counted.vector hMode
  rw [hKept.booked.vector hMode, List.length_map] at hVector
  rw [← List.length_eq_zero_iff]
  omega

/-- Mode `ordered`: a call without a time-out hands out what is finished, in the order in which the
set is visited. -/
theorem handed_ordered (hWritten : Written st st₁) (hMode : st.ordered = true)
    (hRead : Read h e tv (changed, st₁) (changed', st')) :
    ∃ out, st'.returned = st.returned ++ out ∧
      (tv = false → out.map Resource.id =
        (e.order st₁.runningSet).filter fun id => (e.engine.finishedResources id).isSome) := by
  have hReturned := hWritten.returned
  have hMode₁ := hWritten.mode.trans hMode
  cases hRead with
  | idle hIdle =>
    refine ⟨[], by rw [hReturned, List.append_nil], fun _ => ?_⟩
    have hSet := hWritten.counted.set hMode₁
    have hNil : st₁.runningSet = [] := List.length_eq_zero_iff.mp (by omega)
    have hOrder := e.perm st₁.runningSet
    rw [hNil] at hOrder ⊢
    rw [hOrder.eq_nil]
    rfl
  | @unordered _ _ me hBusy _ hMe =>
    refine ⟨me.output, by rw [← hReturned], fun hTv => ?_⟩
    subst hTv
    exact getProcessed_finished hWritten.counted.nodup hMe
  | ordered hBusy hOther => exact absurd (hMode₁.symm.trans hOther) (by decide)

/-- Mode `ordered`: an id that was offered twice spoils the count. -/
theorem exactBooks_ordered_iff (hKept : Kept st)
    (hExact : st.running = st.accepted.length - st.returned.length) (hMode : st.ordered = true)
    (hWrite : st.write h e.accepts true = .ok (changed₁, st₁))
    (hRead : Read h e tv (changed₁, st₁) (changed, st')) :
    ExactBooks e tv st st' ↔
      repeated st₁.offers = repeated st.offers ∧
        (tv = false →
          (e.order st₁.runningSet).filter (fun id => (e.engine.finishedResources id).isSome) =
            (pending st₁.accepted st.returned).takeWhile e.available) := by
  have hWritten := written_write hKept hWrite
  obtain ⟨hKept', hMode', hOffers⟩ := kept_read hWritten hRead
  obtain ⟨out, hOut, hHanded⟩ := handed_ordered hWritten hMode hRead
  have hAccepted : st'.accepted = st₁.accepted := by
    unfold State.accepted
    rw [hOffers]
  have hNone := (running_exact_iff hKept hMode).mp hExact
  rw [hNone, ← hOffers, ← hAccepted]
  constructor
  · rintro ⟨hRunning, -, hCall⟩
    refine ⟨(running_exact_iff hKept' (hMode'.trans hMode)).mp hRunning, fun hTv => ?_⟩
    obtain ⟨out', hOut', hPrefix⟩ := hCall hTv
    rw [if_pos hMode] at hPrefix
    rw [← hHanded hTv, List.append_cancel_left (hOut.symm.trans hOut'), hPrefix]
  · rintro ⟨hRepeated, hPrefix⟩
    refine ⟨(running_exact_iff hKept' (hMode'.trans hMode)).mpr hRepeated,
      ⟨hKept'.within.nonneg, hKept'.within.room⟩, fun hTv => ⟨out, hOut, ?_⟩⟩
    rw [if_pos hMode, hHanded hTv, hPrefix hTv]

/-- The other mode: what is handed out, and when it is nothing. -/
theorem handed_unordered (hWritten : Written st st₁) (hMode : st.ordered = false)
    (hRead : Read h e tv (changed, st₁) (changed', st')) :
    ∃ out, st'.returned = st.returned ++ out ∧
      (out = [] ↔ ∀ me, st₁.running ≠ 0 → e.getProcessed true st₁.runningVector tv = some me →
        me.output = []) := by
  have hReturned := hWritten.returned
  have hMode₁ := hWritten.mode.trans hMode
  cases hRead with
  | idle hIdle =>
    refine ⟨[], by rw [hReturned, List.append_nil], iff_of_true rfl fun me hBusy => ?_⟩
    exact absurd hIdle hBusy
  | unordered hBusy hOther => exact absurd (hMode₁.symm.trans hOther) (by decide)
  | @ordered _ _ me hBusy _ hMe =>
    refine ⟨me.output, by rw [← hReturned], ?_, fun hNil => hNil me hBusy hMe⟩
    intro hNil me' _ hMe'
    cases hMe.symm.trans hMe'
    exact hNil

/-- The other mode: the engine has to take all it can. -/
theorem exactBooks_unordered_iff (hKept : Kept st)
    (hExact : st.running = st.accepted.length - st.returned.length) (hMode : st.ordered = false)
    (hWrite : st.write h e.accepts true = .ok (changed₁, st₁))
    (hRead : Read h e tv (changed₁, st₁) (changed, st')) :
    ExactBooks e tv st st' ↔
      if tv then
        ∀ me, st₁.running ≠ 0 → e.getProcessed true st₁.runningVector true = some me →
        me.output = []
      else ∀ id ∈ st₁.accepted.map Resource.id, e.available id = false := by
  have hWritten := written_write hKept hWrite
  obtain ⟨hKept', hMode', hOffers⟩ := kept_read hWritten hRead
  obtain ⟨out, hOut, hNil⟩ := handed_unordered hWritten hMode hRead
  have hAccepted : st'.accepted = st₁.accepted := by
    unfold State.accepted
    rw [hOffers]
  have hVector := hWritten.booked.vector (hWritten.mode.trans hMode)
  have hBefore := (running_exact_iff_nil hKept hMode).mp hExact
  rw [hBefore, List.nil_append] at hOut
  have hNothing := (running_exact_iff_nil hKept' (hMode'.trans hMode)).trans (by rw [hOut])
  have hPending : pending st₁.accepted st.returned = st₁.accepted.map Resource.id := by
    rw [hBefore]
    rfl
  cases tv with
  | true =>
    rw [if_pos rfl, ← hNil]
    refine ⟨fun hBooks => hNothing.mp hBooks.running, fun hEmpty => ?_⟩
    exact ⟨hNothing.mpr hEmpty, ⟨hKept'.within.nonneg, hKept'.within.room⟩,
      fun hTv => absurd hTv (by decide)⟩
  | false =>
    rw [if_neg (by decide)]
    constructor
    · rintro ⟨hRunning, -, hCall⟩ id hMem
      obtain ⟨out', hOut', hAll⟩ := hCall rfl
      rw [if_neg (by simp [hMode]), hAccepted, hPending] at hAll
      -- nothing was handed out, so nothing was available
      have hEmpty : out' = [] := by
        have hReturned := (running_exact_iff_nil hKept' (hMode'.trans hMode)).mp hRunning
        rw [hReturned] at hOut'
        exact (List.append_eq_nil_iff.mp hOut'.symm).2
      by_contra hAvailable
      have hIn := hAll id hMem (by simpa using hAvailable)
      rw [hEmpty] at hIn
      exact absurd hIn (by simp)
    · intro hAway
      have hEmpty : out = [] := by
        refine hNil.mpr fun me _ hMe => getProcessed_nil ?_ hMe
        rw [hVector]
        exact hAway
      refine ⟨hNothing.mpr hEmpty, ⟨hKept'.within.nonneg, hKept'.within.room⟩,
        fun _ => ⟨[], ?_, ?_⟩⟩
      · rw [List.append_nil, hBefore, hOut, hEmpty]
      · rw [if_neg (by simp [hMode]), hAccepted, hPending]
        intro id hMem hAvailable
        exact absurd (hAvailable.symm.trans (hAway id hMem)) (by decide)

/-- **One round.** -/
theorem exactRound_iff (hKept : Kept st)
    (hExact : st.running = st.accepted.length - st.returned.length)
    (hRound : st.round h r = some st') : ExactRound st st' r ↔ Bookable h st r := by
  cases r with
  | push batch => exact Iff.rfl
  | readWrite e tv =>
    obtain ⟨changed, changed₁, st₁, hWrite, hRead⟩ := round_halves hRound
    have hOnly : ∀ {P : State S → Prop},
        P st₁ ↔ ∀ changed st₂, st.write h e.accepts true = .ok (changed, st₂) → P st₂ := by
      intro P
      refine ⟨fun hP changed st₂ hWrite₂ => ?_, fun hAll => hAll changed₁ st₁ hWrite⟩
      cases hWrite.symm.trans hWrite₂
      exact hP
    refine Iff.trans ?_ hOnly
    cases hMode : st.ordered with
    | true =>
      rw [if_pos rfl]
      exact exactBooks_ordered_iff hKept hExact hMode hWrite hRead
    | false =>
      rw [if_neg (by decide)]
      exact exactBooks_unordered_iff hKept hExact hMode hWrite hRead

/-- **When the books are exact.** In the mode `ordered`, when no resource is accepted whose id is
running, and the ids that a call without a time-out finds finished, in the order in which the set is
visited, are those that were to be handed out; in the other mode, when nothing is ever handed out,
and nothing is available. -/
theorem exact_books_iff (h : Hooks S) (maxRequests : Int) (ordered : Bool)
    (rounds : List (Round κ S))
    (st : State S) (hMax : 0 < maxRequests)
    (hRun : Lib.run (State.round h) (State.new S maxRequests ordered) rounds = some st) :
    Lib.AllOk (State.round h) (fun s r => ∀ s', s.round h r = some s' → ExactRound s s' r)
        (State.new S maxRequests ordered) rounds ↔
      Lib.AllOk (State.round h) (Bookable h) (State.new S maxRequests ordered) rounds := by
  refine Lib.allOk_congr
    (fun s => Kept s ∧ s.running = s.accepted.length - s.returned.length) ?_ ?_ hRun
    ⟨kept_new hMax ordered, rfl⟩
  · rintro s r s' ⟨hKept, hExact⟩ hBooks hRound
    refine ⟨kept_round hKept hRound, ?_⟩
    cases r with
    | push batch =>
      cases Option.some.inj hRound
      exact hExact
    | readWrite e tv => exact (hBooks s' hRound).running
  · rintro s r s' ⟨hKept, hExact⟩ hRound
    refine Iff.trans ⟨fun hBooks => hBooks s' hRound, fun hBooks s'' hRound' => ?_⟩
      (exactRound_iff hKept hExact hRound)
    cases hRound.symm.trans hRound'
    exact hBooks

/-- Mode `ordered`: two resources are accepted, and the first one is finished. -/
def exactly : List (Round Unit Nat) :=
  [.push [7, 8], .readWrite (.alone (fun _ => true) [⟨7, 7⟩] 3) false]

def exactlyOne : State Nat :=
  { State.new Nat 2 true with
    running := 1, runningSet := [8], outputResources := [7], taken := [7, 8], returned := [⟨7, 7⟩]
    offers := [⟨⟨7, 7⟩, true, false⟩, ⟨⟨8, 8⟩, true, false⟩] }

/-- One resource is finished and one is not. -/
theorem exact_books_one :
    Lib.AllOk (State.round copying)
      (fun s r => ∀ s', s.round copying r = some s' → ExactRound s s' r) (State.new Nat 2 true)
      exactly := by
  refine (exact_books_iff copying 2 true exactly exactlyOne (by decide) rfl).mpr ?_
  refine ⟨trivial, fun st₁ hPush => ⟨?_, fun _ _ => trivial⟩⟩
  intro changed st₂ hWrite
  cases Option.some.inj hPush
  have hWrite' : ((State.new Nat 2 true).push [7, 8]).write copying (fun _ => true)
    true = .ok (true,
      { exactlyOne with
        running := 2, runningSet := [7, 8], outputResources := [], returned := [] }) := rfl
  have hMode : ((State.new Nat 2 true).push [7, 8]).ordered = true := rfl
  cases hWrite'.symm.trans hWrite
  rw [if_pos hMode]
  exact ⟨rfl, fun _ => by decide⟩

/-- The other mode: one resource is accepted, finished and handed out. It is still counted. -/
def miscounting : List (Round Unit Nat) :=
  [.push [7], .readWrite (.alone (fun _ => true) [⟨7, 7⟩] 2) false]

def miscounted : State Nat :=
  { State.new Nat 1 false with
    running := 1, runningVector := [7], outputResources := [7], taken := [7], returned := [⟨7, 7⟩]
    offers := [⟨⟨7, 7⟩, true, false⟩] }

/-- The resource is handed out, and still counted. -/
theorem books_not_exact :
    Lib.run (State.round copying) (State.new Nat 1 false) miscounting = some miscounted ∧
      miscounted.running = 1 ∧ miscounted.accepted.length = 1 ∧ miscounted.returned.length = 1 ∧
      ¬ Lib.AllOk (State.round copying)
        (fun s r => ∀ s', s.round copying r = some s' → ExactRound s s' r)
        (State.new Nat 1 false) miscounting := by
  refine ⟨rfl, rfl, rfl, rfl, fun hAll => ?_⟩
  have hBooks := ((hAll.2 ((State.new Nat 1 false).push [7]) rfl).1 miscounted rfl).running
  exact absurd hBooks (by decide)

end HectorCore.Calls
