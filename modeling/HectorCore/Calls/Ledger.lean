import HectorCore.Calls.ReadWrite

/-!
# Ledger — what is kept of a resource that was taken

What holds of a `CallProcessingEngine` after every sequence of calls, whatever the called engine
does.

* `settled_round`    — `running` is the size of the container that the mode uses;
* `within_round`     — `running` is at most `maxRequests`, and less while a resource is stored;
* `histories_round`  — what has been accepted, and what is stored, is what was taken, in this order;
* `taken_append_run` — what was taken, and what is left, is what has come in.
-/

namespace HectorCore.Calls

open HectorCore.Clients (Resource Client Label)

variable {κ : Type} [DecidableEq κ] {S : Type} {h : Hooks S} {st st' : State S} {e : Env κ}
  {changed changed' tv : Bool} {r : Round κ S} {rounds : List (Round κ S)} {ids : List Int}
  {me : Client}

-- ---------------------------------------------------------------------------
-- The engine call
-- ---------------------------------------------------------------------------

/-- A call of the engine that comes back is a run of the engine up to the return of the caller. -/
theorem getProcessed_run {ordered : Bool} (hMe : e.getProcessed ordered ids tv = some me) :
    ∃ s b, Lib.run Clients.step (e.engine.entered e.caller ordered ids tv) e.labels = some s ∧
      (s.client e.caller).pc = .returned b ∧ s.client e.caller = me := by
  unfold Env.getProcessed at hMe
  split at hMe
  · exact absurd hMe (by simp)
  · rename_i s hRun
    split at hMe
    · rename_i b hPc
      exact ⟨s, b, hRun, hPc, Option.some.inj hMe⟩
    · exact absurd hMe (by simp)

/-- The ids that are left, and those of the output, are the ids of the call. -/
theorem getProcessed_perm (hNodup : ids.Nodup)
    (hMe : e.getProcessed false (e.order ids) tv = some me) :
    (me.ids ++ me.output.map Resource.id).Perm ids := by
  obtain ⟨s, b, hRun, -, rfl⟩ := getProcessed_run hMe
  have hPerm := e.perm ids
  exact (Clients.collected_perm (hPerm.nodup_iff.mpr hNodup) e.keyed hRun).trans hPerm

-- ---------------------------------------------------------------------------
-- running
-- ---------------------------------------------------------------------------

/-- What no round changes. -/
theorem frame_round (hRound : st.round h r = some st') :
    st'.ordered = st.ordered ∧ st'.maxRequests = st.maxRequests := by
  refine round_invariant (fun s => s.ordered = st.ordered ∧ s.maxRequests = st.maxRequests)
    (fun _ _ hFrame => hFrame) ?_ ?_ ⟨rfl, rfl⟩ hRound
  · intro changed changed' s s' hFrame hWrite
    obtain ⟨hMode, hMax, -⟩ := write_frame hWrite
    exact ⟨hMode.trans hFrame.1, hMax.trans hFrame.2⟩
  · intro e tv _ changed changed' s s' hFrame hRead
    cases hRead with
    | idle => exact hFrame
    | unordered => exact hFrame
    | ordered => exact hFrame

/-- While resources are taken, an id that runs twice is counted twice. -/
structure Counted (st : State S) : Prop where
  nodup : st.runningSet.Nodup
  set : st.ordered = true → st.runningSet.length ≤ st.running
  vector : st.ordered = false → st.running = st.runningVector.length

/-- New input does not run yet. -/
theorem counted_push (hCounted : Counted st) (batch : List S) : Counted (st.push batch) :=
  ⟨hCounted.nodup, hCounted.set, hCounted.vector⟩

/-- An accepted resource is counted; its id may be there already. -/
theorem counted_offer (hCounted : Counted st) (b : Bool) (r : Resource) :
    Counted (st.offer b r) where
  nodup := by
    rw [offer_runningSet]
    split
    · rename_i hNew
      simp only [Bool.and_eq_true, Bool.not_eq_true', decide_eq_false_iff_not] at hNew
      refine List.nodup_append.mpr ⟨hCounted.nodup, List.nodup_singleton _, ?_⟩
      rintro a ha b hb rfl
      exact hNew.2 (List.mem_singleton.mp hb ▸ ha)
    · exact hCounted.nodup
  set := by
    intro hMode
    have hSet := hCounted.set (by simpa using hMode)
    rw [offer_runningSet, offer_running]
    -- a refused resource is not counted; an accepted one is, even if its id is in the set
    cases b with
    | false => simpa using hSet
    | true =>
      split
      · simp only [List.length_append, List.length_singleton, if_true]
        omega
      · simp only [if_true]
        omega
  vector := by
    intro hMode
    rw [offer_ordered] at hMode
    have hVector := hCounted.vector hMode
    rw [offer_running, offer_runningVector, hMode, hVector]
    cases b <;> simp

/-- Whatever half a round writes, it is counted. -/
theorem counted_write (hCounted : Counted st) (hWrite : Write h (changed, st) (changed', st')) :
    Counted st' := by
  cases hWrite with
  | stored b => exact counted_offer hCounted b _
  | offered b =>
    have hOffer := counted_offer hCounted b
    exact ⟨(hOffer _).nodup, (hOffer _).set, (hOffer _).vector⟩
  | passed => exact ⟨hCounted.nodup, hCounted.set, hCounted.vector⟩

/-- Mode `ordered`: the count is right after the engine call. -/
theorem counted_read (hCounted : Counted st) (hRead : Read h e tv (changed, st) (changed', st')) :
    Counted st' ∧ (st'.ordered = true → st'.running = st'.runningSet.length) := by
  cases hRead with
  | idle hIdle =>
    refine ⟨hCounted, fun hMode => ?_⟩
    have hSet := hCounted.set hMode
    omega
  | unordered hBusy hMode hMe =>
    -- the ids that are left are distinct, and `running` is set to their number
    have hPerm := getProcessed_perm hCounted.nodup hMe
    have hNodup := hPerm.nodup_iff.mpr hCounted.nodup
    refine ⟨⟨(List.nodup_append.mp hNodup).1, fun _ => Int.le_refl _, fun hOther => ?_⟩,
      fun _ => rfl⟩
    exact absurd (hMode.symm.trans hOther) (by decide)
  | ordered hBusy hMode =>
    refine ⟨⟨hCounted.nodup, fun hOther => ?_, fun _ => rfl⟩, fun hOther => ?_⟩
    · exact absurd (hMode.symm.trans hOther) (by decide)
    · exact absurd (hMode.symm.trans hOther) (by decide)

/-- `running` has its bounds; a resource is stored only while there is room. -/
structure Within (st : State S) : Prop where
  nonneg : 0 ≤ st.running
  room : st.running ≤ st.maxRequests
  stored : st.tmpInputResource ≠ none → st.running < st.maxRequests

theorem within_push (hWithin : Within st) (batch : List S) : Within (st.push batch) :=
  ⟨hWithin.nonneg, hWithin.room, hWithin.stored⟩

/-- A resource is offered only where there is room for it. -/
theorem within_offer {b : Bool} {r : Resource} (hWithin : Within st)
    (hRoom : st.running < st.maxRequests) :
    Within (st.offer b r) := by
  have hNonneg := hWithin.nonneg
  refine ⟨?_, ?_, ?_⟩
  · rw [offer_running]
    split <;> omega
  · rw [offer_running, offer_maxRequests]
    split <;> omega
  · rw [offer_running, offer_maxRequests, offer_tmpInputResource]
    cases b <;> simp [hRoom]

theorem within_write (hWithin : Within st) (hWrite : Write h (changed, st) (changed', st')) :
    Within st' := by
  cases hWrite with
  | stored b hStored => exact within_offer hWithin (hWithin.stored (by rw [hStored]; simp))
  | @offered _ _ _ _ r b hNone hInput hRoom =>
    have hOffer : Within (st.offer b r) := within_offer hWithin hRoom
    exact ⟨hOffer.nonneg, hOffer.room, hOffer.stored⟩
  | passed => exact ⟨hWithin.nonneg, hWithin.room, hWithin.stored⟩

/-- The engine call gives room back: no more ids are left than were there. -/
theorem within_read (hCounted : Counted st) (hWithin : Within st)
    (hRead : Read h e tv (changed, st) (changed', st')) : Within st' := by
  cases hRead with
  | idle => exact hWithin
  | @unordered _ _ me hBusy hMode hMe =>
    have hLength := (getProcessed_perm hCounted.nodup hMe).length_eq
    rw [List.length_append] at hLength
    -- what is left is at most what was counted
    have hLess : (me.ids.length : Int) ≤ st.running := by
      have hSet := hCounted.set hMode
      omega
    refine ⟨Int.natCast_nonneg _, Int.le_trans hLess hWithin.room, fun hStored => ?_⟩
    exact Int.lt_of_le_of_lt hLess (hWithin.stored hStored)
  | ordered hBusy hMode =>
    have hSame := hCounted.vector hMode
    exact ⟨Int.natCast_nonneg _, hSame ▸ hWithin.room,
      fun hStored => hSame ▸ hWithin.stored hStored⟩

/-- **`running`, after every round.** -/
structure Settled (st : State S) : Prop where
  counted : Counted st
  size : st.ordered = true → st.running = st.runningSet.length

/-- Nothing runs in a new object. -/
theorem settled_new (maxRequests : Int) (ordered : Bool) :
    Settled (State.new S maxRequests ordered) :=
  ⟨⟨List.nodup_nil, fun _ => Int.le_refl _, fun _ => rfl⟩, fun _ => rfl⟩

/-- The engine call at the end of a round makes `running` exact again. -/
theorem settled_round (hSettled : Settled st) (hRound : st.round h r = some st') : Settled st' := by
  cases r with
  | push batch =>
    cases Option.some.inj hRound
    exact ⟨counted_push hSettled.counted batch, hSettled.size⟩
  | readWrite e tv =>
    -- the loop of the first half keeps the weaker invariant, the second half restores the equation
    obtain ⟨changed, changed₁, st₁, hWrite, hRead⟩ := round_halves hRound
    have hRead := counted_read (write_invariant Counted counted_write hWrite hSettled.counted) hRead
    exact ⟨hRead.1, hRead.2⟩

theorem within_round (hSettled : Settled st) (hWithin : Within st)
    (hRound : st.round h r = some st') :
    Within st' := by
  cases r with
  | push batch =>
    cases Option.some.inj hRound
    exact within_push hWithin batch
  | readWrite e tv =>
    obtain ⟨changed, changed₁, st₁, hWrite, hRead⟩ := round_halves hRound
    exact within_read (write_invariant Counted counted_write hWrite hSettled.counted)
      (write_invariant Within within_write hWrite hWithin) hRead

-- ---------------------------------------------------------------------------
-- Histories
-- ---------------------------------------------------------------------------

/-- The last resource that was offered was refused. -/
def refused (offers : List Offer) : Bool := offers.getLast?.any fun o => !o.accepted

/-- The resources that were offered to the engine; the last one may still be stored. -/
def State.submitted (st : State S) : List Resource := st.accepted ++ st.tmpInputResource.toList

/-- What was offered was taken in this order; the stored resource is the one that was refused
last. -/
structure Histories (h : Hooks S) (st : State S) : Prop where
  submitted : st.submitted = st.taken.filterMap h.prepareResource
  stored : st.tmpInputResource.isSome = refused st.offers

theorem histories_push (hHistories : Histories h st) (batch : List S) :
    Histories h (st.push batch) :=
  ⟨hHistories.submitted, hHistories.stored⟩

/-- The last offer is the one that decides. -/
theorem refused_offer (b : Bool) (r : Resource) : refused (st.offer b r).offers = !b := by
  simp [refused]

/-- The stored resource is offered before another one is taken. -/
theorem histories_write (hHistories : Histories h st)
    (hWrite : Write h (changed, st) (changed', st')) :
    Histories h st' := by
  have hSubmitted := hHistories.submitted
  unfold State.submitted at hSubmitted
  cases hWrite with
  | stored b hStored =>
    rw [hStored] at hSubmitted
    refine ⟨?_, ?_⟩
    · rw [State.submitted, offer_accepted, offer_tmpInputResource, offer_taken, ← hSubmitted]
      cases b <;> simp
    · rw [refused_offer, offer_tmpInputResource]
      cases b <;> simp
  | @offered _ _ src _ r b hNone hInput hRoom hPrepare =>
    rw [hNone, Option.toList_none, List.append_nil] at hSubmitted
    refine ⟨?_, ?_⟩
    · show (st.offer b r).accepted ++ (st.offer b r).tmpInputResource.toList = _
      dsimp only
      rw [offer_accepted, offer_tmpInputResource, List.filterMap_append, ← hSubmitted]
      cases b <;> simp [hPrepare]
    · dsimp only
      rw [refused_offer, offer_tmpInputResource]
      cases b <;> simp
  | passed hNone hInput hPrepare =>
    -- `PrepareResource` wants nothing of it, so that nothing is submitted
    refine ⟨?_, hHistories.stored⟩
    dsimp only
    rw [List.filterMap_append, ← hSubmitted]
    simp [hPrepare, State.submitted, State.accepted]

theorem histories_read (hHistories : Histories h st)
    (hRead : Read h e tv (changed, st) (changed', st')) : Histories h st' := by
  cases hRead with
  | idle => exact hHistories
  | unordered => exact ⟨hHistories.submitted, hHistories.stored⟩
  | ordered => exact ⟨hHistories.submitted, hHistories.stored⟩

/-- The order is kept by every round. -/
theorem histories_round (hHistories : Histories h st) (hRound : st.round h r = some st') :
    Histories h st' :=
  round_invariant (Histories h) (fun batch _ hOld => histories_push hOld batch) histories_write
    (fun _ _ _ => histories_read) hHistories hRound

theorem histories_new (maxRequests : Int) (ordered : Bool) :
    Histories h (State.new S maxRequests ordered) :=
  ⟨rfl, rfl⟩

/-- Offers are only added. -/
theorem offers_prefix_round (hRound : st.round h r = some st') : st.offers <+: st'.offers := by
  refine round_invariant (fun s => st.offers <+: s.offers) (fun _ _ hPrefix => hPrefix) ?_ ?_
    (List.prefix_refl _) hRound
  · intro changed changed' s s' hPrefix hWrite
    cases hWrite with
    | stored b =>
      rw [offer_offers]
      exact hPrefix.trans (List.prefix_append _ _)
    | offered b =>
      dsimp only
      rw [offer_offers]
      exact hPrefix.trans (List.prefix_append _ _)
    | passed => exact hPrefix
  · intro e tv _ changed changed' s s' hPrefix hRead
    cases hRead <;> exact hPrefix

/-- What is taken is the first of `inputResources`. -/
theorem taken_append_write (hWrite : Write h (changed, st) (changed', st')) :
    st'.taken ++ st'.inputResources = st.taken ++ st.inputResources := by
  cases hWrite with
  | stored b => simp
  | offered b hNone hInput => simp [hInput]
  | passed hNone hInput => simp [hInput]

/-- What was taken, and what is left, is what has come in. -/
theorem taken_append_run (hRun : Lib.run (State.round h) st rounds = some st') :
    st'.taken ++ st'.inputResources = st.taken ++ st.inputResources ++ given rounds := by
  induction rounds generalizing st with
  | nil =>
    cases Option.some.inj hRun
    simp [given]
  | cons r rounds ih =>
    obtain ⟨st₁, hFirst, hRest⟩ := Lib.run_cons_eq_some.mp hRun
    rw [ih hRest]
    cases r with
    | push batch =>
      cases Option.some.inj hFirst
      simp [given, State.push]
    | readWrite e tv =>
      obtain ⟨changed, changed₁, st₂, hWrite, hRead⟩ := round_halves hFirst
      have hSame : st₂.taken ++ st₂.inputResources = st.taken ++ st.inputResources := by
        refine write_invariant
          (fun s => s.taken ++ s.inputResources = st.taken ++ st.inputResources) ?_ hWrite rfl
        exact fun hOld hWrite => (taken_append_write hWrite).trans hOld
      have hKept : st₁.taken ++ st₁.inputResources = st₂.taken ++ st₂.inputResources := by
        cases hRead <;> rfl
      rw [hKept, hSame]
      simp [given]

end HectorCore.Calls
