import HectorCore.Calls.Books
import Mathlib.Data.List.Perm.Subperm

/-!
# Termination — the loops of Process

`while (ReadWrite(inputResources, outputResources, NULL));` stands twice in
`CallProcessingEngine::Process`. A call of `ReadWrite` reports a change if a resource was accepted,
or came back; in the same call others may be refused, stored, passed through or left running.

* A resource that has come in weighs two, and one that was accepted weighs one. One that comes back
  weighs nothing, if the engine does not return it again.
* Mode `ordered` does not depend on that: an id that has come back is no longer asked for. The other
  mode asks for all that was ever accepted.

The results:

* `left_readWrite`     — a call that reports a change makes the rest lighter;
* `process_terminates` — both loops end, and so does `Process` if the call that may wait does.
-/

namespace HectorCore.Calls

open HectorCore.Clients (Resource Client Label)

variable {κ : Type} [DecidableEq κ] {S : Type} {h : Hooks S} {st st₁ s s' : State S} {e : Env κ}
  {changed changed' tv : Bool} {r : Round κ S} {envs rest : List (Env κ)} {ids : List Int}
  {me : Client}

-- ---------------------------------------------------------------------------
-- What is left
-- ---------------------------------------------------------------------------

/-- The weight of all that has come in and was not passed through. -/
def bound (st : State S) : Nat :=
  2 * (st.inputResources.length + st.tmpInputResource.toList.length) + st.accepted.length

/-- Without what has come back. -/
def left (st : State S) : Int := bound st - st.returned.length

/-- An accepted offer is one more. -/
theorem accepted_offer_length (b : Bool) (r : Resource) :
    (st.offer b r).accepted.length = st.accepted.length + b.toNat := by
  rw [offer_accepted]
  cases b <;> simp

/-- Each turn of the first loop takes an input or gets one through. -/
theorem left_write (hWrite : Write h (changed, s) (changed', s')) :
    Lowers left (changed, s) (changed', s') := by
  have hReturned := (write_frame hWrite).2.2
  cases hWrite with
  | @stored _ _ r b hStored =>
    have hAccepted : (s.offer b r).accepted.length = _ := accepted_offer_length b r
    have hTmp : (s.offer b r).tmpInputResource.toList.length + b.toNat = 1 :=
      stored_offer_length b r
    refine lowers_offer ?_
    unfold left bound
    rw [hReturned, offer_inputResources, hStored, Option.toList_some, List.length_singleton]
    omega
  | @offered _ _ src rest r b hNone hInput =>
    have hAccepted : (s.offer b r).accepted.length = _ := accepted_offer_length b r
    have hTmp : (s.offer b r).tmpInputResource.toList.length + b.toNat = 1 :=
      stored_offer_length b r
    have hSame : State.accepted
      { s.offer b r with inputResources := rest, taken := s.taken ++ [src] } =
        (s.offer b r).accepted := rfl
    refine lowers_offer ?_
    unfold left bound
    rw [hReturned, hSame, hInput, List.length_cons]
    dsimp only
    omega
  | @passed _ _ src rest hNone hInput =>
    have hSame : State.accepted { s with
        inputResources := rest, outputResources := s.outputResources ++ [src]
        taken := s.taken ++ [src] } = s.accepted := rfl
    refine ⟨?_, .inl⟩
    unfold left bound
    dsimp only
    rw [hSame, hInput, List.length_cons]
    omega

/-- What comes back makes the rest lighter. -/
theorem lowers_returned {out : List Resource} (hBound : bound s' = bound s)
    (hReturned : s'.returned = s.returned ++ out) :
    Lowers left (changed, s) (changed || !out.isEmpty, s') := by
  unfold Lowers left
  dsimp only
  rw [hBound, hReturned, List.length_append]
  refine ⟨by omega, fun hChanged => ?_⟩
  rw [Bool.or_eq_true, Bool.not_eq_true', List.isEmpty_eq_false_iff] at hChanged
  rcases hChanged with hOld | hSome
  · exact .inl hOld
  · have hPos := List.length_pos_iff.mpr hSome
    exact .inr (by omega)

/-- Each turn of the second one brings something back. -/
theorem left_read (hRead : Read h e tv (changed, s) (changed', s')) :
    Lowers left (changed, s) (changed', s') := by
  cases hRead with
  | idle => exact ⟨Int.le_refl _, .inl⟩
  | unordered => exact lowers_returned rfl rfl
  | ordered => exact lowers_returned rfl rfl

/-- **A call of `ReadWrite`**, in either mode. -/
theorem left_readWrite (hCall : s.readWrite h e true tv = .ok (changed, s')) :
    left s' ≤ left s ∧ (changed = true → left s' < left s) :=
  lowered_readWrite (fun _ => True) (fun _ hWrite => ⟨trivial, left_write hWrite⟩)
    (fun _ hRead => left_read hRead) trivial hCall

/-- Without new resources the weight does not grow. -/
theorem bound_round (hRound : s.round h (.readWrite e tv) = some s') : bound s' ≤ bound s := by
  obtain ⟨changed, changed₁, s₁, hWrite, hRead⟩ := round_halves hRound
  have hWritten := write_invariant (fun t => left t ≤ left s ∧ t.returned = s.returned) ?_ hWrite
    ⟨Int.le_refl _, rfl⟩
  · have hSame : bound s' = bound s₁ := by cases hRead <;> rfl
    obtain ⟨hLess, hReturned⟩ := hWritten
    unfold left at hLess
    rw [hReturned] at hLess
    omega
  · rintro changed changed' t t' ⟨hLess, hReturned⟩ hWrite
    exact ⟨Int.le_trans (left_write hWrite).1 hLess, (write_frame hWrite).2.2.trans hReturned⟩

-- ---------------------------------------------------------------------------
-- What comes back in a loop
-- ---------------------------------------------------------------------------

/-- The ids of what has come back since `st`. -/
def broughtBack (st s : State S) : List Int := (s.returned.drop st.returned.length).map Resource.id

/-- In the loop that begins in `st`, the engine returns no accepted resource more often than it has
accepted it. It tells the resources apart by their ids. -/
def ReturnsOnce (h : Hooks S) (st : State S) (envs : List (Env κ)) : Prop :=
  Lib.AllOk (State.round h) (fun s r => ∀ s', s.round h r = some s' →
    ∀ id ∈ s'.accepted.map Resource.id,
      (broughtBack st s').count id ≤ (s'.accepted.map Resource.id).count id)
    st (st.loopRounds h envs)

/-- What holds where a loop begins. -/
structure Sound (ordered : Bool) (s : State S) : Prop where
  mode : s.ordered = ordered
  counted : Counted s
  booked : Booked s

section Sound

variable {ordered : Bool}

/-- The first half of a round. -/
theorem sound_write (hSound : Sound ordered s) (hWrite : Write h (changed, s) (changed', s')) :
    Sound ordered s' :=
  ⟨(write_frame hWrite).1.trans hSound.mode, counted_write hSound.counted hWrite,
    booked_write hSound.booked hWrite⟩

/-- The second half. -/
theorem sound_read (hSound : Sound ordered s) (hRead : Read h e tv (changed, s) (changed', s')) :
    Sound ordered s' := by
  refine ⟨?_, (counted_read hSound.counted hRead).1, booked_read hSound.counted hSound.booked hRead⟩
  cases hRead <;> exact hSound.mode

theorem sound_round (hSound : Sound ordered s) (hRound : s.round h r = some s') :
    Sound ordered s' := by
  refine round_invariant (Sound ordered) ?_ (fun hSound hWrite => sound_write hSound hWrite)
    (fun _ _ _ => fun hSound hRead => sound_read hSound hRead) hSound hRound
  intro batch _ hSound
  exact ⟨hSound.mode, counted_push hSound.counted batch, ⟨hSound.booked.set, hSound.booked.vector⟩⟩

/-- It holds in every state that the calls reach. -/
theorem sound_reached {maxRequests : Int} {calls : List (Call κ S)}
    (hRun : Lib.run (State.call h) (State.new S maxRequests ordered) calls = some st) :
    Sound ordered st :=
  Lib.run_invariant (Sound ordered) (fun _ _ _ hSound hRound => sound_round hSound hRound)
    (run_rounds hRun)
    ⟨rfl, (settled_new maxRequests ordered).counted, ⟨fun _ => rfl, fun _ => rfl⟩⟩

end Sound

/-- A call without a time-out brings back what it was asked for. -/
theorem getProcessed_ids (hMe : e.getProcessed true ids false = some me) :
    ∀ id ∈ me.output.map Resource.id, id ∈ ids := by
  obtain ⟨t, b, hRun, -, rfl⟩ := getProcessed_run hMe
  intro id hMem
  rw [Clients.nonblocking_ordered_ids e.keyed hRun] at hMem
  exact List.mem_of_mem_take hMem

/-- In the mode that is not `ordered`: all that has come back since `st` had been accepted. -/
structure Since (st s : State S) : Prop where
  sound : Sound false s
  returned : st.returned <+: s.returned
  accepted : ∀ id ∈ broughtBack st s, id ∈ s.accepted.map Resource.id

theorem accepted_write (hWrite : Write h (changed, s) (changed', s')) :
    s.accepted ⊆ s'.accepted := by
  have hOffer : ∀ (b : Bool) (r : Resource), s.accepted ⊆ (s.offer b r).accepted := by
    intro b r
    rw [offer_accepted]
    cases b <;> simp
  cases hWrite with
  | stored b => exact hOffer b _
  | offered b => exact hOffer b _
  | passed => exact List.Subset.refl _

/-- What has been brought back since then was accepted. -/
theorem since_write (hSince : Since st s) (hWrite : Write h (changed, s) (changed', s')) :
    Since st s' := by
  have hReturned := (write_frame hWrite).2.2
  refine ⟨sound_write hSince.sound hWrite, hReturned ▸ hSince.returned, fun id hMem => ?_⟩
  unfold broughtBack at hMem
  rw [hReturned] at hMem
  exact List.map_subset _ (accepted_write hWrite) (hSince.accepted id hMem)

/-- What comes back now has not come back before. -/
theorem since_read (hSince : Since st s) (hRead : Read h e false (changed, s) (changed', s')) :
    Since st s' := by
  have hSound := hSince.sound
  have hSound' := sound_read hSound hRead
  cases hRead with
  | idle => exact hSince
  | unordered hBusy hMode => exact absurd (hMode.symm.trans hSound.mode) (by decide)
  | @ordered _ _ me hBusy hMode hMe =>
    refine ⟨hSound', hSince.returned.trans (List.prefix_append _ _), fun id hMem => ?_⟩
    unfold broughtBack at hMem
    rw [List.drop_append_of_le_length hSince.returned.length_le, List.map_append,
      List.mem_append] at hMem
    rcases hMem with hOld | hNew
    · exact hSince.accepted id hOld
    · have hIds := getProcessed_ids hMe id hNew
      rw [hSound.booked.vector hMode] at hIds
      exact hIds

theorem since_round (hSince : Since st s) (hRound : s.round h (.readWrite e false) = some s') :
    Since st s' := by
  refine round_invariant (Since st) (fun _ hPush => absurd hPush (by simp))
    (fun hSince hWrite => since_write hSince hWrite) ?_ hSince hRound
  rintro e tv hSame changed changed' t t' hSince hRead
  cases hSame
  exact since_read hSince hRead

/-- What has come back in the loop is no more than what was ever accepted. -/
theorem Since.length_le (hSince : Since st s)
    (hOnce : ∀ id ∈ s.accepted.map Resource.id,
      (broughtBack st s).count id ≤ (s.accepted.map Resource.id).count id) :
    s.returned.length ≤ st.returned.length + s.accepted.length := by
  have hSub : (broughtBack st s).Subperm (s.accepted.map Resource.id) :=
    List.subperm_ext_iff.mpr fun id hMem => hOnce id (hSince.accepted id hMem)
  have hLength := hSub.length_le
  unfold broughtBack at hLength
  rw [List.length_map, List.length_map, List.length_drop] at hLength
  omega

-- ---------------------------------------------------------------------------
-- The loops
-- ---------------------------------------------------------------------------

/-- What is left, counting what has come back since `st`. -/
def leftSince (st s : State S) : Nat := (left s + st.returned.length).toNat

/-- As long as no more has come back in a loop than was accepted, it goes on at most `bound`
times. -/
theorem endsWithin_bound
    (hLess : Lib.AllOk (State.round h) (fun s r => ∀ s', s.round h r = some s' →
      s'.returned.length ≤ st.returned.length + s'.accepted.length) st (st.loopRounds h envs)) :
    EndsWithin h (bound st) st envs := by
  have hStart : leftSince st st = bound st := by
    unfold leftSince left
    omega
  rw [← hStart]
  refine endsWithin_of_lowered (leftSince st)
    (Lib.AllOk.imp (fun _ => True) (fun _ _ _ _ _ _ _ => trivial)
    ?_ (fun _ hMem => mem_loopRounds hMem) trivial hLess)
  rintro s r - - hNext e s' rfl hCall
  have hLowered := (left_readWrite hCall).2 rfl
  have hLength := hNext s' (round_of_readWrite hCall)
  have hNonneg : 0 ≤ left s' + st.returned.length := by
    unfold left bound
    omega
  unfold leftSince
  omega

/-- The loops end within the bound, from any state that the calls reach. -/
theorem endsWithin_loop {ordered : Bool} (hSound : Sound ordered st)
    (hOnce : ordered = false → ReturnsOnce h st envs) : EndsWithin h (bound st) st envs := by
  refine endsWithin_bound ?_
  cases ordered with
  | true =>
    -- the set loses what comes back
    refine Lib.AllOk.of_invariant (Sound true) (fun _ _ _ hSound _ => sound_round hSound) ?_
      (fun _ hMem => mem_loopRounds hMem) hSound
    intro s r hSound _ s' hRound
    have hSound' := sound_round hSound hRound
    have hSet := hSound'.booked.set hSound'.mode
    omega
  | false =>
    have hStart : Since st st := ⟨hSound, List.prefix_refl _, by simp [broughtBack]⟩
    refine Lib.AllOk.imp (Since st) ?_ ?_ (fun _ hMem => mem_loopRounds hMem) hStart (hOnce rfl)
    · rintro s r s' hSince ⟨e, -, rfl⟩ - hRound
      exact since_round hSince hRound
    · rintro s r hSince ⟨e, -, rfl⟩ hOnce s' hRound
      exact (since_round hSince hRound).length_le (hOnce s' hRound)

/-- **`Process` terminates.** From every state that calls lead to, with whatever is in the input
queue, each of its loops calls `ReadWrite` so many times at most, however long the engine has
answers; in the mode that is not `ordered`, if the engine returns no resource again. `Process` comes
back then, if the engine calls do, and those in the loops do: after a pass for every id and one
more, which nobody can keep them from. -/
theorem process_terminates (h : Hooks S) (maxRequests : Int) (ordered : Bool)
    (calls : List (Call κ S))
    (st : State S) (envs : List (Env κ))
    (hRun : Lib.run (State.call h) (State.new S maxRequests ordered) calls = some st)
    (hOnce : ordered = false → ∀ s rest, Loops h st envs s rest → ReturnsOnce h s rest) :
    (∀ s rest, Loops h st envs s rest → (s.loopRounds h rest).length ≤ bound st + 1) ∧
    (2 * bound st + 3 ≤ envs.length →
      (∃ n expecting st', st.process h envs = .ok (n, expecting, st')) ∨
        st.process h envs = .error .waits) ∧
    ∀ (e : Env κ) (which : Bool) (ids : List Int) (labels : List (Label κ)) (t : Clients.State κ),
      Lib.run Clients.step (e.engine.entered e.caller which ids false) labels = some t →
        (∃ b, (t.client e.caller).pc = .returned b) ∧
            labels.countP (·.isScan e.caller) ≤ ids.length + 1 ∨
          (Clients.step t (.scan e.caller)).isSome ∧
            labels.countP (·.isScan e.caller) ≤ ids.length := by
  have hEnds : ∀ s rest, Loops h st envs s rest → EndsWithin h (bound st) s rest := by
    intro s rest hLoops
    have hStart := loops_invariant (fun s => Sound ordered s ∧ bound s ≤ bound st) ?_
      ⟨sound_reached hRun, Nat.le_refl _⟩ hLoops
    · exact (endsWithin_loop hStart.1 fun hMode => hOnce hMode s rest hLoops).mono hStart.2
    · rintro e tv s s' ⟨hSound, hLess⟩ hRound
      exact ⟨sound_round hSound hRound, Nat.le_trans (bound_round hRound) hLess⟩
  refine ⟨fun s rest hLoops => (hEnds s rest hLoops).rounds, process_comes_back hEnds, ?_⟩
  intro e which ids labels t hRun
  exact Clients.nonblocking_comes_back e.roles e.free e.outside hRun

/-- The engine does nothing in the loops, and finishes the resource in the call that may wait. -/
def answering : List (Env Unit) :=
  .alone (fun _ => true) [] 1 :: .alone (fun _ => true) [] 1 :: .alone (fun _ => true) [⟨7, 7⟩] 2 ::
    List.replicate 4 (.alone (fun _ => true) [] 1)

def acceptedSeven : State Nat :=
  { State.new Nat 1 false with
    running := 1, runningVector := [7], taken := [7], offers := [⟨⟨7, 7⟩, true, false⟩] }

def returnedSeven : State Nat := { acceptedSeven with outputResources := [7], returned := [⟨7, 7⟩] }

/-- One resource, and an engine that finishes it. -/
theorem process_terminates_seven :
    (∀ s rest, Loops copying ((State.new Nat 1 false).push [7]) answering s rest →
      (s.loopRounds copying rest).length ≤ 3) ∧
    ((State.new Nat 1 false).push [7]).process copying answering = .ok (1, 0, returnedSeven) := by
  have hLoop : ((State.new Nat 1 false).push [7]).readWriteLoop copying answering =
      .ok (acceptedSeven, answering.drop 2) := rfl
  have hCall : acceptedSeven.readWrite copying (.alone (fun _ => true) [⟨7, 7⟩] 2) true true =
      .ok (true, returnedSeven) := rfl
  have hOnce : ∀ s rest, Loops copying ((State.new Nat 1 false).push [7]) answering s rest →
      ReturnsOnce copying s rest := by
    intro s rest hLoops
    cases hLoops with
    | first =>
      have hFirst : ((State.new Nat 1 false).push [7]).round copying
          (.readWrite (.alone (fun _ => true) [] 1) false) = some acceptedSeven := rfl
      have hSecond : acceptedSeven.round copying
          (.readWrite (.alone (fun _ => true) [] 1) false) = some acceptedSeven := rfl
      refine ⟨fun s' hRound => ?_, fun t hRound => ⟨fun s' hRound' => ?_, fun _ _ => trivial⟩⟩
      · cases hFirst.symm.trans hRound
        decide
      · cases hFirst.symm.trans hRound
        cases hSecond.symm.trans hRound'
        decide
    | second hLoop' hBusy hCall' =>
      cases hLoop.symm.trans hLoop'
      cases hCall.symm.trans hCall'
      have hLast : returnedSeven.round copying
          (.readWrite (.alone (fun _ => true) [] 1) false) = some returnedSeven := rfl
      refine ⟨fun s' hRound => ?_, fun _ _ => trivial⟩
      cases hLast.symm.trans hRound
      decide
  exact ⟨(process_terminates copying 1 false [.round (.push [7])] _ answering rfl fun _ =>
    hOnce).1, rfl⟩

end HectorCore.Calls
