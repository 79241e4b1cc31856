import HectorCore.Calls.Ledger
import Mathlib.Data.List.Perm.Subperm

/-!
# Partition — where a resource is that has come in

Mode `ordered`, any sequence of calls of `ReadWrite` and `Process`. Every resource that has come in
is in exactly one place: in `inputResources`, behind `tmpInputResource`, behind an id of
`runningSet`, or in `outputResources`.

Assumptions: the ids are distinct, `FinishResource` gives back what `PrepareResource` was called
with, and the called engine is `Honest`: what it hands over under the id of a resource is this
resource.

* `accounts_run`     — the accounts after every sequence of rounds;
* `work_partitioned` — the partition, and the bounds of what `Process` reports.
-/

namespace HectorCore.Calls

open HectorCore.Clients (Resource Client Label)

variable {κ : Type} [DecidableEq κ] {S : Type} {h : Hooks S} {st st' : State S} {e : Env κ}
  {changed changed' tv : Bool} {r : Round κ S} {rounds : List (Round κ S)} {calls : List (Call κ S)}
  {all : List S} {me : Client}

-- ---------------------------------------------------------------------------
-- The called engine
-- ---------------------------------------------------------------------------

/-- Under the id of a resource that has come in, it is this resource. -/
def Mine (h : Hooks S) (all : List S) (r : Resource) : Prop :=
  ∀ src ∈ all, ∀ a, h.prepareResource src = some a → a.id = r.id → a = r

/-- The engine hands over what was put into it. -/
structure Honest (h : Hooks S) (all : List S) (e : Env κ) : Prop where
  engine : Clients.Supplies (Mine h all) e.engine
  arrivals : ∀ r, Label.arrive r ∈ e.labels → Mine h all r

/-- What an honest engine returns belongs to the ids it is returned under. -/
theorem getProcessed_mine {ordered : Bool} {ids : List Int} (hHonest : Honest h all e)
    (hMe : e.getProcessed ordered ids tv = some me) : ∀ r ∈ me.output, Mine h all r := by
  obtain ⟨s, b, hRun, -, rfl⟩ := getProcessed_run hMe
  exact Clients.output_supplied hHonest.engine hHonest.arrivals hRun

/-- What has been submitted was prepared from something that has come in. -/
theorem prepared_of_submitted {a : Resource} (hHistories : Histories h st)
    (hKnown : st.taken ++ st.inputResources ⊆ all) (ha : a ∈ st.submitted) :
    ∃ src ∈ all, h.prepareResource src = some a := by
  rw [hHistories.submitted] at ha
  obtain ⟨src, hSrc, hPrepare⟩ := List.mem_filterMap.mp ha
  exact ⟨src, hKnown (List.mem_append_left _ hSrc), hPrepare⟩

/-- What is handed over is what was offered under its id. -/
theorem eq_of_mine {a r : Resource} (hHistories : Histories h st)
    (hKnown : st.taken ++ st.inputResources ⊆ all) (hMine : Mine h all r) (ha : a ∈ st.submitted)
    (hSame : a.id = r.id) : a = r := by
  obtain ⟨src, hSrc, hPrepare⟩ := prepared_of_submitted hHistories hKnown ha
  exact hMine src hSrc a hPrepare hSame

/-- An engine with a single client and nothing under wrong ids is honest. -/
theorem honest_alone {accepts : Nat → Bool} {finished : List Resource} {scans : Nat}
    (hMine : ∀ r ∈ finished, Mine h all r) : Honest h all (Env.alone accepts finished scans) where
  engine :=
    { finished := fun _ r hFound => hMine r (List.mem_of_find?_eq_some hFound)
      queue := fun r hr => absurd hr List.not_mem_nil
      held := fun _ r hHeld => absurd hHeld
        (by simp [Env.alone, Clients.initial, Client.new, Clients.Pc.held]) }
  arrivals := by
    intro r hMem
    exact absurd (List.eq_of_mem_replicate hMem) (by simp)

-- ---------------------------------------------------------------------------
-- What the calls bring
-- ---------------------------------------------------------------------------

namespace Call

def given : Call κ S → List S
  | .round (.push batch) => batch
  | .round (.readWrite _ _) => []
  | .process _ => []

def envs : Call κ S → List (Env κ)
  | .round (.push _) => []
  | .round (.readWrite e _) => [e]
  | .process envs => envs

end Call

theorem given_append (rounds rounds' : List (Round κ S)) :
    given (rounds ++ rounds') = given rounds ++ given rounds' :=
  List.flatMap_append

/-- `Process` brings no new input. -/
theorem given_processRounds (h : Hooks S) (envs : List (Env κ)) (st : State S) :
    given (st.processRounds h envs) = [] := by
  refine List.flatMap_eq_nil_iff.mpr fun r hMem => ?_
  obtain ⟨e, -, tv, rfl⟩ := mem_processRounds hMem
  rfl

/-- The rounds of a run bring what its calls bring. -/
theorem given_rounds (hRun : Lib.run (State.call h) st calls = some st') :
    given (st.rounds h calls) = calls.flatMap Call.given := by
  induction calls generalizing st with
  | nil => rfl
  | cons c calls ih =>
    obtain ⟨st₁, hFirst, hRest⟩ := Lib.run_cons_eq_some.mp hRun
    unfold State.rounds
    rw [hFirst, given_append, ih hRest, List.flatMap_cons]
    congr 1
    cases c with
    | round r => cases r <;> simp [given, Call.given]
    | process envs => exact given_processRounds h envs st

/-- Every engine call of a round comes from one of the calls. -/
theorem mem_rounds (hMem : .readWrite e tv ∈ st.rounds h calls) : ∃ c ∈ calls, e ∈ c.envs := by
  induction calls generalizing st with
  | nil => exact absurd hMem (by simp [State.rounds])
  | cons c calls ih =>
    unfold State.rounds at hMem
    rcases List.mem_append.mp hMem with hHere | hLater
    · refine ⟨c, List.mem_cons_self, ?_⟩
      cases c with
      | round r =>
        rw [← List.mem_singleton.mp hHere]
        exact List.mem_singleton_self e
      | process envs =>
        obtain ⟨e', hEnv, tv', hSame⟩ := mem_processRounds hHere
        cases hSame
        exact hEnv
    · split at hLater
      · exact absurd hLater (by simp)
      · obtain ⟨c', hCall, hEnv⟩ := ih hLater
        exact ⟨c', List.mem_cons_of_mem _ hCall, hEnv⟩

-- ---------------------------------------------------------------------------
-- The accounts
-- ---------------------------------------------------------------------------

/-- `run` are the resources behind `runningSet`. -/
structure Accounts (h : Hooks S) (all : List S) (st : State S) : Prop where
  mode : st.ordered = true
  counted : Counted st
  histories : Histories h st
  known : st.taken ++ st.inputResources <+: all
  running : ∃ run, st.accepted.Perm (run ++ st.returned) ∧ (run.map Resource.id).Perm st.runningSet
  output : st.outputResources.Perm
    (st.taken.filter (fun src => (h.prepareResource src).isNone) ++
      st.returned.map h.finishResource)

/-- What has been submitted, or is stored, comes from `all`. -/
theorem Accounts.submitted (hAccounts : Accounts h all st) :
    st.submitted.Sublist (all.filterMap h.prepareResource) := by
  rw [hAccounts.histories.submitted]
  exact ((List.sublist_append_left _ _).trans hAccounts.known.sublist).filterMap _

/-- A resource is offered whose id is not running. -/
theorem running_offer (b : Bool) {r : Resource} (hMode : st.ordered = true)
    (hDistinct : ((st.accepted ++ [r]).map Resource.id).Nodup)
    (hRunning : ∃ run, st.accepted.Perm (run ++ st.returned) ∧
      (run.map Resource.id).Perm st.runningSet) :
    ∃ run, (st.offer b r).accepted.Perm (run ++ st.returned) ∧
      (run.map Resource.id).Perm (st.offer b r).runningSet := by
  obtain ⟨run, hAccepted, hIds⟩ := hRunning
  rw [List.map_append, List.nodup_append] at hDistinct
  -- its id belongs to no other accepted resource, so `runningSet` really grows by it
  have hFresh : r.id ∉ st.runningSet := by
    intro hMem
    obtain ⟨a, ha, hSame⟩ := List.mem_map.mp (hIds.mem_iff.mpr hMem)
    have hIn : a ∈ st.accepted := hAccepted.mem_iff.mpr (List.mem_append_left _ ha)
    exact hDistinct.2.2 _ (List.mem_map_of_mem hIn) _ (List.mem_singleton_self _) hSame
  rw [offer_accepted, offer_runningSet, hMode]
  cases b with
  | false => exact ⟨run, by simpa using hAccepted, by simpa using hIds⟩
  | true =>
    refine ⟨run ++ [r], ?_, ?_⟩
    · rw [if_pos rfl]
      refine (hAccepted.append_right _).trans ?_
      rw [List.append_assoc, List.append_assoc]
      exact List.perm_append_comm.append_left run
    · simpa [hFresh] using hIds.append_right [r.id]

/-- What is taken goes behind `tmpInputResource`, behind `runningSet`, or straight to the output. -/
theorem accounts_write (hDistinct : ((all.filterMap h.prepareResource).map Resource.id).Nodup)
    (hAccounts : Accounts h all st) (hWrite : Write h (changed, st) (changed', st')) :
    Accounts h all st' := by
  have hCounted := counted_write hAccounts.counted hWrite
  have hHistories := histories_write hAccounts.histories hWrite
  have hKnown : st'.taken ++ st'.inputResources <+: all := by
    rw [taken_append_write hWrite]
    exact hAccounts.known
  have hSubmitted := hAccounts.histories.submitted
  cases hWrite with
  | @stored _ _ r b hStored =>
    have hIds := hAccounts.submitted.map Resource.id
    rw [State.submitted, hStored, Option.toList_some] at hIds
    refine ⟨by rw [offer_ordered, hAccounts.mode], hCounted, hHistories, hKnown, ?_, ?_⟩
    · rw [offer_returned]
      exact running_offer b hAccounts.mode (hIds.nodup hDistinct) hAccounts.running
    · rw [offer_outputResources, offer_taken, offer_returned]
      exact hAccounts.output
  | @offered _ _ src rest r b hNone hInput hRoom hPrepare =>
    rw [State.submitted, hNone, Option.toList_none, List.append_nil] at hSubmitted
    have hIds : (st.accepted ++ [r]).Sublist (all.filterMap h.prepareResource) := by
      have hTaken := ((List.sublist_append_left _ _).trans hKnown.sublist).filterMap
        h.prepareResource
      rw [List.filterMap_append, ← hSubmitted] at hTaken
      simpa [hPrepare] using hTaken
    refine ⟨by simpa using hAccounts.mode, hCounted, hHistories, hKnown, ?_, ?_⟩
    · show ∃ run, (st.offer b r).accepted.Perm (run ++ (st.offer b r).returned) ∧ _
      rw [offer_returned]
      exact running_offer b hAccounts.mode ((hIds.map Resource.id).nodup hDistinct)
        hAccounts.running
    · dsimp only
      rw [offer_outputResources, offer_returned, List.filter_append]
      simpa [hPrepare] using hAccounts.output
  | @passed _ _ src rest hNone hInput hPrepare =>
    refine ⟨hAccounts.mode, hCounted, hHistories, hKnown, hAccounts.running, ?_⟩
    dsimp only
    -- `PrepareResource` wants nothing of it, and it goes to the output at once
    have hLast : [src].filter (fun src => (h.prepareResource src).isNone) = [src] := by
      simp [hPrepare]
    rw [List.filter_append, hLast]
    refine (hAccounts.output.append_right _).trans ?_
    rw [List.append_assoc, List.append_assoc]
    exact List.perm_append_comm.append_left _

/-- The resources that are handed over are among those behind `runningSet`. -/
theorem output_subset {run out : List Resource} {ids : List Int} (hAccounts : Accounts h all st)
    (hAccepted : st.accepted.Perm (run ++ st.returned))
    (hIds : (run.map Resource.id).Perm st.runningSet)
    (hPerm : (ids ++ out.map Resource.id).Perm st.runningSet) (hMine : ∀ r ∈ out, Mine h all r) :
    out ⊆ run := by
  intro r hr
  have hRunning : r.id ∈ st.runningSet :=
    hPerm.subset (List.mem_append_right _ (List.mem_map_of_mem hr))
  obtain ⟨a, ha, hSame⟩ := List.mem_map.mp (hIds.mem_iff.mpr hRunning)
  have hIn : a ∈ st.submitted :=
    List.mem_append_left _ (hAccepted.mem_iff.mpr (List.mem_append_left _ ha))
  rw [← eq_of_mine hAccounts.histories hAccounts.known.subset (hMine r hr) hIn hSame]
  exact ha

/-- What the engine returns goes from behind `runningSet` to the output. -/
theorem accounts_read (hHonest : Honest h all e) (hAccounts : Accounts h all st)
    (hRead : Read h e tv (changed, st) (changed', st')) : Accounts h all st' := by
  have hCounted := (counted_read hAccounts.counted hRead).1
  have hHistories := histories_read hAccounts.histories hRead
  cases hRead with
  | idle => exact hAccounts
  | @unordered _ _ me hBusy hMode hMe =>
    have hPerm := getProcessed_perm hAccounts.counted.nodup hMe
    have hNodup := (List.nodup_append.mp (hPerm.nodup_iff.mpr hAccounts.counted.nodup)).2.1
    obtain ⟨run, hAccepted, hIds⟩ := hAccounts.running
    have hSubset := output_subset hAccounts hAccepted hIds hPerm (getProcessed_mine hHonest hMe)
    -- the output is taken out of `run`
    obtain ⟨out, hOut, hSublist⟩ := List.subperm_of_subset hNodup.of_map hSubset
    obtain ⟨rest, hRest⟩ := hSublist.exists_perm_append
    have hRun : run.Perm (me.output ++ rest) := hRest.trans (hOut.append_right rest)
    refine ⟨hMode, hCounted, hHistories, hAccounts.known, ⟨rest, ?_, ?_⟩, ?_⟩
    · refine hAccepted.trans ((hRun.append_right _).trans ?_)
      rw [List.append_assoc]
      exact List.perm_append_comm.trans (by rw [List.append_assoc])
    · have hSame := (hRun.map Resource.id).symm.trans (hIds.trans hPerm.symm)
      rw [List.map_append] at hSame
      exact (List.perm_append_left_iff _).mp (hSame.trans List.perm_append_comm)
    · dsimp only
      rw [List.map_append, ← List.append_assoc]
      exact hAccounts.output.append_right _
  | ordered hBusy hOther => exact absurd (hAccounts.mode.symm.trans hOther) (by decide)

/-- In a new object there is nothing to account for. -/
theorem accounts_new (maxRequests : Int) : Accounts h all (State.new S maxRequests true) :=
  ⟨rfl, (settled_new maxRequests true).counted, histories_new maxRequests true, List.nil_prefix,
    ⟨[], by simp [State.new, State.accepted]⟩, by simp [State.new]⟩

/-- **The accounts after every sequence of rounds.** -/
theorem accounts_run (hDistinct : ((all.filterMap h.prepareResource).map Resource.id).Nodup)
    (hKnown : st.taken ++ st.inputResources ++ given rounds <+: all)
    (hHonest : ∀ e tv, .readWrite e tv ∈ rounds → Honest h all e) (hAccounts : Accounts h all st)
    (hRun : Lib.run (State.round h) st rounds = some st') : Accounts h all st' := by
  induction rounds generalizing st with
  | nil =>
    cases Option.some.inj hRun
    exact hAccounts
  | cons r rounds ih =>
    obtain ⟨st₁, hFirst, hRest⟩ := Lib.run_cons_eq_some.mp hRun
    have hTaken := taken_append_run (Lib.run_cons_eq_some.mpr ⟨st₁, hFirst, Lib.run_nil st₁⟩)
    have hKnown₁ : st₁.taken ++ st₁.inputResources ++ given rounds <+: all := by
      rw [hTaken, List.append_assoc, ← given_append]
      exact hKnown
    refine ih hKnown₁ (fun e tv hMem => hHonest e tv (List.mem_cons_of_mem _ hMem)) ?_ hRest
    cases r with
    | push batch =>
      cases Option.some.inj hFirst
      exact ⟨hAccounts.mode, counted_push hAccounts.counted batch,
        histories_push hAccounts.histories batch, (List.prefix_append _ _).trans hKnown₁,
        hAccounts.running, hAccounts.output⟩
    | readWrite e tv =>
      obtain ⟨changed, changed₁, st₂, hWrite, hRead⟩ := round_halves hFirst
      exact accounts_read (hHonest e tv List.mem_cons_self)
        (write_invariant (Accounts h all) (accounts_write hDistinct) hWrite hAccounts) hRead

-- ---------------------------------------------------------------------------
-- The partition
-- ---------------------------------------------------------------------------

/-- The resources behind the ids of `runningSet`. -/
def State.behind (st : State S) : List Resource :=
  st.accepted.filter fun r => decide (r.id ∈ st.runningSet)

theorem behind_perm {run : List Resource}
    (hDistinct : (st.accepted.map Resource.id).Nodup)
    (hAccepted : st.accepted.Perm (run ++ st.returned))
    (hIds : (run.map Resource.id).Perm st.runningSet) : st.behind.Perm run := by
  have hNodup := (hAccepted.map Resource.id).nodup_iff.mp hDistinct
  rw [List.map_append, List.nodup_append] at hNodup
  have hRun : run.filter (fun r => decide (r.id ∈ st.runningSet)) = run := by
    refine List.filter_eq_self.mpr fun r hr => ?_
    exact decide_eq_true (hIds.subset (List.mem_map_of_mem hr))
  -- an id that still runs and one that was returned belong to different resources
  have hReturned : st.returned.filter (fun r => decide (r.id ∈ st.runningSet)) = [] := by
    refine List.filter_eq_nil_iff.mpr fun r hr hIn => ?_
    have hMem := hIds.mem_iff.mpr (of_decide_eq_true hIn)
    exact hNodup.2.2 _ hMem _ (List.mem_map_of_mem hr) rfl
  have hFilter := hAccepted.filter fun r => decide (r.id ∈ st.runningSet)
  rw [List.filter_append, hRun, hReturned, List.append_nil] at hFilter
  exact hFilter

/-- What was taken: what `PrepareResource` did not accept, and what `FinishResource` gives back. -/
theorem perm_prepared {taken : List S}
    (hFinish : ∀ src ∈ taken, ∀ a, h.prepareResource src = some a → h.finishResource a = src) :
    taken.Perm (taken.filter (fun src => (h.prepareResource src).isNone) ++
      (taken.filterMap h.prepareResource).map h.finishResource) := by
  induction taken with
  | nil => exact List.Perm.refl _
  | cons src taken ih =>
    have hRest := ih fun src hMem => hFinish src (List.mem_cons_of_mem _ hMem)
    cases hPrepare : h.prepareResource src with
    | none => simpa [hPrepare] using hRest
    | some a =>
      rw [List.filterMap_cons, hPrepare, List.map_cons, hFinish src List.mem_cons_self a hPrepare]
      simpa [hPrepare] using (hRest.cons src).trans List.perm_middle.symm

/-- The accounts, read as a partition of what has come in. -/
theorem partition_of_accounts
    (hDistinct : ((all.filterMap h.prepareResource).map Resource.id).Nodup)
    (hFinish : ∀ src ∈ all, ∀ a, h.prepareResource src = some a → h.finishResource a = src)
    (hAccounts : Accounts h all st) :
    (st.inputResources ++ (st.tmpInputResource.toList.map h.finishResource ++
        (st.behind.map h.finishResource ++ st.outputResources))).Perm
        (st.taken ++ st.inputResources) ∧
      (st.behind.map Resource.id).Perm st.runningSet := by
  obtain ⟨run, hAccepted, hIds⟩ := hAccounts.running
  have hNodup : (st.accepted.map Resource.id).Nodup :=
    (((List.sublist_append_left _ _).trans hAccounts.submitted).map Resource.id).nodup hDistinct
  have hBehind := behind_perm hNodup hAccepted hIds
  refine ⟨?_, (hBehind.map _).trans hIds⟩
  have hTaken : st.taken.Perm _ := perm_prepared (h := h) fun src hMem =>
    hFinish src (hAccounts.known.subset (List.mem_append_left _ hMem))
  rw [← hAccounts.histories.submitted, State.submitted, List.map_append] at hTaken
  refine List.Perm.trans ?_ (List.perm_append_comm.trans (hTaken.symm.append_right _))
  refine List.Perm.append_left _ ?_
  -- the stored resource to the end, and those that were passed on to the front
  refine List.perm_append_comm.trans ?_
  rw [← List.append_assoc]
  refine List.Perm.append_right _ ?_
  refine ((hBehind.map _).append hAccounts.output).trans
    (List.perm_append_comm_assoc _ _ _ |>.trans ?_)
  rw [← List.map_append]
  exact (hAccepted.symm.map _).append_left _

/-- **Nothing is lost, and nothing is there twice.** -/
theorem work_partitioned (h : Hooks S) (maxRequests : Int) (calls : List (Call κ S)) (st : State S)
    (hMax : 0 < maxRequests)
    (hRun : Lib.run (State.call h) (State.new S maxRequests true) calls = some st)
    (hDistinct : (((calls.flatMap Call.given).filterMap h.prepareResource).map Resource.id).Nodup)
    (hFinish : ∀ src ∈ calls.flatMap Call.given, ∀ a, h.prepareResource src = some a →
      h.finishResource a = src)
    (hHonest : ∀ c ∈ calls, ∀ e ∈ c.envs, Honest h (calls.flatMap Call.given) e) :
    (st.inputResources ++ (st.tmpInputResource.toList.map h.finishResource ++
        (st.behind.map h.finishResource ++ st.outputResources))).Perm (calls.flatMap Call.given) ∧
      (st.behind.map Resource.id).Perm st.runningSet ∧
      (st.tmpInputResource ≠ none → st.running < st.maxRequests) ∧
      ∀ (envs : List (Env κ)) n expecting st', st.process h envs = .ok (n, expecting, st') →
        0 ≤ expecting := by
  have hRounds := run_rounds hRun
  have hGiven := given_rounds hRun
  have hTaken := taken_append_run hRounds
  have hAccounts : Accounts h (calls.flatMap Call.given) st := by
    -- every engine call of the run is one of the given calls, so it is honest
    refine accounts_run hDistinct ?_ ?_ (accounts_new maxRequests) hRounds
    · rw [hGiven]
      exact List.prefix_refl _
    · intro e tv hMem
      obtain ⟨c, hCall, hEnv⟩ := mem_rounds hMem
      exact hHonest c hCall e hEnv
  obtain ⟨hPartition, hIds⟩ := partition_of_accounts hDistinct hFinish hAccounts
  have hWithin : ∀ {rounds : List (Round κ S)} {st st' : State S}, Settled st ∧ Within st →
      Lib.run (State.round h) st rounds = some st' → Settled st' ∧ Within st' := by
    intro rounds st st' hStart hRun
    refine Lib.run_invariant (fun s => Settled s ∧ Within s) ?_ hRun hStart
    rintro s r s' ⟨hSettled, hWithin⟩ hRound
    exact ⟨settled_round hSettled hRound, within_round hSettled hWithin hRound⟩
  have hStart : Within (State.new S maxRequests true) :=
    ⟨Int.le_refl _, Int.le_of_lt hMax, fun hStored => absurd rfl hStored⟩
  obtain ⟨hSettled, hBounds⟩ := hWithin ⟨settled_new maxRequests true, hStart⟩ hRounds
  refine ⟨?_, hIds, hBounds.stored, ?_⟩
  · rw [hGiven] at hTaken
    exact hPartition.trans (List.Perm.of_eq hTaken)
  · intro envs n expecting st' hCall
    obtain ⟨-, hExpecting, hProcess⟩ := process_result hCall
    -- the bounds hold after the rounds of this `Process`, too, and it reports what is left of them
    obtain ⟨-, hBounds'⟩ := hWithin ⟨hSettled, hBounds⟩ hProcess
    have hRoom := hBounds'.room
    have hStored := hBounds'.stored
    rw [hExpecting, State.parked]
    cases hTmp : st'.tmpInputResource with
    | none => simpa using hRoom
    | some r =>
      have hLess := hStored (by rw [hTmp]; simp)
      simp only [Option.isSome_some, if_true]
      omega

/-- Four resources: the engine accepts two, refuses the third and has finished the first. -/
def dividing : List (Call Unit Nat) :=
  [.round (.push [7, 8, 9, 10]),
    .round (.readWrite (.alone (fun k => decide (k < 2)) [⟨7, 7⟩] 3) false)]

def divided : State Nat :=
  { State.new Nat 3 true with
    tmpInputResource := some ⟨9, 9⟩, running := 1, runningSet := [8], inputResources := [10]
    outputResources := [7], taken := [7, 8, 9], returned := [⟨7, 7⟩]
    offers := [⟨⟨7, 7⟩, true, false⟩, ⟨⟨8, 8⟩, true, false⟩, ⟨⟨9, 9⟩, false, false⟩] }

theorem honest_dividing :
    ∀ c ∈ dividing, ∀ e ∈ c.envs, Honest copying (dividing.flatMap Call.given) e := by
  intro c hCall e hEnv
  have hMine : ∀ r ∈ [(⟨7, 7⟩ : Resource)], Mine copying (dividing.flatMap Call.given) r := by
    intro r hr src _ a hPrepare hSame
    cases List.mem_singleton.mp hr
    cases Option.some.inj hPrepare
    have hSeven : src = 7 := Int.ofNat.inj hSame
    rw [hSeven]
    rfl
  simp only [dividing, List.mem_cons, List.not_mem_nil, or_false] at hCall
  rcases hCall with rfl | rfl
  · exact absurd hEnv (by simp [Call.envs])
  · rw [List.mem_singleton.mp hEnv]
    exact honest_alone hMine

theorem work_partitioned_four :
    Lib.run (State.call copying) (State.new Nat 3 true) dividing = some divided ∧
      (divided.inputResources ++ (divided.tmpInputResource.toList.map copying.finishResource ++
        (divided.behind.map copying.finishResource ++ divided.outputResources))).Perm
          [7, 8, 9, 10] := by
  have hRun : Lib.run (State.call copying) (State.new Nat 3 true) dividing = some divided := rfl
  refine ⟨hRun, (work_partitioned copying 3 dividing divided (by decide) hRun (by decide) ?_
    honest_dividing).1⟩
  rintro src - a hPrepare
  cases Option.some.inj hPrepare
  rfl

end HectorCore.Calls
