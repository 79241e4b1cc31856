import HectorCore.Calls.Partition
import HectorCore.Clients.Deliveries
import HectorCore.Lib.Sublists

/-!
# Order — the order of the finished resources

`CallProcessingEngine`, created with `ordered`: "whether we should keep resource order". In this
mode the ids are in a set and the results are fetched by `GetProcessedResources`, which hands over
whatever its iterator finds finished and whatever comes out of the output queue. The object puts it
into `outputResources` as it comes.

* `InTurn`            — in no step does the called engine deliver a resource that has been
  overtaken: one that was offered in front of a resource that has been handed over already;
* `fifo_round_iff`    — so it hands over in the order of the offers, in this call of `ReadWrite`;
* `inOrder_of_fifo`   — then the output is in the order in which the resources were taken;
* `keeps_order_iff`   — and otherwise it is not.
-/

namespace HectorCore.Calls

open HectorCore.Clients (Resource Client Label)

variable {κ : Type} [DecidableEq κ] {S : Type} {h : Hooks S} {st st' : State S} {e : Env κ}
  {changed changed' tv : Bool} {r : Round κ S} {rounds : List (Round κ S)} {all : List S}

/-- What is finished is in the output in the order in which it was taken. -/
def InOrder (h : Hooks S) (st : State S) : Prop :=
  (st.returned.map h.finishResource).Sublist st.outputResources ∧
    (st.returned.map h.finishResource).Sublist
      (st.taken.filterMap fun src => (h.prepareResource src).map h.finishResource)

/-- The engine has handed over the resources in the order in which they were offered. -/
def Fifo (st : State S) : Prop :=
  (st.returned.map Resource.id).Sublist (st.submitted.map Resource.id)

/-- The step delivers nothing to `caller`, or a resource that was offered behind those that have
been handed over: `before` in earlier calls, and those in the output of this one. -/
def NotOvertaken (submitted before : List Int) (caller : κ) (s : Clients.State κ) (l : Label κ) :
    Prop :=
  ∀ r ∈ s.delivers caller l,
    r.id ∈ Lib.ahead (before ++ (s.client caller).output.map Resource.id) submitted

instance (submitted before : List Int) (caller : κ) (s : Clients.State κ) (l : Label κ) :
    Decidable (NotOvertaken submitted before caller s l) :=
  inferInstanceAs (Decidable (∀ r ∈ s.delivers caller l,
    r.id ∈ Lib.ahead (before ++ (s.client caller).output.map Resource.id) submitted))

/-- In the call of the engine no resource is delivered that has been overtaken. -/
def Env.InTurn (e : Env κ) (st : State S) (tv : Bool) : Prop :=
  Lib.AllOk Clients.step
    (NotOvertaken (st.submitted.map Resource.id) (st.returned.map Resource.id) e.caller)
    (e.engine.entered e.caller false (e.order st.runningSet) tv) e.labels

/-- This is so for the next call of `ReadWrite`, if it calls the engine at all. -/
def InTurn (h : Hooks S) (st : State S) : Round κ S → Prop
  | .push _ => True
  | .readWrite e tv => ∀ changed st₁, st.write h e.accepts true = .ok (changed, st₁) →
      st₁.running ≠ 0 → e.InTurn st₁ tv

-- ---------------------------------------------------------------------------
-- The order of the engine
-- ---------------------------------------------------------------------------

/-- What is submitted is only added to. -/
theorem submitted_write (hHistories : Histories h st)
    (hWrite : Write h (changed, st) (changed', st')) :
    st.submitted <+: st'.submitted := by
  have hHistories' := histories_write hHistories hWrite
  rw [hHistories.submitted, hHistories'.submitted]
  cases hWrite with
  | stored b => exact ⟨[], by rw [offer_taken, List.append_nil]⟩
  | offered b =>
    rw [List.filterMap_append]
    exact List.prefix_append _ _
  | passed =>
    rw [List.filterMap_append]
    exact List.prefix_append _ _

/-- One step of the engine. -/
theorem delivered_iff {submitted before : List Int} {caller : κ} {s s' : Clients.State κ}
    {l : Label κ} (hMode : (s.client caller).ordered = false) (hStep : Clients.step s l = some s') :
    (before ++ (s'.client caller).output.map Resource.id).Sublist submitted ↔
      (before ++ (s.client caller).output.map Resource.id).Sublist submitted ∧
        NotOvertaken submitted before caller s l := by
  rw [Clients.output_step hMode hStep, NotOvertaken, List.map_append, ← List.append_assoc]
  cases s.delivers caller l with
  | none => simp
  | some r =>
    constructor
    · intro hAfter
      have hPrefix := (List.sublist_append_left _ _).trans hAfter
      refine ⟨hPrefix, fun r' hSame => ?_⟩
      cases hSame
      exact (Lib.append_sublist_iff_ahead hPrefix).mp hAfter
    · rintro ⟨hPrefix, hNext⟩
      exact (Lib.append_sublist_iff_ahead hPrefix).mpr (hNext r rfl)

/-- **The called engine** hands over in the order of the offers if and only if no step delivers a
resource that has been overtaken. -/
theorem sublist_iff_inTurn {me : Client}
    (hBefore : (st.returned.map Resource.id).Sublist (st.submitted.map Resource.id))
    (hMe : e.getProcessed false (e.order st.runningSet) tv = some me) :
    ((st.returned ++ me.output).map Resource.id).Sublist (st.submitted.map Resource.id) ↔
      e.InTurn st tv := by
  obtain ⟨s, b, hRun, -, rfl⟩ := getProcessed_run hMe
  have hMode : ((e.engine.entered e.caller false (e.order st.runningSet) tv).client
    e.caller).ordered =
      false := by
    rw [Clients.entered_client]
    rfl
  unfold Env.InTurn
  rw [List.map_append]
  refine (Lib.run_iff_allOk (fun s => (s.client e.caller).ordered = false)
    (fun _ _ _ => Clients.unordered_step) (fun _ _ _ => delivered_iff) hRun hMode).trans
    (and_iff_right ?_)
  rw [Clients.entered_client]
  simpa [Client.new] using hBefore

/-- One round: the order is kept if and only if the engine call is in turn. -/
theorem fifo_round_iff (hMode : st.ordered = true) (hHistories : Histories h st) (hFifo : Fifo st)
    (hRound : st.round h r = some st') : Fifo st' ↔ InTurn h st r := by
  cases r with
  | push batch =>
    cases Option.some.inj hRound
    exact iff_of_true hFifo trivial
  | readWrite e tv =>
    obtain ⟨changed, changed₁, st₁, hWrite, hRead⟩ := round_halves hRound
    have hStep := write_invariant
      (fun s => s.ordered = true ∧ s.returned = st.returned ∧ Histories h s ∧
        st.submitted <+: s.submitted)
      ?_ hWrite ⟨hMode, rfl, hHistories, List.prefix_refl _⟩
    · obtain ⟨hMode₁, hReturned, -, hPrefix⟩ := hStep
      cases hRead with
      | idle hIdle =>
        refine iff_of_true ?_ ?_
        · unfold Fifo
          rw [hReturned]
          exact hFifo.trans (hPrefix.sublist.map _)
        · intro changed st₂ hWrite₂ hBusy
          cases hWrite.symm.trans hWrite₂
          exact absurd hIdle hBusy
      | @unordered _ _ me hBusy _ hMe =>
        have hBefore : (st₁.returned.map Resource.id).Sublist (st₁.submitted.map Resource.id) := by
          rw [hReturned]
          exact hFifo.trans (hPrefix.sublist.map _)
        refine (sublist_iff_inTurn hBefore hMe).trans ?_
        refine ⟨?_, fun hTurn => hTurn changed₁ st₁ hWrite hBusy⟩
        intro hTurn changed st₂ hWrite₂ _
        cases hWrite.symm.trans hWrite₂
        exact hTurn
      | ordered hBusy hOther => exact absurd (hMode₁.symm.trans hOther) (by decide)
    · rintro changed changed' s s' ⟨hMode, hReturned, hHistories, hPrefix⟩ hWrite
      obtain ⟨hSame, -, hKept⟩ := write_frame hWrite
      exact ⟨hSame.trans hMode, hKept.trans hReturned, histories_write hHistories hWrite,
        hPrefix.trans (submitted_write hHistories hWrite)⟩

-- ---------------------------------------------------------------------------
-- The order of the output
-- ---------------------------------------------------------------------------

/-- The engine call returns resources that have come in. -/
structure Known (h : Hooks S) (all : List S) (st : State S) : Prop where
  mode : st.ordered = true
  counted : Counted st
  histories : Histories h st
  known : st.taken ++ st.inputResources ⊆ all
  running : st.runningSet ⊆ st.accepted.map Resource.id
  mine : ∀ r ∈ st.returned, Mine h all r
  returned : ∀ r ∈ st.returned, ∃ src ∈ all, h.prepareResource src = some r
  output : (st.returned.map h.finishResource).Sublist st.outputResources

/-- What has been submitted was prepared. -/
theorem Known.prepared (hKnown : Known h all st) :
    ∀ a ∈ st.submitted, ∃ src ∈ all, h.prepareResource src = some a :=
  fun _ ha => prepared_of_submitted hKnown.histories hKnown.known ha

/-- Only accepted resources run. -/
theorem running_subset_offer {b : Bool} {r : Resource}
    (hRunning : st.runningSet ⊆ st.accepted.map Resource.id) :
    (st.offer b r).runningSet ⊆ (st.offer b r).accepted.map Resource.id := by
  intro id hMem
  rw [offer_runningSet] at hMem
  rw [offer_accepted]
  cases b with
  | false => exact hRunning (by simpa using hMem)
  | true =>
    rw [if_pos rfl, List.map_append, List.mem_append]
    split at hMem
    · rcases List.mem_append.mp hMem with hOld | hNew
      · exact .inl (hRunning hOld)
      · exact .inr hNew
    · exact .inl (hRunning hMem)

/-- What is taken has come in. -/
theorem known_write (hKnown : Known h all st) (hWrite : Write h (changed, st) (changed', st')) :
    Known h all st' := by
  have hCounted := counted_write hKnown.counted hWrite
  have hHistories := histories_write hKnown.histories hWrite
  have hAll : st'.taken ++ st'.inputResources ⊆ all := by
    rw [taken_append_write hWrite]
    exact hKnown.known
  have hMode := hKnown.mode
  have hMine := hKnown.mine
  have hReturned := hKnown.returned
  have hOutput := hKnown.output
  cases hWrite with
  | stored b =>
    exact ⟨by simpa using hMode, hCounted, hHistories, hAll, running_subset_offer hKnown.running,
      by simpa using hMine, by simpa using hReturned, by simpa using hOutput⟩
  | offered b =>
    exact ⟨by simpa using hMode, hCounted, hHistories, hAll, running_subset_offer hKnown.running,
      by simpa using hMine, by simpa using hReturned, by simpa using hOutput⟩
  | passed =>
    exact ⟨hMode, hCounted, hHistories, hAll, hKnown.running, hMine, hReturned,
      hOutput.trans (List.sublist_append_left _ _)⟩

/-- What comes back was given to the engine. -/
theorem known_read (hHonest : Honest h all e) (hKnown : Known h all st)
    (hRead : Read h e tv (changed, st) (changed', st')) : Known h all st' := by
  have hCounted := (counted_read hKnown.counted hRead).1
  have hHistories := histories_read hKnown.histories hRead
  cases hRead with
  | idle => exact hKnown
  | @unordered _ _ me hBusy hMode hMe =>
    have hPerm := getProcessed_perm hKnown.counted.nodup hMe
    have hMine := getProcessed_mine hHonest hMe
    have hPrepared : ∀ r ∈ me.output, ∃ src ∈ all, h.prepareResource src = some r := by
      intro r hr
      have hRunning : r.id ∈ st.runningSet :=
        hPerm.subset (List.mem_append_right _ (List.mem_map_of_mem hr))
      obtain ⟨a, ha, hSame⟩ := List.mem_map.mp (hKnown.running hRunning)
      have hIn : a ∈ st.submitted := List.mem_append_left _ ha
      rw [← eq_of_mine hKnown.histories hKnown.known (hMine r hr) hIn hSame]
      exact hKnown.prepared a hIn
    refine ⟨hMode, hCounted, hHistories, hKnown.known, ?_, ?_, ?_, ?_⟩
    · exact fun id hMem => hKnown.running (hPerm.subset (List.mem_append_left _ hMem))
    · exact List.forall_mem_append.mpr ⟨hKnown.mine, hMine⟩
    · exact List.forall_mem_append.mpr ⟨hKnown.returned, hPrepared⟩
    · dsimp only
      rw [List.map_append]
      exact hKnown.output.append_right _
  | ordered hBusy hOther => exact absurd (hKnown.mode.symm.trans hOther) (by decide)

/-- What a round may bring: resources out of `all`, and an honest engine. -/
def Brings (h : Hooks S) (all : List S) : Round κ S → Prop
  | .push batch => batch ⊆ all
  | .readWrite e _ => Honest h all e

/-- The step lemma. -/
theorem known_round (hKnown : Known h all st) (hBrings : Brings h all r)
    (hRound : st.round h r = some st') : Known h all st' := by
  refine round_invariant (Known h all) ?_ known_write ?_ hKnown hRound
  · rintro batch rfl hKnown
    refine ⟨hKnown.mode, counted_push hKnown.counted batch,
      histories_push hKnown.histories batch, ?_,
      hKnown.running, hKnown.mine, hKnown.returned, hKnown.output⟩
    show st.taken ++ (st.inputResources ++ batch) ⊆ all
    rw [← List.append_assoc]
    exact List.append_subset.mpr ⟨hKnown.known, hBrings⟩
  · rintro e tv rfl
    exact known_read hBrings

theorem known_new (maxRequests : Int) : Known h all (State.new S maxRequests true) :=
  ⟨rfl, (settled_new maxRequests true).counted, histories_new maxRequests true, List.nil_subset _,
    List.nil_subset _, by simp [State.new], by simp [State.new], List.nil_sublist _⟩

/-- The input in the order in which it was taken. -/
theorem prepared_map_finish (st : State S) (hHistories : Histories h st) :
    (st.taken.filterMap fun src => (h.prepareResource src).map h.finishResource) =
      st.submitted.map h.finishResource := by
  rw [hHistories.submitted, List.map_filterMap]

/-- The object keeps the order in which the engine hands over. -/
theorem inOrder_of_fifo (hKnown : Known h all st) (hFifo : Fifo st) : InOrder h st := by
  refine ⟨hKnown.output, ?_⟩
  rw [prepared_map_finish st hKnown.histories]
  refine (Lib.sublist_of_map ?_ hFifo).map _
  intro r hr a ha hSame
  exact (eq_of_mine hKnown.histories hKnown.known (hKnown.mine r hr) ha hSame.symm).symm

/-- And does not restore it. -/
theorem fifo_of_inOrder
    (hFinish : ∀ src ∈ all, ∀ a, h.prepareResource src = some a → h.finishResource a = src)
    (hKnown : Known h all st) (hInOrder : InOrder h st) : Fifo st := by
  obtain ⟨-, hTaken⟩ := hInOrder
  rw [prepared_map_finish st hKnown.histories] at hTaken
  refine (Lib.sublist_of_map ?_ hTaken).map _
  intro r hr a ha hSame
  obtain ⟨src, hSrc, hPrepare⟩ := hKnown.prepared a ha
  obtain ⟨src', hSrc', hPrepare'⟩ := hKnown.returned r hr
  rw [hFinish src hSrc a hPrepare, hFinish src' hSrc' r hPrepare'] at hSame
  rw [hSame, hPrepare] at hPrepare'
  exact (Option.some.inj hPrepare').symm

/-- **When the order is kept.** In every sequence of calls in which the called engine hands over the
resources in the order in which they were offered to it, what is finished comes in the order in
which it was taken; and in no other, if what is finished can be told apart. -/
theorem keeps_order_iff (h : Hooks S) (maxRequests : Int) (calls : List (Call κ S)) (st : State S)
    (hRun : Lib.run (State.call h) (State.new S maxRequests true) calls = some st)
    (hHonest : ∀ c ∈ calls, ∀ e ∈ c.envs, Honest h (calls.flatMap Call.given) e) :
    (Lib.AllOk (State.round h) (InTurn h) (State.new S maxRequests true)
        ((State.new S maxRequests true).rounds h calls) →
      Lib.Always (State.round h) (InOrder h) (State.new S maxRequests true)
        ((State.new S maxRequests true).rounds h calls)) ∧
    ((∀ src ∈ calls.flatMap Call.given, ∀ a, h.prepareResource src = some a →
        h.finishResource a = src) →
      Lib.Always (State.round h) (InOrder h) (State.new S maxRequests true)
        ((State.new S maxRequests true).rounds h calls) →
      Lib.AllOk (State.round h) (InTurn h) (State.new S maxRequests true)
        ((State.new S maxRequests true).rounds h calls)) := by
  have hBrings : ∀ r ∈ (State.new S maxRequests true).rounds h calls,
      Brings h (calls.flatMap Call.given) r := by
    intro r hMem
    cases r with
    | push batch =>
      rw [← given_rounds hRun]
      exact fun src hSrc => List.mem_flatMap.mpr ⟨_, hMem, hSrc⟩
    | readWrite e tv =>
      obtain ⟨c, hCall, hEnv⟩ := mem_rounds hMem
      exact hHonest c hCall e hEnv
  have hFifo : Lib.Always (State.round h) Fifo (State.new S maxRequests true)
        ((State.new S maxRequests true).rounds h calls) ↔
      Lib.AllOk (State.round h) (InTurn h) (State.new S maxRequests true)
        ((State.new S maxRequests true).rounds h calls) := by
    refine Lib.always_iff_allOk (fun s : State S => s.ordered = true ∧ Histories h s) ?_ ?_
      (run_rounds hRun) ⟨rfl, histories_new maxRequests true⟩ (List.nil_sublist _)
    · rintro s r s' ⟨hMode, hHistories⟩ hRound
      exact ⟨(frame_round hRound).1.trans hMode, histories_round hHistories hRound⟩
    · rintro s r s' ⟨hMode, hHistories⟩ hFifo hRound
      exact fifo_round_iff hMode hHistories hFifo hRound
  refine ⟨fun hTurn => ?_, fun hFinish hOrder => ?_⟩
  · exact Lib.Always.imp (Known h _) (fun _ _ _ => known_round) (fun _ => inOrder_of_fifo) hBrings
      (known_new maxRequests) (hFifo.mpr hTurn)
  · exact hFifo.mp (Lib.Always.imp (Known h _) (fun _ _ _ => known_round)
      (fun _ => fifo_of_inOrder hFinish) hBrings (known_new maxRequests) hOrder)

/-- The engine accepts both resources, and has finished the second one first. -/
def overtaking : List (Call Unit Nat) :=
  [.round (.push [7, 8]), .round (.readWrite (.alone (fun _ => true) [⟨8, 8⟩] 3) false),
    .round (.readWrite (.alone (fun _ => true) [⟨7, 7⟩] 2) false)]

def overtaken : State Nat :=
  { State.new Nat 2 true with
    outputResources := [8, 7], taken := [7, 8], returned := [⟨8, 8⟩, ⟨7, 7⟩]
    offers := [⟨⟨7, 7⟩, true, false⟩, ⟨⟨8, 8⟩, true, false⟩] }

/-- 8 is handed out before 7. -/
theorem order_not_kept :
    Lib.run (State.call copying) (State.new Nat 2 true) overtaking = some overtaken ∧
      ¬ InOrder copying overtaken := by
  refine ⟨rfl, ?_⟩
  unfold InOrder
  decide

theorem inTurn_of_write (hWrite : st.write h e.accepts true = .ok (changed, st'))
    (hTurn : e.InTurn st' tv) : InTurn h st (.readWrite e tv) := by
  intro changed' st'' hWrite' _
  cases hWrite.symm.trans hWrite'
  exact hTurn

/-- The engine accepts both resources, and has finished the first one first. -/
def following : List (Call Unit Nat) :=
  [.round (.push [7, 8]), .round (.readWrite (.alone (fun _ => true) [⟨7, 7⟩] 3) false),
    .round (.readWrite (.alone (fun _ => true) [⟨8, 8⟩] 2) false)]

/-- After the first call of `ReadWrite`. -/
def halfway : State Nat :=
  { State.new Nat 2 true with
    running := 1, runningSet := [8], outputResources := [7], taken := [7, 8], returned := [⟨7, 7⟩]
    offers := [⟨⟨7, 7⟩, true, false⟩, ⟨⟨8, 8⟩, true, false⟩] }

theorem honest_following : ∀ c ∈ following, ∀ e ∈ c.envs,
    Honest copying (following.flatMap Call.given) e := by
  have hMine : ∀ r : Resource, r ∈ [(⟨7, 7⟩ : Resource), ⟨8, 8⟩] →
      Mine copying (following.flatMap Call.given) r := by
    intro r hr src hSrc a hPrepare hSame
    cases Option.some.inj hPrepare
    have hSource : src = 7 ∨ src = 8 := by simpa [following, Call.given] using hSrc
    rcases hSource with rfl | rfl <;>
      simp only [List.mem_cons, List.not_mem_nil, or_false] at hr <;>
      rcases hr with rfl | rfl <;> simp_all
  intro c hCall e hEnv
  simp only [following, List.mem_cons, List.not_mem_nil, or_false] at hCall
  rcases hCall with rfl | rfl | rfl
  · exact absurd hEnv (by simp [Call.envs])
  · rw [List.mem_singleton.mp hEnv]
    exact honest_alone fun r hr => hMine r (by simp_all)
  · rw [List.mem_singleton.mp hEnv]
    exact honest_alone fun r hr => hMine r (by simp_all)

/-- The engine finishes the resources one after the other. -/
theorem keeps_order_two :
    Lib.Always (State.round copying) (InOrder copying) (State.new Nat 2 true)
      ((State.new Nat 2 true).rounds copying following) ∧
    (Lib.run (State.call copying) (State.new Nat 2 true) following).map State.outputResources =
      some [7, 8] := by
  refine ⟨(keeps_order_iff copying 2 following _ rfl honest_following).1 ?_, rfl⟩
  refine ⟨trivial, fun st₁ hPush => ?_⟩
  cases Option.some.inj hPush
  -- both resources are offered in the first call, and the first one is delivered
  refine ⟨inTurn_of_write rfl (by unfold Env.InTurn; decide), fun st₂ hRead => ?_⟩
  have hHalfway : ((State.new Nat 2 true).push [7, 8]).round copying
      (.readWrite (.alone (fun _ => true) [⟨7, 7⟩] 3) false) = some halfway := rfl
  cases hHalfway.symm.trans hRead
  exact ⟨inTurn_of_write rfl (by unfold Env.InTurn; decide), fun _ _ => trivial⟩

end HectorCore.Calls
