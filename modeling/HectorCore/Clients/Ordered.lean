import HectorCore.Clients.Results
import HectorCore.Clients.Turn

/-!
# Ordered — what GetProcessedResourcesOrdered reads, appends and stores

Any number of calls of the two functions, from any contents of the output queue and of
`finishedResources`. An ordered call is meant to append the resources of the first ids, in their
order, and to share every other resource that it takes from the queue.

The inner loop reads `(*ids)[index]` for every resource in the queue. It does not look whether
`index` has come to the end of the vector: a resource behind the one of the last id is compared with
what stands behind the vector.

* `Log`, `accounted_step`      — what a call has taken from the queue, and where it has put it;
* `Client.Begun`, `begun_step` — what holds of every call, in bounds or not;
* `ordered_in_bounds_iff`      — the calls stay in bounds, and everything is as it is meant to be,
  if and only if the queue is empty each time that an inner loop has found the last id.
-/

namespace HectorCore.Clients

open Lib

variable {κ : Type} [DecidableEq κ]

-- ---------------------------------------------------------------------------
-- The log of a call
-- ---------------------------------------------------------------------------

/-- What a call has taken from the queue, what of it has been appended to the output, and what has
been stored in `finishedResources` under its id. -/
structure Log where
  dequeued : List Resource
  appended : List Resource
  stored : List Resource
  deriving DecidableEq, Repr

/-- A resource comes into the hand of a client, or leaves it. -/
def Log.next (log : Log) (me me' : Client) (finished' : Int → Option Resource) : Log :=
  match me.pc.held, me'.pc.held with
  | none, some r => { log with dequeued := log.dequeued ++ [r] }
  | some r, none =>
    if me'.output = me.output ++ [r] then { log with appended := log.appended ++ [r] }
    else if finished' r.id = some r then { log with stored := log.stored ++ [r] }
    else log
  | _, _ => log

/-- A state, and what each call has done so far. -/
structure Watched (κ : Type) where
  state : State κ
  log : κ → Log

/-- A step, written down for every call. -/
def watchedStep (w : Watched κ) (l : Label κ) : Option (Watched κ) :=
  (step w.state l).map fun s' =>
    ⟨s', fun c => (w.log c).next (w.state.client c) (s'.client c) s'.finishedResources⟩

/-- Any calls, before they begin, with any resources in the queue and among the finished ones. -/
def watched (ordered : κ → Bool) (ids : κ → List Int) (timeout : κ → Bool)
    (queue finished : List Resource) : Watched κ :=
  ⟨{ callers ordered ids timeout with
      queue, arrived := queue, finishedResources := fun id => finished.find? (·.id = id) },
    fun _ => ⟨[], [], []⟩⟩

/-- Everything that a call has taken has been appended or stored, or is in its hand. -/
def Accounted (log : Log) (me : Client) : Prop :=
  log.dequeued.Perm (log.appended ++ log.stored ++ me.pc.held.toList)

/-- A call that has not moved has nothing to write down. -/
theorem next_of_view {log : Log} {me me' : Client} {finished' : Int → Option Resource}
    (hView : me'.view = me.view) : log.next me me' finished' = log := by
  have hHeld : me'.pc.held = me.pc.held := (Prod.mk.inj hView).1
  rw [Log.next, hHeld]
  cases me.pc.held <;> rfl

theorem accounted_of_view {log : Log} {me me' : Client} {finished' : Int → Option Resource}
    (h : Accounted log me) (hView : me'.view = me.view) :
    Accounted (log.next me me' finished') me' := by
  rw [next_of_view hView, Accounted, (Prod.mk.inj hView).1]
  exact h

variable {s s' : State κ} {l : Label κ} {c : κ}

/-- What one step of any call preserves. -/
theorem accounted_step {log : κ → Log} (h : ∀ c, Accounted (log c) (s.client c))
    (hStep : step s l = some s') (c : κ) :
    Accounted ((log c).next (s.client c) (s'.client c) s'.finishedResources) (s'.client c) := by
  have hc := h c
  cases effect_step hStep with
  | quiet hQuiet => exact accounted_of_view hc (hQuiet.view c)
  | empties hView => exact accounted_of_view hc (hView c)
  | arrives r hLabel hView => exact accounted_of_view hc (hView c)
  | takes c' r hBefore hAfter hOthers =>
    by_cases hMe : c = c'
    · subst hMe
      have hHeld : (s'.client c).pc.held = some r := (Prod.mk.inj hAfter).1
      rw [Accounted, hBefore] at hc
      rw [Log.next, hBefore, hHeld, Accounted, hHeld]
      simpa using hc.append_right [r]
    · exact accounted_of_view hc (hOthers c hMe)
  | keeps c' r hBefore hAfter hOthers =>
    by_cases hMe : c = c'
    · subst hMe
      obtain ⟨hHeld, hOutput⟩ := Prod.mk.inj hAfter
      rw [Accounted, hBefore] at hc
      rw [Log.next, hBefore, hHeld, Accounted, hHeld]
      dsimp only
      rw [if_pos hOutput]
      refine hc.trans ?_
      simp only [Option.toList_some, Option.toList_none, List.append_nil, List.append_assoc]
      exact List.Perm.append_left _ List.perm_append_comm
    · exact accounted_of_view hc (hOthers c hMe)
  | shares c' r hBefore hAfter hOthers hFinished =>
    by_cases hMe : c = c'
    · subst hMe
      obtain ⟨hHeld, hOutput⟩ := Prod.mk.inj hAfter
      have hSame : (s'.client c).output ≠ (s.client c).output ++ [r] := by
        rw [hOutput]
        simp
      have hStored : s'.finishedResources r.id = some r := by
        rw [hFinished, Function.update_self]
      rw [Accounted, hBefore] at hc
      rw [Log.next, hBefore, hHeld, Accounted, hHeld]
      dsimp only
      rw [if_neg hSame, if_pos hStored]
      refine hc.trans ?_
      simp
    · exact accounted_of_view hc (hOthers c hMe)
  | collects c' id r hBefore hFound hAfter hOthers =>
    by_cases hMe : c = c'
    · subst hMe
      have hHeld : (s'.client c).pc.held = none := (Prod.mk.inj hAfter).1
      rw [Log.next, hBefore, hHeld, Accounted, hHeld]
      rw [Accounted, hBefore] at hc
      exact hc
    · exact accounted_of_view hc (hOthers c hMe)

-- ---------------------------------------------------------------------------
-- In bounds and in order
-- ---------------------------------------------------------------------------

/-- **A prefix in order, and in bounds**: the call is not about to read the vector at its end; it
has appended the resources of a prefix of the ids, in their order; every other resource that it took
from the queue has been stored under its id; and it returns `true` with a time-out only if the
prefix is the whole list. -/
structure InOrder (log : Log) (me : Client) : Prop where
  inBounds : ∀ r my foreign, me.pc = .storing r my foreign → me.index < me.ids.length
  index : me.index ≤ me.ids.length
  appended : me.output.map Resource.id = me.ids.take me.index
  stored : Accounted log me
  complete : me.pc = .returned true → me.timeout = true → me.index = me.ids.length

/-- What holds of an ordered call, whatever it has read. -/
structure Client.Begun (me : Client) : Prop where
  ordered : me.ordered = true
  fresh : me.pc = .idle ∨ me.pc = .entering → me.index = 0 ∧ me.output = []
  reading : me.pc = .inQueue ∨ (∃ r, me.pc = .gotItem r) → me.index < me.ids.length

/-- The inner loop of an ordered call that has found its last id finds nothing more. -/
def DrainEnds (ordered : κ → Bool) (w : Watched κ) : Label κ → Prop
  | .poll c =>
    ordered c = true → (w.state.client c).index = (w.state.client c).ids.length →
      w.state.front = none
  | _ => True

instance (ordered : κ → Bool) (w : Watched κ) : ∀ l, Decidable (DrainEnds ordered w l)
  | .poll c =>
    inferInstanceAs (Decidable (ordered c = true →
      (w.state.client c).index = (w.state.client c).ids.length → w.state.front = none))
  | .arrive _ | .setCancel | .stopQueue | .call _ | .acquire _ | .wake _ _ | .getItem _ _ | .scan _
  | .store _ _ => inferInstanceAs (Decidable True)

/-- Finished resources are filed under their own ids. -/
def Keyed (s : State κ) : Prop := ∀ i r, s.finishedResources i = some r → r.id = i

theorem keyed_step (h : Keyed s) (hStep : step s l = some s') : Keyed s' := by
  unfold Keyed
  cases effect_step hStep with
  | quiet hQuiet => rw [hQuiet.finished]; exact h
  | empties hView hFinished => rw [hFinished]; exact h
  | arrives r hLabel hView hFinished => rw [hFinished]; exact h
  | takes c r hBefore hAfter hOthers hFinished => rw [hFinished]; exact h
  | keeps c r hBefore hAfter hOthers hFinished => rw [hFinished]; exact h
  | shares c r hBefore hAfter hOthers hFinished =>
    rw [hFinished]
    intro i r' hFound
    by_cases hi : i = r.id
    · rw [hi, Function.update_self, Option.some.injEq] at hFound
      rw [hi, hFound]
    · rw [Function.update_of_ne hi] at hFound
      exact h i r' hFound
  | collects c id r hBefore hFound hAfter hOthers hFinished =>
    rw [hFinished]
    intro i r' hFound'
    by_cases hi : i = id
    · rw [hi, Function.update_self] at hFound'
      exact absurd hFound' (by simp)
    · rw [Function.update_of_ne hi] at hFound'
      exact h i r' hFound'

omit [DecidableEq κ] in
/-- A call that has begun stays within what it has begun with. -/
theorem begun_turn {me' : Client} (h : (s.client c).Begun) (hTurn : Turn s l c me') :
    me'.Begun := by
  cases hTurn with
  | stays => exact h
  | calls hPc => exact ⟨h.ordered, fun _ => h.fresh (.inl hPc), by simp⟩
  | gets r hPc => exact ⟨h.ordered, by simp, fun _ => h.reading (.inl hPc)⟩
  | awaits hPc hTimeout hId hNew =>
    refine ⟨h.ordered, ?_, fun _ => (List.getElem?_eq_some_iff.mp (hId h.ordered)).1⟩
    rcases hNew with rfl | rfl <;> simp
  | skips hOrdered hPc => exact ⟨h.ordered, by simp [hPc], by simp [hPc]⟩
  | collectsOrdered hOrdered hPc => exact ⟨h.ordered, by simp [hPc], by simp [hPc]⟩
  | collectsUnordered hOrdered hPc => exact ⟨h.ordered, by simp [hPc], by simp [hPc]⟩
  | _ => exact ⟨h.ordered, by simp, by simp⟩

/-- An id more. -/
theorem take_succ_of_getElem? {ids : List Int} {index : Nat} {id : Int}
    (h : ids[index]? = some id) :
    ids.take (index + 1) = ids.take index ++ [id] := by
  rw [List.take_add_one, h]
  rfl

omit [DecidableEq κ] in
/-- One turn of an ordered call: it stays in bounds unless it polls at the end of the vector. -/
theorem inOrder_turn {log : Log} {me' : Client} (hKeyed : Keyed s) (hBegun : (s.client c).Begun)
    (h : InOrder log (s.client c)) (hTurn : Turn s l c me') {log' : Log}
    (hStored : Accounted log' me')
    (hPoll : l = .poll c → (s.client c).index = (s.client c).ids.length → s.front = none) :
    InOrder log' me' := by
  cases hTurn with
  | stays => exact ⟨h.inBounds, h.index, h.appended, hStored, h.complete⟩
  | enters hPc =>
    obtain ⟨-, hOutput⟩ := hBegun.fresh (.inr hPc)
    refine ⟨by simp, Nat.zero_le _, ?_, hStored, by simp⟩
    rw [hOutput]
    rfl
  | holds hPc =>
    exact ⟨fun _ _ _ _ => hBegun.reading (.inr ⟨_, hPc⟩), h.index, h.appended, hStored, by simp⟩
  | endsOrdered hOrdered hPc hEnd =>
    refine ⟨by simp, h.index, h.appended, hStored, fun _ hTimeout => ?_⟩
    rcases hEnd with hNone | hNo
    · exact Nat.le_antisymm h.index (List.getElem?_eq_none_iff.mp hNone)
    · exact absurd (hNo.symm.trans hTimeout) (by decide)
  | awaits hPc hTimeout hId hNew =>
    rcases hNew with rfl | rfl
    · exact ⟨by simp, h.index, h.appended, hStored, by simp⟩
    · exact ⟨by simp, h.index, h.appended, hStored, by simp⟩
  | collectsOrdered hOrdered hPc hId hFound =>
    refine ⟨by simp [hPc], (List.getElem?_eq_some_iff.mp hId).1, ?_, hStored, by simp [hPc]⟩
    rw [take_succ_of_getElem? hId, List.map_append, h.appended, List.map_singleton,
      hKeyed _ _ hFound]
  | appendsOrdered hOrdered hPc hSame =>
    have hLt := h.inBounds _ _ _ hPc
    rw [List.getElem?_eq_getElem hLt, Option.getD_some] at hSame
    refine ⟨by simp, hLt, ?_, hStored, by simp⟩
    rw [take_succ_of_getElem? (List.getElem?_eq_getElem hLt), List.map_append, h.appended, hSame]
    rfl
  | polls hLabel hPc hFront =>
    refine ⟨fun _ _ _ _ => ?_, h.index, h.appended, hStored, by simp⟩
    refine Nat.lt_of_le_of_ne h.index fun hEnd => ?_
    rw [hPoll hLabel hEnd] at hFront
    exact absurd hFront (by simp)
  | restarts hOrdered => exact absurd (hBegun.ordered.symm.trans hOrdered) (by decide)
  | endsUnordered hOrdered => exact absurd (hBegun.ordered.symm.trans hOrdered) (by decide)
  | skips hOrdered => exact absurd (hBegun.ordered.symm.trans hOrdered) (by decide)
  | collectsUnordered hOrdered => exact absurd (hBegun.ordered.symm.trans hOrdered) (by decide)
  | appendsUnordered hOrdered => exact absurd (hBegun.ordered.symm.trans hOrdered) (by decide)
  | _ => exact ⟨by simp, h.index, h.appended, hStored, by simp⟩

-- ---------------------------------------------------------------------------
-- Runs
-- ---------------------------------------------------------------------------

variable {ordered : κ → Bool} {w w' : Watched κ}

/-- What holds all along a run, in bounds or not. -/
structure Underway (ordered : κ → Bool) (w : Watched κ) : Prop where
  keyed : Keyed w.state
  accounted : ∀ c, Accounted (w.log c) (w.state.client c)
  begun : ∀ c, ordered c = true → (w.state.client c).Begun

/-- All ordered calls are in order. -/
def AllInOrder (ordered : κ → Bool) (w : Watched κ) : Prop :=
  ∀ c, ordered c = true → InOrder (w.log c) (w.state.client c)

/-- All three are kept by every step. -/
theorem underway_step (h : Underway ordered w) (hStep : watchedStep w l = some w') :
    Underway ordered w' := by
  obtain ⟨s', hState, rfl⟩ := Option.map_eq_some_iff.mp hStep
  refine ⟨keyed_step h.keyed hState, accounted_step h.accounted hState, ?_⟩
  intro c hc
  have hBegun := h.begun c hc
  exact begun_turn hBegun (turn_of_moves (moves_of_step hState))

/-- A poll at the end of the vector that finds a resource goes out of bounds. -/
theorem drainEnds_of_inOrder (hStep : watchedStep w l = some w') (h : AllInOrder ordered w') :
    DrainEnds ordered w l := by
  obtain ⟨s', hState, rfl⟩ := Option.map_eq_some_iff.mp hStep
  cases moves_of_step hState with
  | pollEmpty hPc hFront => exact fun _ _ => hFront
  | pollTake hPc hFront =>
    intro hOrdered hEnd
    have hBounds := (h _ hOrdered).inBounds
    rw [client_set_self] at hBounds
    exact absurd (hBounds _ _ _ rfl) (by rw [hEnd]; exact Nat.lt_irrefl _)
  | _ => trivial

omit [DecidableEq κ] in
theorem underway_watched (ordered : κ → Bool) (ids : κ → List Int) (timeout : κ → Bool)
    (queue finished : List Resource) :
    Underway ordered (watched ordered ids timeout queue finished) where
  keyed i r hFound := by
    have hKey := List.find?_some hFound
    simpa using hKey
  accounted c := List.Perm.nil
  begun c hc := ⟨hc, fun _ => ⟨rfl, rfl⟩, by simp [watched, callers, initial, Client.new]⟩

omit [DecidableEq κ] in
theorem inOrder_watched (ordered : κ → Bool) (ids : κ → List Int) (timeout : κ → Bool)
    (queue finished : List Resource) :
    AllInOrder ordered (watched ordered ids timeout queue finished) := by
  intro c hc
  exact ⟨by simp [watched, callers, initial, Client.new], Nat.zero_le _, rfl, List.Perm.nil,
    by simp [watched, callers, initial, Client.new]⟩

/--
**When ordered calls stay in bounds.** Take any number of calls of the two functions, with any ids
and time-outs, from any contents of the output queue and of `finishedResources`, and any run. All
along it every ordered call is in bounds, has appended the resources of a prefix of its ids and
stored the others, and returns `true` with a time-out only at the end of the list, if and only if
each inner loop that has found the last id of its call finds the queue empty.
-/
theorem ordered_in_bounds_iff (ordered : κ → Bool) (ids : κ → List Int) (timeout : κ → Bool)
    (queue finished : List Resource) {labels : List (Label κ)} {w : Watched κ}
    (hRun : run watchedStep (watched ordered ids timeout queue finished) labels = some w) :
    Always watchedStep (AllInOrder ordered) (watched ordered ids timeout queue finished) labels ↔
      AllOk watchedStep (DrainEnds ordered) (watched ordered ids timeout queue finished)
        labels := by
  refine always_iff_allOk (Underway ordered) (fun _ _ _ => underway_step) ?_ hRun
    (underway_watched ordered ids timeout queue finished)
    (inOrder_watched ordered ids timeout queue finished)
  intro w l w' hUnderway hInOrder hStep
  refine ⟨drainEnds_of_inOrder hStep, fun hEnds => ?_⟩
  have hNext := underway_step hUnderway hStep
  obtain ⟨s', hState, rfl⟩ := Option.map_eq_some_iff.mp hStep
  intro c hc
  have hBegun := hUnderway.begun c hc
  refine inOrder_turn hUnderway.keyed hBegun (hInOrder c hc)
    (turn_of_moves (moves_of_step hState)) (hNext.accounted c) ?_
  rintro rfl
  exact hEnds hc

/-- One call for the ids 1 and 2, with a time-out; 3 belongs to another client. -/
def oneCall (queue : List Resource) : Watched Unit :=
  watched (fun _ => true) (fun _ => [1, 2]) (fun _ => true) queue []

/-- The queue is drained: a foreign resource first, the last id at the end. -/
def drain : List (Label Unit) :=
  [.call (), .acquire (), .scan (), .getItem () true, .acquire (), .store () 0, .poll (),
  .store () 0,
    .poll (), .store () 0, .poll ()]

theorem ordered_in_bounds_one :
    Always watchedStep (AllInOrder fun _ => true) (oneCall [⟨3, 10⟩, ⟨1, 11⟩, ⟨2, 12⟩]) drain := by
  obtain ⟨w, hRun⟩ : ∃ w, run watchedStep (oneCall [⟨3, 10⟩, ⟨1, 11⟩, ⟨2, 12⟩]) drain = some w :=
    ⟨_, rfl⟩
  exact (ordered_in_bounds_iff _ _ _ _ _ hRun).mpr (by decide)

/-- The foreign resource comes last: it is compared with what stands behind the vector. -/
theorem ordered_out_of_bounds :
    ∃ w, run watchedStep (oneCall [⟨1, 11⟩, ⟨2, 12⟩, ⟨3, 10⟩]) (drain.take 9) = some w ∧
      ¬ AllInOrder (fun _ => true) w := by
  refine ⟨_, rfl, fun h => ?_⟩
  exact absurd ((h () rfl).inBounds ⟨3, 10⟩ false false rfl) (by decide)

end HectorCore.Clients
