import HectorCore.Calls.ReadWrite

/-!
# Pass — a called engine without an output queue

`CallProcessingEngine::Pass`. It shares its loop and the counter `running` with `Process`, where the
counter is lowered when results come back. `Pass` reads no results, and nothing else lowers the
counter, so an object forwards `maxRequests` resources in its life. There is no queue for a resource
that `PrepareResource` does not accept, either.

* `writeInput_forwards`  — the loop forwards up to `maxRequests` resources in all;
* `pass_never_stops_iff` — when every call forwards something.
-/

namespace HectorCore.Calls

variable {κ : Type} [DecidableEq κ] {S : Type} {h : Hooks S}

/-- One call forwards, in their order, the first resources that are there, and at least one. -/
def Forwards (h : Hooks S) (st st' : State S) : Prop :=
  ∃ sent, st.inputResources = sent ++ st'.inputResources ∧
    st'.accepted.map some = st.accepted.map some ++ sent.map h.prepareResource ∧
    (st.inputResources ≠ [] → sent ≠ [])

/-- Each of the calls comes back and forwards; in front of each, new resources have come in. -/
def NeverStops (h : Hooks S) : List (List S × Env κ) → State S → Prop
  | [], _ => True
  | (batch, e) :: calls, st =>
    ∃ st', (st.push batch).pass h e = .ok st' ∧ Forwards h (st.push batch) st' ∧
      NeverStops h calls st'

/-- What has come in. -/
def batches (calls : List (List S × Env κ)) : List S := calls.flatMap Prod.fst

/-- The resources `sent` have been forwarded since the object was made. -/
structure Sent (h : Hooks S) (m : Nat) (sent : List S) (st : State S) : Prop where
  maxRequests : st.maxRequests = m
  stored : st.tmpInputResource = none
  running : st.running = sent.length
  room : sent.length ≤ m
  accepted : st.accepted.map some = sent.map h.prepareResource

/-- What has been sent had been prepared. -/
theorem Sent.prepared {m : Nat} {sent : List S} {st : State S} (hSent : Sent h m sent st) :
    ∀ src ∈ sent, h.prepareResource src ≠ none := by
  intro src hMem hNone
  have hIn : none ∈ st.accepted.map some := by
    rw [hSent.accepted, ← hNone]
    exact List.mem_map_of_mem hMem
  simp at hIn

/-- The next resource is accepted. -/
theorem Sent.snoc {m : Nat} {sent rest : List S} {st : State S} {src : S} {r : Clients.Resource}
    (hSent : Sent h m sent st) (hRoom : sent.length < m)
    (hPrepare : h.prepareResource src = some r) :
    Sent h m (sent ++ [src])
      { st.offer true r with inputResources := rest, taken := st.taken ++ [src] } where
  maxRequests := by simpa using hSent.maxRequests
  stored := by simp
  running := by simp [hSent.running]
  room := by
    rw [List.length_append, List.length_singleton]
    exact hRoom
  accepted := by
    have hAccepted : (st.offer true r).accepted = st.accepted ++ [r] := by simp
    show (st.offer true r).accepted.map some = _
    rw [hAccepted, List.map_append, hSent.accepted, List.map_append, List.map_singleton,
      List.map_singleton, hPrepare]

-- ---------------------------------------------------------------------------
-- The loop, for an engine that always accepts
-- ---------------------------------------------------------------------------

section Loop

variable {m k : Nat} {accepts : Nat → Bool} {sent input all : List S} {changed : Bool}
  {st : State S}

/-- The resources that there is still room for are all accepted by `PrepareResource`. -/
theorem writeInput_forwards (hAccepts : ∀ k, accepts k = true) (hSent : Sent h m sent st)
    (hInput : st.inputResources = input) (hSplit : sent ++ input = all)
    (hPrepared : ∀ src ∈ all.take m, h.prepareResource src ≠ none) :
    ∃ changed' st', State.writeInput h accepts false input k changed st = .ok (changed', st') ∧
      Sent h m (all.take m) st' ∧ st'.inputResources = all.drop m := by
  induction input generalizing sent k changed st with
  | nil =>
    rw [List.append_nil] at hSplit
    subst hSplit
    refine ⟨changed, st, rfl, ?_, ?_⟩
    · rw [List.take_of_length_le hSent.room]
      exact hSent
    · rw [hInput, List.drop_of_length_le hSent.room]
  | cons src rest ih =>
    unfold State.writeInput
    rw [hSent.running, hSent.maxRequests]
    rcases Nat.lt_or_ge sent.length m with hRoom | hFull
    · rw [if_pos (by exact_mod_cast hRoom)]
      have hMem : src ∈ all.take m := by
        rw [← hSplit, List.take_append, List.mem_append]
        right
        rw [show m - sent.length = m - sent.length - 1 + 1 by omega]
        exact List.mem_cons_self
      obtain ⟨r, hPrepare⟩ := Option.ne_none_iff_exists'.mp (hPrepared src hMem)
      rw [hPrepare]
      simp only [hAccepts, if_true]
      exact ih (hSent.snoc hRoom hPrepare) rfl (by simpa using hSplit)
    · rw [if_neg (by simpa using hFull)]
      have hLength : sent.length = m := Nat.le_antisymm hSent.room hFull
      refine ⟨changed, st, rfl, ?_, ?_⟩
      · rw [← hSplit, ← hLength, List.take_left]
        rw [hLength]
        exact hSent
      · rw [← hSplit, ← hLength, List.drop_left, hInput]

/-- One of them is not: there is no queue to put it into. -/
theorem writeInput_crashes (hAccepts : ∀ k, accepts k = true) (hSent : Sent h m sent st)
    (hSplit : sent ++ input = all)
    (hUnprepared : ∃ src ∈ all.take m, h.prepareResource src = none) :
    State.writeInput h accepts false input k changed st = .error .nullOutput := by
  induction input generalizing sent k changed st with
  | nil =>
    rw [List.append_nil] at hSplit
    obtain ⟨src, hMem, hNone⟩ := hUnprepared
    rw [← hSplit] at hMem
    exact absurd hNone (hSent.prepared src (List.mem_of_mem_take hMem))
  | cons src rest ih =>
    unfold State.writeInput
    rw [hSent.running, hSent.maxRequests]
    rcases Nat.lt_or_ge sent.length m with hRoom | hFull
    · rw [if_pos (by exact_mod_cast hRoom)]
      cases hPrepare : h.prepareResource src with
      | none => rfl
      | some r =>
        simp only [hAccepts, if_true]
        exact ih (hSent.snoc hRoom hPrepare) (by simpa using hSplit)
    · obtain ⟨src', hMem, hNone⟩ := hUnprepared
      have hLength : sent.length = m := Nat.le_antisymm hSent.room hFull
      rw [← hSplit, ← hLength, List.take_left] at hMem
      exact absurd hNone (hSent.prepared src' hMem)

end Loop

-- ---------------------------------------------------------------------------
-- Calls of Pass
-- ---------------------------------------------------------------------------

section Calls

variable {m : Nat} {e : Env κ} {st st' : State S} {all batch : List S}

/-- `all` has come in, and as much of it as there was room for has been forwarded. -/
structure Passed (h : Hooks S) (m : Nat) (all : List S) (st : State S) : Prop where
  sent : Sent h m (all.take m) st
  input : st.inputResources = all.drop m

/-- Without a stored resource `Pass` is the loop over the input. -/
theorem pass_of_stored_none (hNone : st.tmpInputResource = none) :
    st.pass h e =
      (State.writeInput h e.accepts false st.inputResources 0 false st).map Prod.snd := by
  unfold State.pass State.readWrite State.write
  rw [hNone]
  cases State.writeInput h e.accepts false st.inputResources 0 false st <;> rfl

/-- New input comes behind what has not been forwarded. -/
theorem Passed.split_push (hPassed : Passed h m all st) :
    all.take m ++ (st.push batch).inputResources = all ++ batch := by
  show all.take m ++ (st.inputResources ++ batch) = _
  rw [hPassed.input, ← List.append_assoc, List.take_append_drop]

theorem Passed.sent_push (hPassed : Passed h m all st) : Sent h m (all.take m) (st.push batch) :=
  ⟨hPassed.sent.maxRequests, hPassed.sent.stored, hPassed.sent.running, hPassed.sent.room,
    hPassed.sent.accepted⟩

/-- If the engine accepts all, a call forwards what there is room for, and comes back. -/
theorem pass_comes_back (hAccepts : ∀ k, e.accepts k = true) (hPassed : Passed h m all st)
    (hPrepared : ∀ src ∈ (all ++ batch).take m, h.prepareResource src ≠ none) :
    ∃ st', (st.push batch).pass h e = .ok st' ∧ Passed h m (all ++ batch) st' := by
  obtain ⟨changed, st', hWrite, hSent, hInput⟩ :=
    writeInput_forwards hAccepts hPassed.sent_push rfl hPassed.split_push hPrepared
  refine ⟨st', ?_, hSent, hInput⟩
  rw [pass_of_stored_none hPassed.sent_push.stored, hWrite]
  rfl

/-- A call that has come back has met no resource that `PrepareResource` refuses. -/
theorem prepared_of_pass (hAccepts : ∀ k, e.accepts k = true) (hPassed : Passed h m all st)
    (hPass : (st.push batch).pass h e = .ok st') :
    ∀ src ∈ (all ++ batch).take m, h.prepareResource src ≠ none := by
  intro src hMem hNone
  rw [pass_of_stored_none hPassed.sent_push.stored,
    writeInput_crashes hAccepts hPassed.sent_push hPassed.split_push ⟨src, hMem, hNone⟩] at hPass
  exact absurd hPass (by simp [Except.map])

/-- **One call**: it forwards something if there is room, or nothing to forward. -/
theorem forwards_iff (hPassed : Passed h m all st) (hPassed' : Passed h m (all ++ batch) st') :
    Forwards h (st.push batch) st' ↔ (m < (all ++ batch).length → all.length < m) := by
  have hSplit : all.take m ++ (st.push batch).inputResources = all ++ batch := hPassed.split_push
  have hRest := hPassed'.input
  constructor
  · rintro ⟨sent, hInput, -, hSome⟩ hMore
    by_contra hFull
    rw [hInput, ← List.append_assoc, hRest] at hSplit
    -- the two ends of `all ++ batch` leave no room for `sent`
    have hLength := congrArg List.length hSplit
    simp only [List.length_append, List.length_take, List.length_drop] at hLength hMore
    have hNil : sent = [] := List.length_eq_zero_iff.mp (by omega)
    refine hSome ?_ hNil
    rw [hInput, hNil, List.nil_append, hRest]
    intro hDrop
    have hZero := congrArg List.length hDrop
    simp only [List.length_append, List.length_drop, List.length_nil] at hZero
    omega
  · intro hRoom
    refine ⟨(st.push batch).inputResources.take (m - (all.take m).length), ?_, ?_, ?_⟩
    · rw [hRest, ← hSplit, List.drop_append, List.drop_of_length_le (List.length_take_le _ _),
        List.nil_append, List.take_append_drop]
    · show st'.accepted.map some = st.accepted.map some ++ _
      rw [hPassed'.sent.accepted, hPassed.sent.accepted, ← List.map_append, ← hSplit,
        List.take_append,
        List.take_of_length_le (List.length_take_le _ _)]
    · intro hInput hNil
      have hLength := congrArg List.length hSplit
      have hZero := congrArg List.length hNil
      have hPos : 0 < (st.push batch).inputResources.length := List.length_pos_iff.mpr hInput
      simp only [List.length_append, List.length_take, List.length_nil] at hLength hZero hRoom
      omega

end Calls

/-- The condition on all calls, from the first call on. -/
theorem room_cons_iff {m : Nat} {all : List S} {c : List S × Env κ}
    {calls : List (List S × Env κ)} :
    (∀ before c', before ++ [c'] <+: c :: calls →
        m < (all ++ batches (before ++ [c'])).length → (all ++ batches before).length < m) ↔
      (m < (all ++ c.1).length → all.length < m) ∧
        ∀ before c', before ++ [c'] <+: calls →
          m < (all ++ c.1 ++ batches (before ++ [c'])).length →
            (all ++ c.1 ++ batches before).length < m := by
  constructor
  · intro hAll
    refine ⟨?_, fun before c' hPrefix => ?_⟩
    · have hFirst := hAll [] c (by simp)
      simpa [batches] using hFirst
    · have hNext := hAll (c :: before) c' (by simpa using hPrefix)
      simpa [batches, Nat.add_assoc] using hNext
  · rintro ⟨hFirst, hRest⟩ before c' hPrefix
    cases before with
    | nil =>
      simp only [List.nil_append, List.cons_prefix_cons, List.nil_prefix, and_true] at hPrefix
      subst hPrefix
      simpa [batches] using hFirst
    | cons x before =>
      obtain ⟨rfl, hTail⟩ := List.cons_prefix_cons.mp hPrefix
      have hNext := hRest before c' hTail
      simpa [batches, Nat.add_assoc] using hNext

/-- The calls from any state on; by induction, `all` grows by what each call brings. -/
theorem neverStops_iff {m : Nat} {all : List S} {calls : List (List S × Env κ)} {st : State S}
    (hPassed : Passed h m all st) (hAccepts : ∀ c ∈ calls, ∀ k, c.2.accepts k = true) :
    NeverStops h calls st ↔
      (∀ before c, before ++ [c] <+: calls →
        m < (all ++ batches (before ++ [c])).length → (all ++ batches before).length < m) ∧
      ∀ src ∈ (all ++ batches calls).take m, h.prepareResource src ≠ none := by
  induction calls generalizing all st with
  | nil =>
    constructor
    · intro _
      refine ⟨fun before c hPrefix => absurd hPrefix (by simp), ?_⟩
      simpa [batches] using hPassed.sent.prepared
    · exact fun _ => trivial
  | cons c calls ih =>
    have hRest : ∀ c ∈ calls, ∀ k, c.2.accepts k = true := fun c hMem =>
      hAccepts c (List.mem_cons_of_mem _ hMem)
    have hBatches : all ++ batches (c :: calls) = all ++ c.1 ++ batches calls := by
      simp [batches]
    rw [room_cons_iff, hBatches]
    constructor
    · rintro ⟨st', hPass, hForwards, hNext⟩
      obtain ⟨st₁, hPass₁, hPassed₁⟩ := pass_comes_back (hAccepts c List.mem_cons_self) hPassed
        (prepared_of_pass (hAccepts c List.mem_cons_self) hPassed hPass)
      cases hPass.symm.trans hPass₁
      obtain ⟨hRoom, hPrepared⟩ := (ih hPassed₁ hRest).mp hNext
      exact ⟨⟨(forwards_iff hPassed hPassed₁).mp hForwards, hRoom⟩, hPrepared⟩
    · rintro ⟨⟨hFirst, hRoom⟩, hPrepared⟩
      obtain ⟨st', hPass, hPassed'⟩ := pass_comes_back (hAccepts c List.mem_cons_self) hPassed
        (fun src hMem => hPrepared src
          (by rw [List.take_append]; exact List.mem_append_left _ hMem))
      exact ⟨st', hPass, (forwards_iff hPassed hPassed').mpr hFirst,
        (ih hPassed' hRest).mpr ⟨hRoom, hPrepared⟩⟩

theorem passed_new {m : Nat} {ordered : Bool} : Passed h m [] (State.new S m ordered) :=
  ⟨⟨rfl, rfl, by simp [State.new], by simp, by simp [State.new, State.accepted]⟩,
    by simp [State.new]⟩

/-- **When `Pass` goes on forwarding**: a call finds the counter at `maxRequests` only if there is
nothing to forward, and `PrepareResource` accepts what there is room for. -/
theorem pass_never_stops_iff (h : Hooks S) (maxRequests : Int) (ordered : Bool)
    (calls : List (List S × Env κ)) (hMax : 0 < maxRequests)
    (hAccepts : ∀ c ∈ calls, ∀ k, c.2.accepts k = true) :
    NeverStops h calls (State.new S maxRequests ordered) ↔
      (∀ before c, before ++ [c] <+: calls →
        maxRequests < (batches (before ++ [c])).length → (batches before).length < maxRequests) ∧
      ∀ src ∈ (batches calls).take maxRequests.toNat, h.prepareResource src ≠ none := by
  obtain ⟨m, rfl⟩ := Int.eq_ofNat_of_zero_le (Int.le_of_lt hMax)
  simpa using neverStops_iff passed_new hAccepts

def accepting : Env Unit := .alone (fun _ => true) [] 0

theorem pass_never_stops_two :
    NeverStops copying [([7, 8], accepting)] (State.new Nat 2 true) := by
  refine (pass_never_stops_iff copying 2 true _ (by decide) ?_).mpr ⟨?_, ?_⟩
  · simp [accepting, Env.alone]
  · intro before c hPrefix _
    have hNil : before = [] := by
      have hLength := hPrefix.length_le
      simp only [List.length_append, List.length_singleton] at hLength
      exact List.length_eq_zero_iff.mp (by omega)
    rw [hNil]
    decide
  · intro src _
    simp [copying]

/-- One request is allowed. The second resource stays where it is. -/
theorem pass_stops :
    (∀ k, accepting.accepts k = true) ∧
      ¬ NeverStops copying [([7], accepting), ([8], accepting)] (State.new Nat 1 true) := by
  refine ⟨fun _ => rfl, fun hNever => ?_⟩
  have hAccepts : ∀ c ∈ [([7], accepting), ([8], accepting)], ∀ k, c.2.accepts k = true := by
    simp [accepting, Env.alone]
  obtain ⟨hRoom, -⟩ := (neverStops_iff passed_new hAccepts).mp hNever
  exact absurd (hRoom [([7], accepting)] ([8], accepting) (List.prefix_refl _)) (by decide)

end HectorCore.Calls
