import HectorCore.Clients.Returned
import Mathlib.Logic.Relation

/-!
# ReadWrite — a module that calls another processing engine

`lib/processing_engine/CallProcessingEngine.cc`: `ReadWrite`, `Process` and `Pass`. The object takes
resources from `inputResources`, puts what `PrepareResource` makes of them into the input queue of
the called engine, and collects the results.

* The called engine is the one of `Clients`: a call of `GetProcessedResources` is a run of its
  clients in which the caller gets `finishedLock`, looks for its ids and returns.
* `ProcessResource` accepts or refuses; what it answers is up to the environment, and so are the
  order in which an `unordered_set` is visited and everything that happens in the engine.
* `PrepareResource` and `FinishResource` are virtual: parameters.
* `outputResources` holds all that has ever been pushed; `taken`, `offers` and `returned` are
  histories, and nothing depends on them.
-/

namespace HectorCore.Calls

open HectorCore.Clients (Resource Client Label Keyed Roles)

variable {κ : Type} [DecidableEq κ] {S : Type}

-- ---------------------------------------------------------------------------
-- The called engine
-- ---------------------------------------------------------------------------

/-- What the environment answers in one call of `ReadWrite`: to the resources that are offered, and
in the call of `GetProcessedResources`, which starts in the state `engine`. -/
structure Env (κ : Type) [DecidableEq κ] where
  accepts : Nat → Bool
  order : List Int → List Int
  engine : Clients.State κ
  caller : κ
  labels : List (Label κ)
  perm : ∀ ids, (order ids).Perm ids
  keyed : Keyed engine
  roles : Roles engine
  free : engine.lock = none
  outside : (engine.client caller).pc.inside = false

/-- The call of the engine: what is left of the ids, and the output, if it comes back. -/
def Env.getProcessed (e : Env κ) (ordered : Bool) (ids : List Int) (timeout : Bool) :
    Option Client :=
  match Lib.run Clients.step (e.engine.entered e.caller ordered ids timeout) e.labels with
  | none => none
  | some s =>
    match (s.client e.caller).pc with
    | .returned _ => some (s.client e.caller)
    | _ => none

/-- An engine with one caller, that looks `scans` times and finds `finished`. -/
def Env.alone (accepts : Nat → Bool) (finished : List Resource) (scans : Nat) : Env Unit where
  accepts := accepts
  order := id
  engine :=
    { Clients.initial fun _ => Client.new false [] false with
      finishedResources := fun i => finished.find? fun r => r.id = i }
  caller := ()
  labels := List.replicate scans (.scan ())
  perm := List.Perm.refl
  keyed := by
    intro i r hFound
    simpa using List.find?_some hFound
  roles :=
    have hRoles := Clients.roles_callers (fun _ : Unit => false) (fun _ => []) fun _ => false
    ⟨hRoles.lock, hRoles.reader, hRoles.timeout, hRoles.found⟩
  free := rfl
  outside := rfl

-- ---------------------------------------------------------------------------
-- CallProcessingEngine
-- ---------------------------------------------------------------------------

/-- `PrepareResource` and `FinishResource` -/
structure Hooks (S : Type) where
  prepareResource : S → Option Resource
  finishResource : Resource → S

/-- Every resource is prepared, and found again by its address. -/
def copying : Hooks Nat where
  prepareResource src := some ⟨src, src⟩
  finishResource r := r.ptr

/-- A resource that was offered to the engine: whether it was accepted, and whether its id was
running already. -/
structure Offer where
  resource : Resource
  accepted : Bool
  again : Bool
  deriving DecidableEq, Repr

structure State (S : Type) where
  maxRequests : Int
  ordered : Bool
  tmpInputResource : Option Resource
  running : Int
  runningSet : List Int
  runningVector : List Int
  inputResources : List S
  outputResources : List S
  taken : List S
  offers : List Offer
  returned : List Resource

/-- The constructor. -/
def State.new (S : Type) (maxRequests : Int) (ordered : Bool) : State S :=
  { maxRequests, ordered, tmpInputResource := none, running := 0, runningSet := [],
    runningVector := []
    inputResources := [], outputResources := [], taken := [], offers := [], returned := [] }

/-- Why a call has no result. -/
inductive Stuck where
  /-- `GetProcessedResources` has not come back. -/
  | waits
  /-- `outputResources` is used, and is NULL. -/
  | nullOutput
  /-- A loop goes on, and nothing more is known of the environment. -/
  | again
  deriving DecidableEq, Repr

namespace State

/-- The resources that the engine has accepted, in this order. -/
def accepted (st : State S) : List Resource := (st.offers.filter (·.accepted)).map (·.resource)

/-- `runningSet.insert(id)` or `runningVector.push_back(id)` -/
def insertRunning (id : Int) (st : State S) : State S :=
  if st.ordered then
    { st with runningSet := if id ∈ st.runningSet then st.runningSet else st.runningSet ++ [id] }
  else { st with runningVector := st.runningVector ++ [id] }

/-- `ProcessResource` with its answer: the resource runs, or is kept in `tmpInputResource`. -/
def offer (answer : Bool) (r : Resource) (st : State S) : State S :=
  let st := { st with offers := st.offers ++ [Offer.mk r answer (decide (r.id ∈ st.runningSet))] }
  if answer then
    { st.insertRunning r.id with running := st.running + 1, tmpInputResource := none }
  else { st with tmpInputResource := some r }

/-- The loop over `inputResources`; `k` resources have been offered in this call. -/
def writeInput (h : Hooks S) (accepts : Nat → Bool) (hasOutput : Bool) :
    List S → Nat → Bool → State S → Except Stuck (Bool × State S)
  | [], _, changed, st => .ok (changed, st)
  | src :: rest, k, changed, st =>
    if st.running < st.maxRequests then
      match h.prepareResource src with
      | some r =>
        let st := { st.offer (accepts k) r with inputResources := rest, taken := st.taken ++ [src] }
        if accepts k then writeInput h accepts hasOutput rest (k + 1) true st
        else .ok (changed, st)
      | none =>
        if hasOutput then
          writeInput h accepts hasOutput rest k changed
            { st with
              tmpInputResource := none, inputResources := rest
              outputResources := st.outputResources ++ [src], taken := st.taken ++ [src] }
        else .error .nullOutput
    else .ok (changed, st)

/-- The stored resource first, and then the others. -/
def write (h : Hooks S) (accepts : Nat → Bool) (hasOutput : Bool) (st : State S) :
    Except Stuck (Bool × State S) :=
  match st.tmpInputResource with
  | some r =>
    if st.running ≤ st.maxRequests then
      let st := st.offer (accepts 0) r
      if accepts 0 then writeInput h accepts hasOutput st.inputResources 1 true st
      else .ok (false, st)
    else writeInput h accepts hasOutput st.inputResources 0 false st
  | none => writeInput h accepts hasOutput st.inputResources 0 false st

/-- The results; `tv` says whether the call may wait for them. -/
def read (h : Hooks S) (e : Env κ) (tv : Bool) (changed : Bool) (st : State S) :
    Except Stuck (Bool × State S) :=
  if st.running = 0 then .ok (changed, st)
  else if st.ordered then
    match e.getProcessed false (e.order st.runningSet) tv with
    | none => .error .waits
    | some me =>
      .ok (changed || !me.output.isEmpty,
        { st with
          runningSet := me.ids, running := me.ids.length
          outputResources := st.outputResources ++ me.output.map h.finishResource
          returned := st.returned ++ me.output })
  else
    match e.getProcessed true st.runningVector tv with
    | none => .error .waits
    | some me =>
      .ok (changed || !me.output.isEmpty,
        { st with
          running := st.runningVector.length
          outputResources := st.outputResources ++ me.output.map h.finishResource
          returned := st.returned ++ me.output })

/-- `ReadWrite`: whether something has changed. -/
def readWrite (h : Hooks S) (e : Env κ) (hasOutput tv : Bool) (st : State S) :
    Except Stuck (Bool × State S) :=
  match st.write h e.accepts hasOutput with
  | .error stuck => .error stuck
  | .ok (changed, st) => if hasOutput then st.read h e tv changed else .ok (changed, st)

/-- `while (ReadWrite(inputResources, outputResources, NULL));` -/
def readWriteLoop (h : Hooks S) : List (Env κ) → State S → Except Stuck (State S × List (Env κ))
  | [], _ => .error .again
  | e :: envs, st =>
    match st.readWrite h e true false with
    | .error stuck => .error stuck
    | .ok (true, st) => readWriteLoop h envs st
    | .ok (false, st) => .ok (st, envs)

def parked (st : State S) : Int := if st.tmpInputResource.isSome then 1 else 0

/-- `Process`: what it returns, `expectingResources`, and the object. -/
def process (h : Hooks S) (envs : List (Env κ)) (st : State S) :
    Except Stuck (Int × Int × State S) :=
  match st.readWriteLoop h envs with
  | .error stuck => .error stuck
  | .ok (st, envs) =>
    if st.running = 0 then .ok (0, st.maxRequests - st.parked, st)
    else
      match envs with
      | [] => .error .again
      | e :: envs =>
        match st.readWrite h e true true with
        | .error stuck => .error stuck
        | .ok (_, st) =>
          match st.readWriteLoop h envs with
          | .error stuck => .error stuck
          | .ok (st, _) => .ok (st.running, st.maxRequests - st.running - st.parked, st)

/-- `Pass`, for an engine without an output queue. -/
def pass (h : Hooks S) (e : Env κ) (st : State S) : Except Stuck (State S) :=
  (st.readWrite h e false true).map Prod.snd

/-- The caller puts resources into `inputResources`. -/
def push (batch : List S) (st : State S) : State S :=
  { st with inputResources := st.inputResources ++ batch }

end State

-- ---------------------------------------------------------------------------
-- Sequences of calls
-- ---------------------------------------------------------------------------

/-- What happens to the object between two calls of `ReadWrite`, and such a call, with an output
queue. -/
inductive Round (κ : Type) [DecidableEq κ] (S : Type) where
  | push (batch : List S)
  | readWrite (e : Env κ) (tv : Bool)

/-- The same with calls of `Process`. -/
inductive Call (κ : Type) [DecidableEq κ] (S : Type) where
  | round (r : Round κ S)
  | process (envs : List (Env κ))

/-- What the caller has put into `inputResources`. -/
def given (rounds : List (Round κ S)) : List S :=
  rounds.flatMap fun r =>
    match r with
    | .push batch => batch
    | .readWrite _ _ => []

namespace State

def round (h : Hooks S) (st : State S) : Round κ S → Option (State S)
  | .push batch => some (st.push batch)
  | .readWrite e tv =>
    match st.readWrite h e true tv with
    | .error _ => none
    | .ok (_, st) => some st

def call (h : Hooks S) (st : State S) : Call κ S → Option (State S)
  | .round r => st.round h r
  | .process envs =>
    match st.process h envs with
    | .error _ => none
    | .ok (_, _, st) => some st

/-- The calls of `ReadWrite` in `readWriteLoop`. -/
def loopRounds (h : Hooks S) : List (Env κ) → State S → List (Round κ S)
  | [], _ => []
  | e :: envs, st =>
    match st.readWrite h e true false with
    | .error _ => []
    | .ok (true, st) => .readWrite e false :: loopRounds h envs st
    | .ok (false, _) => [.readWrite e false]

/-- The calls of `ReadWrite` in `Process`. -/
def processRounds (h : Hooks S) (envs : List (Env κ)) (st : State S) : List (Round κ S) :=
  st.loopRounds h envs ++
    match st.readWriteLoop h envs with
    | .error _ => []
    | .ok (_, []) => []
    | .ok (st, e :: envs) =>
      if st.running = 0 then []
      else
        .readWrite e true ::
          match st.readWrite h e true true with
          | .error _ => []
          | .ok (_, st) => st.loopRounds h envs

/-- The rounds of a sequence of calls. -/
def rounds (h : Hooks S) : List (Call κ S) → State S → List (Round κ S)
  | [], _ => []
  | c :: calls, st =>
    (match c with
      | .round r => [r]
      | .process envs => st.processRounds h envs) ++
    match st.call h c with
    | none => []
    | some st => rounds h calls st

end State

variable {h : Hooks S} {st st' : State S} {e : Env κ} {envs envs' : List (Env κ)}
  {changed changed' : Bool}
  {hasOutput tv : Bool} {accepts : Nat → Bool}

-- ---------------------------------------------------------------------------
-- One resource
-- ---------------------------------------------------------------------------

section Offer

variable (b : Bool) (r : Resource) (st : State S)

/-- What an offer changes. -/
theorem offer_eq :
    st.offer b r =
      { st with
        offers := st.offers ++ [⟨r, b, decide (r.id ∈ st.runningSet)⟩]
        running := if b then st.running + 1 else st.running
        tmpInputResource := if b then none else some r
        runningSet :=
          if b && st.ordered && !decide (r.id ∈ st.runningSet) then st.runningSet ++ [r.id]
          else st.runningSet
        runningVector :=
          if b && !st.ordered then st.runningVector ++ [r.id] else st.runningVector } := by
  cases b <;> cases hOrdered : st.ordered <;> simp [State.offer, State.insertRunning, hOrdered]

@[simp] theorem offer_maxRequests : (st.offer b r).maxRequests = st.maxRequests := by
  rw [offer_eq]

@[simp] theorem offer_ordered : (st.offer b r).ordered = st.ordered := by
  rw [offer_eq]

@[simp] theorem offer_inputResources : (st.offer b r).inputResources = st.inputResources := by
  rw [offer_eq]

@[simp] theorem offer_outputResources : (st.offer b r).outputResources = st.outputResources := by
  rw [offer_eq]

@[simp] theorem offer_taken : (st.offer b r).taken = st.taken := by
  rw [offer_eq]

@[simp] theorem offer_returned : (st.offer b r).returned = st.returned := by
  rw [offer_eq]

@[simp] theorem offer_offers :
    (st.offer b r).offers = st.offers ++ [⟨r, b, decide (r.id ∈ st.runningSet)⟩] := by
  rw [offer_eq]

@[simp] theorem offer_running :
    (st.offer b r).running = if b then st.running + 1 else st.running := by
  rw [offer_eq]

@[simp] theorem offer_tmpInputResource :
    (st.offer b r).tmpInputResource = if b then none else some r := by
  rw [offer_eq]

@[simp] theorem offer_runningSet :
    (st.offer b r).runningSet =
      if b && st.ordered && !decide (r.id ∈ st.runningSet) then st.runningSet ++ [r.id]
      else st.runningSet := by
  rw [offer_eq]

@[simp] theorem offer_runningVector :
    (st.offer b r).runningVector =
      if b && !st.ordered then st.runningVector ++ [r.id] else st.runningVector := by
  rw [offer_eq]

@[simp] theorem offer_accepted :
    (st.offer b r).accepted = if b then st.accepted ++ [r] else st.accepted := by
  cases b <;> simp [State.accepted]

end Offer

/-- What is done with one resource: with the stored one, with one that `PrepareResource` accepts,
and with one that it does not. -/
inductive Write (h : Hooks S) : Bool × State S → Bool × State S → Prop where
  | stored {changed : Bool} {st : State S} {r : Resource} (b : Bool)
      (hStored : st.tmpInputResource = some r) (hRoom : st.running ≤ st.maxRequests) :
      Write h (changed, st) (changed || b, st.offer b r)
  | offered {changed : Bool} {st : State S} {src : S} {rest : List S} {r : Resource} (b : Bool)
      (hNone : st.tmpInputResource = none) (hInput : st.inputResources = src :: rest)
      (hRoom : st.running < st.maxRequests) (hPrepare : h.prepareResource src = some r) :
      Write h (changed, st)
        (changed || b, { st.offer b r with inputResources := rest, taken := st.taken ++ [src] })
  | passed {changed : Bool} {st : State S} {src : S} {rest : List S}
      (hNone : st.tmpInputResource = none) (hInput : st.inputResources = src :: rest)
      (hPrepare : h.prepareResource src = none) :
      Write h (changed, st)
        (changed,
          { st with
            inputResources := rest, outputResources := st.outputResources ++ [src]
            taken := st.taken ++ [src] })

/-- What no resource changes. -/
theorem write_frame (hWrite : Write h (changed, st) (changed', st')) :
    st'.ordered = st.ordered ∧ st'.maxRequests = st.maxRequests ∧ st'.returned = st.returned := by
  cases hWrite with
  | stored b => simp
  | offered b => simp
  | passed => exact ⟨rfl, rfl, rfl⟩

/-- The loop goes on only as long as nothing is stored. -/
theorem writeInput_writes {k : Nat} {input : List S} (hInput : st.inputResources = input)
    (hNone : st.running < st.maxRequests → st.tmpInputResource = none)
    (hWrite : State.writeInput h accepts hasOutput input k changed st = .ok (changed', st')) :
    Relation.ReflTransGen (Write h) (changed, st) (changed', st') := by
  induction input generalizing k changed st with
  | nil =>
    simp only [State.writeInput, Except.ok.injEq] at hWrite
    rw [hWrite]
  | cons src rest ih =>
    unfold State.writeInput at hWrite
    split at hWrite
    · rename_i hRoom
      split at hWrite
      · rename_i r hPrepare
        have hOffered : Write h (changed, st) _ :=
          .offered (accepts k) (hNone hRoom) hInput hRoom hPrepare
        cases hAnswer : accepts k with
        | true =>
          rw [hAnswer] at hWrite hOffered
          rw [if_pos rfl] at hWrite
          refine .head hOffered ?_
          rw [Bool.or_true]
          exact ih rfl (fun _ => by simp) hWrite
        | false =>
          rw [hAnswer] at hWrite hOffered
          simp only [Bool.false_eq_true, if_false, Except.ok.injEq] at hWrite
          rw [Bool.or_false] at hOffered
          rw [← hWrite]
          exact .single hOffered
      · rename_i hPrepare
        split at hWrite
        · refine .head (Write.passed (hNone hRoom) hInput hPrepare) ?_
          rw [← hNone hRoom] at hWrite
          exact ih rfl hNone hWrite
        · exact absurd hWrite (by simp)
    · simp only [Except.ok.injEq] at hWrite
      rw [hWrite]

/-- **The writing half of `ReadWrite`**, resource by resource. -/
theorem write_writes (hWrite : st.write h accepts hasOutput = .ok (changed, st')) :
    Relation.ReflTransGen (Write h) (false, st) (changed, st') := by
  unfold State.write at hWrite
  split at hWrite
  · rename_i r hStored
    split at hWrite
    · rename_i hRoom
      have hOffered : Write h (false, st) _ := .stored (accepts 0) hStored hRoom
      cases hAnswer : accepts 0 with
      | true =>
        rw [hAnswer] at hWrite hOffered
        exact .head hOffered (writeInput_writes rfl (fun _ => by simp) hWrite)
      | false =>
        rw [hAnswer] at hWrite hOffered
        simp only [Bool.false_eq_true, if_false, Except.ok.injEq] at hWrite
        rw [← hWrite]
        exact .single hOffered
    · rename_i hRoom
      exact writeInput_writes rfl (fun hLess => absurd (Int.le_of_lt hLess) hRoom) hWrite
  · rename_i hNone
    exact writeInput_writes rfl (fun _ => hNone) hWrite

/-- What every resource leaves as it is holds after all of them. -/
theorem write_rule (Inv : Bool → State S → Prop)
    (hStep : ∀ {changed changed' : Bool} {st st' : State S}, Inv changed st →
      Write h (changed, st) (changed', st') → Inv changed' st')
    (hWrite : st.write h accepts hasOutput = .ok (changed, st')) (hInv : Inv false st) :
    Inv changed st' := by
  have hRun : ∀ {p q : Bool × State S}, Relation.ReflTransGen (Write h) p q → Inv p.1 p.2 →
      Inv q.1 q.2 := by
    intro p q hRun hInv
    induction hRun with
    | refl => exact hInv
    | tail _ hLast ih => exact hStep ih hLast
  exact hRun (write_writes hWrite) hInv

theorem write_invariant (Inv : State S → Prop)
    (hStep : ∀ {changed changed' : Bool} {st st' : State S}, Inv st →
      Write h (changed, st) (changed', st') → Inv st')
    (hWrite : st.write h accepts hasOutput = .ok (changed, st')) (hInv : Inv st) : Inv st' :=
  write_rule (fun _ => Inv) hStep hWrite hInv

-- ---------------------------------------------------------------------------
-- One call
-- ---------------------------------------------------------------------------

/-- What is done with the results: `GetProcessedResources` is called in the mode `ordered`, and
`GetProcessedResourcesOrdered` in the other. -/
inductive Read (h : Hooks S) (e : Env κ) (tv : Bool) : Bool × State S → Bool × State S → Prop where
  | idle {changed : Bool} {st : State S} (hIdle : st.running = 0) :
      Read h e tv (changed, st) (changed, st)
  | unordered {changed : Bool} {st : State S} {me : Client} (hBusy : st.running ≠ 0)
      (hMode : st.ordered = true)
      (hMe : e.getProcessed false (e.order st.runningSet) tv = some me) :
      Read h e tv (changed, st)
        (changed || !me.output.isEmpty,
          { st with
            runningSet := me.ids, running := me.ids.length
            outputResources := st.outputResources ++ me.output.map h.finishResource
            returned := st.returned ++ me.output })
  | ordered {changed : Bool} {st : State S} {me : Client} (hBusy : st.running ≠ 0)
      (hMode : st.ordered = false) (hMe : e.getProcessed true st.runningVector tv = some me) :
      Read h e tv (changed, st)
        (changed || !me.output.isEmpty,
          { st with
            running := st.runningVector.length
            outputResources := st.outputResources ++ me.output.map h.finishResource
            returned := st.returned ++ me.output })

theorem read_reads (hRead : st.read h e tv changed = .ok (changed', st')) :
    Read h e tv (changed, st) (changed', st') := by
  unfold State.read at hRead
  split at hRead
  · rename_i hIdle
    rw [Except.ok.injEq] at hRead
    rw [← hRead]
    exact .idle hIdle
  · rename_i hBusy
    split at hRead
    · rename_i hMode
      split at hRead
      · exact absurd hRead (by simp)
      · rename_i me hMe
        rw [Except.ok.injEq] at hRead
        rw [← hRead]
        exact .unordered hBusy hMode hMe
    · rename_i hMode
      split at hRead
      · exact absurd hRead (by simp)
      · rename_i me hMe
        rw [Except.ok.injEq] at hRead
        rw [← hRead]
        exact .ordered hBusy (by simpa using hMode) hMe

/-- **One call of `ReadWrite`** with an output queue. -/
theorem readWrite_halves (hCall : st.readWrite h e true tv = .ok (changed, st')) :
    ∃ changed₁ st₁, st.write h e.accepts true = .ok (changed₁, st₁) ∧
      Read h e tv (changed₁, st₁) (changed, st') := by
  unfold State.readWrite at hCall
  split at hCall
  · exact absurd hCall (by simp)
  · rename_i changed₁ st₁ hWrite
    rw [if_pos rfl] at hCall
    exact ⟨changed₁, st₁, hWrite, read_reads hCall⟩

theorem round_of_readWrite (hCall : st.readWrite h e true tv = .ok (changed, st')) :
    st.round h (.readWrite e tv) = some st' := by
  simp [State.round, hCall]

theorem readWrite_of_round (hRound : st.round h (.readWrite e tv) = some st') :
    ∃ changed, st.readWrite h e true tv = .ok (changed, st') := by
  unfold State.round at hRound
  dsimp only at hRound
  split at hRound
  · exact absurd hRound (by simp)
  · rename_i changed st₂ hCall
    cases Option.some.inj hRound
    exact ⟨changed, hCall⟩

theorem round_halves (hRound : st.round h (.readWrite e tv) = some st') :
    ∃ changed changed₁ st₁, st.write h e.accepts true = .ok (changed₁, st₁) ∧
      Read h e tv (changed₁, st₁) (changed, st') := by
  obtain ⟨changed, hCall⟩ := readWrite_of_round hRound
  exact ⟨changed, readWrite_halves hCall⟩

/-- What every resource, every engine call and the caller preserve holds after the round. -/
theorem round_invariant (Inv : State S → Prop) {r : Round κ S}
    (hPush : ∀ batch, r = .push batch → Inv st → Inv (st.push batch))
    (hStep : ∀ {changed changed' : Bool} {st st' : State S}, Inv st →
      Write h (changed, st) (changed', st') → Inv st')
    (hRead : ∀ e tv, r = .readWrite e tv → ∀ {changed changed' : Bool} {st st' : State S}, Inv st →
      Read h e tv (changed, st) (changed', st') → Inv st')
    (hInv : Inv st) (hRound : st.round h r = some st') : Inv st' := by
  cases r with
  | push batch =>
    cases Option.some.inj hRound
    exact hPush batch rfl hInv
  | readWrite e tv =>
    obtain ⟨changed, changed₁, st₁, hWrite, hReads⟩ := round_halves hRound
    exact hRead e tv rfl (write_invariant Inv hStep hWrite hInv) hReads

-- ---------------------------------------------------------------------------
-- The calls of ReadWrite in a sequence of calls
-- ---------------------------------------------------------------------------

theorem run_loopRounds (hLoop : st.readWriteLoop h envs = .ok (st', envs')) :
    Lib.run (State.round h) st (st.loopRounds h envs) = some st' := by
  induction envs generalizing st with
  | nil => exact absurd hLoop (by simp [State.readWriteLoop])
  | cons e envs ih =>
    unfold State.readWriteLoop at hLoop
    unfold State.loopRounds
    split at hLoop
    · exact absurd hLoop (by simp)
    · rename_i st₁ hCall
      exact Lib.run_cons_eq_some.mpr ⟨st₁, round_of_readWrite hCall, ih hLoop⟩
    · rename_i st₁ hCall
      simp only [Except.ok.injEq, Prod.mk.injEq] at hLoop
      refine Lib.run_cons_eq_some.mpr ⟨st₁, round_of_readWrite hCall, ?_⟩
      rw [Lib.run_nil, hLoop.1]

theorem mem_loopRounds {r : Round κ S} (hMem : r ∈ st.loopRounds h envs) :
    ∃ e ∈ envs, r = .readWrite e false := by
  induction envs generalizing st with
  | nil => exact absurd hMem (by simp [State.loopRounds])
  | cons e envs ih =>
    unfold State.loopRounds at hMem
    split at hMem
    · exact absurd hMem (by simp)
    · rcases List.mem_cons.mp hMem with rfl | hRest
      · exact ⟨e, List.mem_cons_self, rfl⟩
      · obtain ⟨e', he', hr⟩ := ih hRest
        exact ⟨e', List.mem_cons_of_mem _ he', hr⟩
    · exact ⟨e, List.mem_cons_self, List.mem_singleton.mp hMem⟩

theorem loop_suffix (hLoop : st.readWriteLoop h envs = .ok (st', envs')) : envs' <:+ envs := by
  induction envs generalizing st with
  | nil => exact absurd hLoop (by simp [State.readWriteLoop])
  | cons e envs ih =>
    unfold State.readWriteLoop at hLoop
    split at hLoop
    · exact absurd hLoop (by simp)
    · exact (ih hLoop).trans (List.suffix_cons _ _)
    · simp only [Except.ok.injEq, Prod.mk.injEq] at hLoop
      rw [← hLoop.2]
      exact List.suffix_cons _ _

/-- Nothing comes in during a call of `Process`. -/
theorem mem_processRounds {r : Round κ S} (hMem : r ∈ st.processRounds h envs) :
    ∃ e ∈ envs, ∃ tv, r = .readWrite e tv := by
  unfold State.processRounds at hMem
  rcases List.mem_append.mp hMem with hLoop | hMore
  · obtain ⟨e, he, hr⟩ := mem_loopRounds hLoop
    exact ⟨e, he, false, hr⟩
  · split at hMore
    · exact absurd hMore (by simp)
    · exact absurd hMore (by simp)
    · rename_i st₁ e rest hLoop
      have hSubset := (loop_suffix hLoop).subset
      split at hMore
      · exact absurd hMore (by simp)
      · rcases List.mem_cons.mp hMore with rfl | hRest
        · exact ⟨e, hSubset List.mem_cons_self, true, rfl⟩
        · split at hRest
          · exact absurd hRest (by simp)
          · obtain ⟨e', he', hr⟩ := mem_loopRounds hRest
            exact ⟨e', hSubset (List.mem_cons_of_mem _ he'), false, hr⟩

/-- What `Process` returns in either case, and that it is a sequence of calls of `ReadWrite`. -/
theorem process_result {n expecting : Int} (hCall : st.process h envs = .ok (n, expecting, st')) :
    n = st'.running ∧ expecting = st'.maxRequests - st'.running - st'.parked ∧
      Lib.run (State.round h) st (st.processRounds h envs) = some st' := by
  unfold State.process at hCall
  unfold State.processRounds
  split at hCall
  · exact absurd hCall (by simp)
  · rename_i st₁ rest hLoop
    split at hCall
    · rename_i hIdle
      simp only [Except.ok.injEq, Prod.mk.injEq] at hCall
      obtain ⟨rfl, rfl, rfl⟩ := hCall
      refine ⟨hIdle.symm, by rw [hIdle, Int.sub_zero], ?_⟩
      rw [hLoop]
      cases rest with
      | nil => simpa using run_loopRounds hLoop
      | cons e rest => simpa [hIdle] using run_loopRounds hLoop
    · rename_i hBusy
      cases rest with
      | nil => exact absurd hCall (by simp)
      | cons e rest =>
        dsimp only at hCall
        split at hCall
        · exact absurd hCall (by simp)
        · rename_i changed st₂ hOnce
          split at hCall
          · exact absurd hCall (by simp)
          · rename_i st₃ rest' hLoop'
            simp only [Except.ok.injEq, Prod.mk.injEq] at hCall
            obtain ⟨rfl, rfl, rfl⟩ := hCall
            refine ⟨rfl, rfl, ?_⟩
            rw [hLoop, Lib.run_append_eq_some]
            refine ⟨st₁, run_loopRounds hLoop, ?_⟩
            simp only [if_neg hBusy, hOnce]
            exact Lib.run_cons_eq_some.mpr ⟨st₂, round_of_readWrite hOnce, run_loopRounds hLoop'⟩

/-- **A sequence of calls is a sequence of calls of `ReadWrite`.** -/
theorem run_rounds {calls : List (Call κ S)} (hRun : Lib.run (State.call h) st calls = some st') :
    Lib.run (State.round h) st (st.rounds h calls) = some st' := by
  induction calls generalizing st with
  | nil => exact hRun
  | cons c calls ih =>
    obtain ⟨st₁, hFirst, hRest⟩ := Lib.run_cons_eq_some.mp hRun
    unfold State.rounds
    rw [hFirst, Lib.run_append_eq_some]
    refine ⟨st₁, ?_, ih hRest⟩
    cases c with
    | round r => exact Lib.run_cons_eq_some.mpr ⟨st₁, hFirst, rfl⟩
    | process envs =>
      unfold State.call at hFirst
      dsimp only at hFirst
      split at hFirst
      · exact absurd hFirst (by simp)
      · rename_i n expecting st₂ hCall
        cases Option.some.inj hFirst
        exact (process_result hCall).2.2

end HectorCore.Calls
