import Mathlib
import HectorCore.Lib.Run
import HectorCore.Registry.Pools

/-!
# UniqueIds — the ids of the resources in use

"the Resource's id is unique (in memory) across all Resources" (`NOTES`). A resource is live from
the call that returns it (`AcquireResource`, `Clone`, `DeserializeResource`) to `ReleaseResource`.

An id is drawn from `nextId`, or, when a record has one, it is the one in the record. The counter
alone gives every live resource an id of its own until it has gone round all of `int`. A record
may hold any id: that of a live resource, and one that the counter will come to.

* `step_inv`              — `Inv`: live resources are outside the pools, with the id of their
  source;
* `returned_unique_iff`   — one call keeps the ids unique if and only if the source of the id that
  it gives does not clash with that of a live resource;
* `ids_unique_iff`        — so for whole runs;
* `ids_unique_of_counter` — runs without ids from streams.
-/

namespace HectorCore.Registry

open Lib (run AllOk Always always_iff_allOk)

variable {P A : Type}

-- ---------------------------------------------------------------------------
-- Callers of the registry
-- ---------------------------------------------------------------------------

/-- The registry, the resources that its callers hold, and where those have their ids from. -/
structure System (P A : Type) where
  reg : State P A
  live : List Nat
  source : Nat → Option Source

inductive Call (P : Type) where
  | acquire (typeId : Int32) (perl : PerlAnswer)
  | acquireNamed (typeString : String) (perl : PerlAnswer)
  | clone (p : Nat)
  | release (p : Nat)
  | deserialize (resourceType : Int32) (stream : Incoming P) (perl : PerlAnswer)

/-- The call reads no id from a stream. -/
def Call.DrawsId : Call P → Prop
  | .deserialize resourceType stream _ =>
    ∀ idStatus typeId, State.readType resourceType stream = some (idStatus, typeId) →
      idStatus = false
  | _ => True

/-- Where the resource that the call returns has its id from; `none` when it returns none. -/
def State.given (s : State P A) : Call P → Option Source
  | .acquire typeId perl => (s.idFor perl typeId).map .counter
  | .acquireNamed typeString perl => (s.idForName perl typeString).map .counter
  | .clone _ => some (.counter s.nextId)
  | .release _ => none
  | .deserialize resourceType stream perl => s.idFromStream perl resourceType stream

namespace System

def init (nativeFilenames : List (NativeFile P A)) (perlFilenames : List (PerlFile P A)) :
    System P A :=
  ⟨.init nativeFilenames perlFilenames, [], fun _ => none⟩

/-- A call returns: a pointer, or `NULL`. -/
def returned (s : System P A) (source : Option Source) : Option Nat × State P A → System P A
  | (none, reg) => { s with reg }
  | (some p, reg) =>
    { reg, live := p :: s.live, source := Function.update s.source p source }

/-- Only resources in use are cloned and released. -/
def step (s : System P A) (call : Call P) : Option (System P A) :=
  match call with
  | .acquire typeId perl => (s.reg.acquireResource perl typeId).map (s.returned (s.reg.given call))
  | .acquireNamed typeString perl =>
    (s.reg.acquireNamed perl typeString).map (s.returned (s.reg.given call))
  | .clone p =>
    if p ∈ s.live then
      (s.reg.heap p).map fun r =>
        let (q, reg) := s.reg.clone r
        s.returned (s.reg.given call) (some q, reg)
    else none
  | .release p =>
    if p ∈ s.live then
      (s.reg.releaseResource p).map fun reg => { s with reg, live := s.live.erase p }
    else none
  | .deserialize resourceType stream perl =>
    (s.reg.deserializeResource perl resourceType stream).map (s.returned (s.reg.given call))

/-- `GetId` -/
def idOf (s : System P A) (p : Nat) : Option Int32 := (s.reg.heap p).map (·.id)

/-- No two resources in use have the same id. -/
def UniqueIds (s : System P A) : Prop :=
  ∀ p ∈ s.live, ∀ q ∈ s.live, s.idOf p = s.idOf q → p = q

instance (s : System P A) : Decidable s.UniqueIds :=
  inferInstanceAs (Decidable (∀ p ∈ s.live, ∀ q ∈ s.live, s.idOf p = s.idOf q → p = q))

end System

-- ---------------------------------------------------------------------------
-- Clashes
-- ---------------------------------------------------------------------------

/-- The id from `new` is already that of `old`: the counter has gone round once or more since
`old`, or one of them is from a stream and happens to be the other. -/
def Source.Clash : Source → Source → Prop
  | .counter n, .counter m => m + 2 ^ 32 ≤ n ∧ m ≡ n [MOD 2 ^ 32]
  | new, old => new.id = old.id

instance : DecidableRel Source.Clash
  | .counter n, .counter m => inferInstanceAs (Decidable (m + 2 ^ 32 ≤ n ∧ m ≡ n [MOD 2 ^ 32]))
  | .counter n, .stream id => inferInstanceAs (Decidable (Int32.ofNat n = id))
  | .stream id, .counter n => inferInstanceAs (Decidable (id = Int32.ofNat n))
  | .stream id, .stream id' => inferInstanceAs (Decidable (id = id'))

/-- The id that the call gives does not clash with that of a resource in use. -/
def System.Fresh (s : System P A) (call : Call P) : Prop :=
  ∀ new ∈ s.reg.given call, ∀ p ∈ s.live, ∀ old ∈ s.source p, ¬ new.Clash old

instance (s : System P A) (call : Call P) : Decidable (s.Fresh call) :=
  inferInstanceAs
    (Decidable (∀ new ∈ s.reg.given call, ∀ p ∈ s.live, ∀ old ∈ s.source p, ¬ new.Clash old))

theorem int32_ofNat_eq_iff (n m : Nat) : Int32.ofNat n = Int32.ofNat m ↔ n ≡ m [MOD 2 ^ 32] := by
  rw [← Int32.toBitVec_inj, ← BitVec.toNat_inj, Int32.toBitVec_ofNat', Int32.toBitVec_ofNat',
    BitVec.toNat_ofNat, BitVec.toNat_ofNat]
  exact Iff.rfl

/-- Of two ids from the counter the later one clashes with the earlier one only a round later. -/
theorem Source.clash_iff {new old : Source}
    (hOlder : ∀ n m, new = .counter n → old = .counter m → m < n) :
    new.Clash old ↔ new.id = old.id := by
  cases new with
  | stream id => exact Iff.rfl
  | counter n =>
    cases old with
    | stream id => exact Iff.rfl
    | counter m =>
      show m + 2 ^ 32 ≤ n ∧ m ≡ n [MOD 2 ^ 32] ↔ Int32.ofNat n = Int32.ofNat m
      rw [int32_ofNat_eq_iff]
      constructor
      · intro h
        exact h.2.symm
      · intro h
        exact ⟨h.symm.add_le_of_lt (hOlder n m rfl rfl), h.symm⟩

-- ---------------------------------------------------------------------------
-- The invariant
-- ---------------------------------------------------------------------------

namespace System

structure Inv (s : System P A) : Prop where
  wf : s.reg.WF
  nodup : s.live.Nodup
  out : ∀ p ∈ s.live, ∃ r o, s.reg.Out p r ∧ s.source p = some o ∧ r.id = o.id
  older : ∀ p ∈ s.live, ∀ m, s.source p = some (.counter m) → m < s.reg.nextId

variable {s s' : System P A} {p : Nat} {call : Call P} {source : Option Source}
  {result : Option Nat × State P A}

theorem inv_init (nativeFilenames : List (NativeFile P A)) (perlFilenames : List (PerlFile P A)) :
    (init nativeFilenames perlFilenames).Inv := by
  refine ⟨⟨fun _ _ => rfl, nofun, nofun, nofun⟩, List.nodup_nil, ?_, ?_⟩
  · intro p hp
    cases hp
  · intro p hp
    cases hp

theorem Inv.idOf_eq (h : s.Inv) (hp : p ∈ s.live) {o : Source} (ho : s.source p = some o) :
    s.idOf p = some o.id := by
  obtain ⟨r, o', hOut, ho', hId⟩ := h.out p hp
  cases ho.symm.trans ho'
  rw [idOf, hOut.1, Option.map_some, hId]

/-- A call that does not return a resource and leaves alone what is live after it. -/
theorem Inv.of_keeps {gone : Option Nat} {reg : State P A} {live : List Nat} (h : s.Inv)
    (hKeeps : State.Keeps gone s.reg reg) (hNodup : live.Nodup)
    (hLive : ∀ p ∈ live, p ∈ s.live ∧ gone ≠ some p) : Inv { s with reg, live } := by
  refine ⟨hKeeps.wf, hNodup, ?_, ?_⟩
  · intro p hp
    obtain ⟨hMem, hGone⟩ := hLive p hp
    obtain ⟨r, o, hOut, hSource, hId⟩ := h.out p hMem
    exact ⟨r, o, hKeeps.out p r hGone hOut, hSource, hId⟩
  · intro p hp m hm
    exact Nat.lt_of_lt_of_le (h.older p (hLive p hp).1 m hm) hKeeps.nextId

/-- What a call returns is not live before. -/
theorem Inv.not_mem {o : Source} {reg : State P A} (h : s.Inv)
    (hHands : State.Hands p o s.reg reg) : p ∉ s.live := by
  intro hp
  obtain ⟨r, _, hOut, -⟩ := h.out p hp
  exact hHands.new r hOut

theorem Inv.returned (h : s.Inv) (hAnswers : State.Answers source s.reg result) :
    (s.returned source result).Inv := by
  obtain ⟨_ | p, reg⟩ := result
  · exact h.of_keeps hAnswers.2 h.nodup fun p hp => ⟨hp, nofun⟩
  · obtain ⟨o, rfl, hHands⟩ := hAnswers
    have hp := h.not_mem hHands
    have hKept := h.of_keeps hHands.keeps h.nodup fun p hp => ⟨hp, nofun⟩
    obtain ⟨r, hOut, hId⟩ := hHands.out
    refine ⟨hHands.keeps.wf, List.nodup_cons.mpr ⟨hp, h.nodup⟩, ?_, ?_⟩
    · intro q hq
      show ∃ r o', reg.Out q r ∧ Function.update s.source p (some o) q = some o' ∧ r.id = o'.id
      obtain rfl | hq := List.mem_cons.mp hq
      · exact ⟨r, o, hOut, Function.update_self .., hId⟩
      · rw [Function.update_of_ne (ne_of_mem_of_not_mem hq hp)]
        exact hKept.out q hq
    · intro q hq m hm
      have hm : Function.update s.source p (some o) q = some (.counter m) := hm
      show m < reg.nextId
      obtain rfl | hq := List.mem_cons.mp hq
      · rw [Function.update_self] at hm
        exact (hHands.counted m (Option.some.inj hm)).2
      · rw [Function.update_of_ne (ne_of_mem_of_not_mem hq hp)] at hm
        exact hKept.older q hq m hm

/-- What a step is: a call that returns, or a release. -/
theorem step_cases (h : s.Inv) (hStep : s.step call = some s') :
    (∃ result, State.Answers (s.reg.given call) s.reg result ∧
      s' = s.returned (s.reg.given call) result) ∨
    (∃ p reg, call = .release p ∧ State.Keeps (some p) s.reg reg ∧
      s' = { s with reg, live := s.live.erase p }) := by
  cases call with
  | acquire typeId perl =>
    obtain ⟨result, hCall, rfl⟩ := Option.map_eq_some_iff.mp hStep
    exact Or.inl ⟨result, State.acquireResource_answers h.wf hCall, rfl⟩
  | acquireNamed typeString perl =>
    obtain ⟨result, hCall, rfl⟩ := Option.map_eq_some_iff.mp hStep
    exact Or.inl ⟨result, State.acquireNamed_answers h.wf hCall, rfl⟩
  | clone p =>
    simp only [step] at hStep
    split at hStep
    · obtain ⟨r, -, rfl⟩ := Option.map_eq_some_iff.mp hStep
      exact Or.inl ⟨(some (s.reg.clone r).1, (s.reg.clone r).2),
        ⟨_, rfl, State.clone_hands h.wf r⟩, rfl⟩
    · cases hStep
  | release p =>
    simp only [step] at hStep
    split at hStep
    · rename_i hp
      obtain ⟨reg, hRelease, rfl⟩ := Option.map_eq_some_iff.mp hStep
      obtain ⟨r, _, hOut, -⟩ := h.out p hp
      exact Or.inr ⟨p, reg, rfl, State.releaseResource_keeps h.wf hOut hRelease, rfl⟩
    · cases hStep
  | deserialize resourceType stream perl =>
    obtain ⟨result, hCall, rfl⟩ := Option.map_eq_some_iff.mp hStep
    exact Or.inl ⟨result, State.deserializeResource_answers h.wf hCall, rfl⟩

/-- What is still live after the release of `p`. -/
theorem Inv.of_mem_erase {q : Nat} (h : s.Inv) (hq : q ∈ s.live.erase p) :
    q ∈ s.live ∧ some p ≠ some q := by
  obtain ⟨hne, hMem⟩ := h.nodup.mem_erase_iff.mp hq
  exact ⟨hMem, fun hEq => hne (Option.some.inj hEq).symm⟩

theorem step_inv (h : s.Inv) (hStep : s.step call = some s') : s'.Inv := by
  obtain ⟨result, hAnswers, rfl⟩ | ⟨p, reg, rfl, hKeeps, rfl⟩ := step_cases h hStep
  · exact h.returned hAnswers
  · exact h.of_keeps hKeeps (h.nodup.erase p) fun q hq => h.of_mem_erase hq

-- ---------------------------------------------------------------------------
-- Unique ids
-- ---------------------------------------------------------------------------

/-- What is live before and after the call keeps its id. -/
theorem Inv.idOf_of_keeps {gone : Option Nat} {reg : State P A} (h : s.Inv)
    (hKeeps : State.Keeps gone s.reg reg) (hp : p ∈ s.live) (hGone : gone ≠ some p)
    (live : List Nat) (sources : Nat → Option Source) :
    idOf { reg, live, source := sources } p = s.idOf p := by
  obtain ⟨r, _, hOut, -⟩ := h.out p hp
  show (reg.heap p).map (·.id) = (s.reg.heap p).map (·.id)
  rw [(hKeeps.out p r hGone hOut).1, hOut.1]

/-- Resources whose ids do not change stay unique, however few they are. -/
theorem UniqueIds.of_keeps {gone : Option Nat} {reg : State P A} {live : List Nat} (h : s.Inv)
    (hUnique : s.UniqueIds) (hKeeps : State.Keeps gone s.reg reg)
    (hLive : ∀ p ∈ live, p ∈ s.live ∧ gone ≠ some p) : UniqueIds { s with reg, live } := by
  intro p hp q hq hId
  obtain ⟨hp, hGoneP⟩ := hLive p hp
  obtain ⟨hq, hGoneQ⟩ := hLive q hq
  rw [h.idOf_of_keeps hKeeps hp hGoneP, h.idOf_of_keeps hKeeps hq hGoneQ] at hId
  exact hUnique p hp q hq hId

theorem returned_unique_iff (h : s.Inv) (hUnique : s.UniqueIds)
    (hAnswers : State.Answers source s.reg result) :
    (s.returned source result).UniqueIds ↔
      ∀ new ∈ source, ∀ p ∈ s.live, ∀ old ∈ s.source p, ¬ new.Clash old := by
  obtain ⟨_ | p, reg⟩ := result
  · obtain ⟨rfl, hKeeps⟩ := hAnswers
    have hKept : (s.returned none (none, reg)).UniqueIds :=
      hUnique.of_keeps h hKeeps fun p hp => ⟨hp, nofun⟩
    exact ⟨fun _ => nofun, fun _ => hKept⟩
  · obtain ⟨new, rfl, hHands⟩ := hAnswers
    have hNew : (s.returned (some new) (some p, reg)).idOf p = some new.id := by
      obtain ⟨r, hOut, hId⟩ := hHands.out
      show (reg.heap p).map (·.id) = some new.id
      rw [hOut.1, Option.map_some, hId]
    have hOld : ∀ q ∈ s.live, (s.returned (some new) (some p, reg)).idOf q = s.idOf q :=
      fun q hq => h.idOf_of_keeps hHands.keeps hq nofun _ _
    have hClash : ∀ q ∈ s.live, ∀ old, s.source q = some old →
        (new.Clash old ↔ s.idOf q = some new.id) := by
      intro q hq old hSource
      rw [h.idOf_eq hq hSource, Option.some.injEq, Source.clash_iff, eq_comm]
      rintro n m rfl rfl
      exact Nat.lt_of_lt_of_le (h.older q hq m hSource) (hHands.counted n rfl).1
    have hp := h.not_mem hHands
    constructor
    · rintro hUnique' _ ⟨⟩ q hq old hSource hCl
      have hSame : (s.returned (some new) (some p, reg)).idOf p =
          (s.returned (some new) (some p, reg)).idOf q := by
        rw [hNew, hOld q hq]
        exact ((hClash q hq old hSource).mp hCl).symm
      exact hp (hUnique' p List.mem_cons_self q (List.mem_cons_of_mem _ hq) hSame ▸ hq)
    · intro hFresh
      -- the new id is not that of a resource that was live
      have hDiffer : ∀ q ∈ s.live, s.idOf q ≠ some new.id := by
        intro q hq hId
        obtain ⟨_, old, -, hSource, -⟩ := h.out q hq
        exact hFresh new rfl q hq old hSource ((hClash q hq old hSource).mpr hId)
      intro q hq q' hq' hId
      obtain hqp | hqLive := List.mem_cons.mp hq <;> obtain hqp' | hqLive' := List.mem_cons.mp hq'
      · rw [hqp, hqp']
      · rw [hqp, hNew, hOld q' hqLive'] at hId
        exact absurd hId.symm (hDiffer q' hqLive')
      · rw [hqp', hNew, hOld q hqLive] at hId
        exact absurd hId (hDiffer q hqLive)
      · rw [hOld q hqLive, hOld q' hqLive'] at hId
        exact hUnique q hqLive q' hqLive' hId

theorem step_unique_iff (h : s.Inv) (hUnique : s.UniqueIds) (hStep : s.step call = some s') :
    s'.UniqueIds ↔ s.Fresh call := by
  obtain ⟨result, hAnswers, rfl⟩ | ⟨p, reg, rfl, hKeeps, rfl⟩ := step_cases h hStep
  · exact returned_unique_iff h hUnique hAnswers
  · have hReleased : UniqueIds { s with reg, live := s.live.erase p } :=
      hUnique.of_keeps h hKeeps fun q hq => h.of_mem_erase hq
    exact ⟨fun _ => nofun, fun _ => hReleased⟩

/-- The ids of the live resources are unique all along a run if and only if no call gives a
resource an id that clashes with that of a live one. -/
theorem ids_unique_iff (nativeFilenames : List (NativeFile P A))
    (perlFilenames : List (PerlFile P A)) {calls : List (Call P)}
    (hRun : run step (init nativeFilenames perlFilenames) calls = some s) :
    Always step UniqueIds (init nativeFilenames perlFilenames) calls ↔
      AllOk step Fresh (init nativeFilenames perlFilenames) calls := by
  refine always_iff_allOk Inv (fun _ _ _ => step_inv) (fun _ _ _ => step_unique_iff) hRun
    (inv_init _ _) ?_
  intro p hp
  cases hp

/-- `TestResource` -/
def testResource : Class (List UInt8) Unit :=
  { typeId := 1, typeString := "TestResource"
    attrInfoList := [("id", ()), ("status", ()), ("str", ())], create := [], clear := fun _ => [] }

/-- A record of a `TestResource` with an id. -/
def storedRecord (id : UInt32) : Incoming (List UInt8) :=
  { type := some 0x81, id := some id, status := some 0, deserialize := (true, [97]) }

theorem ids_unique_iff_storedIds :
    ∃ s, run step (init [.provides testResource] [])
        [.acquire 1 .created, .deserialize 0 (storedRecord 77) .created, .clone 0, .release 0,
          .acquireNamed "TestResource" .created] = some s ∧
      Always step UniqueIds (init [.provides testResource] [])
        [.acquire 1 .created, .deserialize 0 (storedRecord 77) .created, .clone 0, .release 0,
          .acquireNamed "TestResource" .created] :=
  ⟨_, rfl, (ids_unique_iff [.provides testResource] [] rfl).mpr (by decide)⟩

/-- A resource is acquired, and then one is read whose record has its id. -/
theorem stored_id_of_live_resource :
    ¬ ∀ (calls : List (Call (List UInt8))) (s : System (List UInt8) Unit),
      run step (init [.provides testResource] []) calls = some s → s.UniqueIds := by
  intro h
  have hUnique := h [.acquire 1 .created, .deserialize 0 (storedRecord 2) .created] _ rfl
  revert hUnique
  decide

-- ---------------------------------------------------------------------------
-- Ids from the counter only
-- ---------------------------------------------------------------------------

theorem given_counter {s : State P A} {new : Source} (hDraws : call.DrawsId)
    (hGiven : s.given call = some new) : ∃ n, new = .counter n := by
  cases call with
  | acquire typeId perl =>
    obtain ⟨n, -, rfl⟩ := Option.map_eq_some_iff.mp hGiven
    exact ⟨n, rfl⟩
  | acquireNamed typeString perl =>
    obtain ⟨n, -, rfl⟩ := Option.map_eq_some_iff.mp hGiven
    exact ⟨n, rfl⟩
  | clone p => exact ⟨s.nextId, (Option.some.inj hGiven).symm⟩
  | release p => cases hGiven
  | deserialize resourceType stream perl =>
    simp only [State.given, State.idFromStream] at hGiven
    split at hGiven
    · cases hGiven
    · rename_i idStatus typeId hType
      have hNone : idStatus = false := hDraws idStatus typeId hType
      rw [hNone] at hGiven
      split at hGiven
      · obtain ⟨n, -, hCounter⟩ := Option.bind_eq_some_iff.mp hGiven
        exact ⟨n, (Option.some.inj hCounter).symm⟩
      · cases hGiven

/-- The counter goes up, past the id that a call draws. -/
theorem step_nextId (h : s.Inv) (hStep : s.step call = some s') :
    s.reg.nextId ≤ s'.reg.nextId ∧
      ∀ n, s.reg.given call = some (.counter n) → n < s'.reg.nextId := by
  obtain ⟨⟨_ | p, reg⟩, hAnswers, rfl⟩ | ⟨p, reg, rfl, hKeeps, rfl⟩ := step_cases h hStep
  · obtain ⟨hNone, hKeeps⟩ := hAnswers
    refine ⟨hKeeps.nextId, ?_⟩
    rw [hNone]
    exact nofun
  · obtain ⟨o, hGiven, hHands⟩ := hAnswers
    refine ⟨hHands.keeps.nextId, ?_⟩
    intro n hn
    exact (hHands.counted n (Option.some.inj (hGiven.symm.trans hn))).2
  · exact ⟨hKeeps.nextId, nofun⟩

theorem run_nextId {calls : List (Call P)} (h : s.Inv) (hRun : run step s calls = some s') :
    s.reg.nextId ≤ s'.reg.nextId := by
  induction calls generalizing s with
  | nil =>
    cases hRun
    exact Nat.le_refl _
  | cons call calls ih =>
    obtain ⟨t, hFirst, hRest⟩ := Lib.run_cons_eq_some.mp hRun
    exact Nat.le_trans (step_nextId h hFirst).1 (ih (step_inv h hFirst) hRest)

/-- All live resources have their ids from the counter. -/
def Counted (s : System P A) : Prop := ∀ p ∈ s.live, ∀ o ∈ s.source p, ∃ m, o = .counter m

theorem step_counted (h : s.Inv) (hCounted : s.Counted) (hDraws : call.DrawsId)
    (hStep : s.step call = some s') : s'.Counted := by
  obtain ⟨⟨_ | p, reg⟩, hAnswers, rfl⟩ | ⟨p, reg, rfl, hKeeps, rfl⟩ := step_cases h hStep
  · exact hCounted
  · obtain ⟨new, hGiven, hHands⟩ := hAnswers
    intro q hq o ho
    have ho : Function.update s.source p (s.reg.given call) q = some o := ho
    obtain rfl | hqLive := List.mem_cons.mp hq
    · rw [Function.update_self] at ho
      exact given_counter hDraws ho
    · rw [Function.update_of_ne (ne_of_mem_of_not_mem hqLive (h.not_mem hHands))] at ho
      exact hCounted q hqLive o ho
  · intro q hq
    exact hCounted q (h.of_mem_erase hq).1

/-- **The counter alone keeps the ids unique**, as long as it has not gone round: in every run that
reads no id from a stream and draws fewer than 2^32 ids. -/
theorem ids_unique_of_counter {calls : List (Call P)} (h : s.Inv) (hUnique : s.UniqueIds)
    (hCounted : s.Counted) (hDraws : ∀ call ∈ calls, call.DrawsId)
    (hRun : run step s calls = some s') (hFew : s'.reg.nextId ≤ 2 ^ 32) : s'.UniqueIds := by
  induction calls generalizing s with
  | nil =>
    cases hRun
    exact hUnique
  | cons call calls ih =>
    obtain ⟨t, hFirst, hRest⟩ := Lib.run_cons_eq_some.mp hRun
    have ht := step_inv h hFirst
    have hCall := hDraws call List.mem_cons_self
    have hFresh : s.Fresh call := by
      intro new hNew p hp old hOld hClash
      obtain ⟨n, rfl⟩ := given_counter hCall hNew
      obtain ⟨m, rfl⟩ := hCounted p hp old hOld
      have hLt := (step_nextId h hFirst).2 n hNew
      have hLe := run_nextId ht hRest
      have hRound : m + 2 ^ 32 ≤ n := hClash.1
      omega
    exact ih ht ((step_unique_iff h hUnique hFirst).mpr hFresh)
      (step_counted h hCounted hCall hFirst)
      (fun call hMem => hDraws call (List.mem_cons_of_mem _ hMem)) hRest

end System

end HectorCore.Registry
