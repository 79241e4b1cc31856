import HectorCore.Lib.CText
import HectorCore.Lib.Run
import Mathlib.Logic.Function.Basic

/-!
# ObjectRegistry — which objects are registered

`lib/ObjectRegistry.cc`, with the constructors and the destructor of `lib/Object.h`. An object
registers itself when it is constructed, unless its id is taken: `RegisterObject` says so, and
nobody listens. The destructor unregisters whatever is registered under the id.

* An object is known by its address, which may be used again after its destruction.
* An id is a C string: bytes, none of which is zero.
* `registered` is a history: what `RegisterObject` has returned to the constructor.

The results:

* `sound_run`           — the registry never has an object that is dead or has another id;
* `stay_registered_iff` — when the registered objects stay registered.
-/

namespace HectorCore.Objects

open Lib (run Always AllOk run_invariant always_iff_allOk)

abbrev Str := List UInt8

-- ---------------------------------------------------------------------------
-- ObjectRegistry
-- ---------------------------------------------------------------------------

/-- `objects` -/
structure ObjectRegistry where
  objects : Str → Option Nat

namespace ObjectRegistry

/-- `RegisterObject` of an object with this id. -/
def registerObject (registry : ObjectRegistry) (obj : Nat) (id : Str) : Bool × ObjectRegistry :=
  match registry.objects id with
  | some _ => (false, registry)
  | none => (true, ⟨Function.update registry.objects id (some obj)⟩)

/-- `UnregisterObject` -/
def unregisterObject (registry : ObjectRegistry) (id : Str) : Bool × ObjectRegistry :=
  match registry.objects id with
  | some _ => (true, ⟨Function.update registry.objects id none⟩)
  | none => (false, registry)

/-- `GetObject` -/
def getObject (registry : ObjectRegistry) (id : Str) : Option Nat := registry.objects id

end ObjectRegistry

-- ---------------------------------------------------------------------------
-- Object
-- ---------------------------------------------------------------------------

/-- `objects` says whether the object has been given the registry, or `NULL`. -/
structure Object where
  objects : Bool
  id : Str
  registered : Bool
  deriving DecidableEq

/-- The registry and the objects that are alive, by their addresses. -/
structure State where
  registry : ObjectRegistry
  alive : Nat → Option Object

def init : State := ⟨⟨fun _ => none⟩, fun _ => none⟩

/-- `snprintf(s, sizeof(s), "%s[%d]", id, index)`, with 1024 bytes for `s` -/
def indexed (id : Str) (index : Int32) : Str :=
  (id ++ [91] ++ Lib.printInt index.toInt ++ [93]).take 1023

inductive Event where
  | construct (obj : Nat) (objects : Bool) (id : Str)
  | constructIndexed (obj : Nat) (objects : Bool) (id : Str) (index : Int32)
  | destruct (obj : Nat)

namespace State

/-- `Object(objects, id)` -/
def construct (s : State) (obj : Nat) (objects : Bool) (id : Str) : State :=
  let (registered, registry) :=
    if objects then s.registry.registerObject obj id else (false, s.registry)
  ⟨registry, Function.update s.alive obj (some ⟨objects, id, registered⟩)⟩

/-- `~Object()` -/
def destruct (s : State) (obj : Nat) (o : Object) : State :=
  let registry := if o.objects then (s.registry.unregisterObject o.id).2 else s.registry
  ⟨registry, Function.update s.alive obj none⟩

/-- An object is constructed where none is, and destroyed where one is. -/
def step (s : State) : Event → Option State
  | .construct obj objects id =>
    match s.alive obj with
    | some _ => none
    | none => some (s.construct obj objects id)
  | .constructIndexed obj objects id index =>
    match s.alive obj with
    | some _ => none
    | none => some (s.construct obj objects (indexed id index))
  | .destruct obj => (s.alive obj).map (s.destruct obj)

end State

/-- What is registered is alive and has the id, and what was registered is still there. -/
structure Kept (s : State) : Prop where
  sound : ∀ id obj, s.registry.getObject id = some obj → ∃ o, s.alive obj = some o ∧ o.id = id
  reachable : ∀ obj o, s.alive obj = some o → o.registered = true →
    s.registry.getObject o.id = some obj

/-- No object is destroyed while another one is registered under its id. -/
def LeavesOthers (s : State) : Event → Prop
  | .destruct obj => ∀ o, s.alive obj = some o → o.objects = true →
      ∀ other, s.registry.getObject o.id = some other → other = obj
  | _ => True

-- ---------------------------------------------------------------------------
-- One event
-- ---------------------------------------------------------------------------

variable {s s' : State} {e : Event} {obj : Nat} {o : Object} {id : Str}

/-- An entry of a map that has been changed in one place. -/
theorem update_eq_some {α β : Type} [DecidableEq α] {f : α → Option β} {a b : α}
    {v : Option β} {x : β}
    (h : Function.update f a v b = some x) : (b = a ∧ v = some x) ∨ (b ≠ a ∧ f b = some x) := by
  by_cases hSame : b = a
  · rw [hSame, Function.update_self] at h
    exact Or.inl ⟨hSame, h⟩
  · rw [Function.update_of_ne hSame] at h
    exact Or.inr ⟨hSame, h⟩

/-- What an event can be. -/
inductive Happens (s : State) : Event → State → Prop where
  | constructed {e : Event} {obj : Nat} (objects : Bool) (id : Str) (hFree : s.alive obj = none)
      (hOther : ∀ obj', e ≠ .destruct obj') : Happens s e (s.construct obj objects id)
  | destroyed {obj : Nat} {o : Object} (hAlive : s.alive obj = some o) :
      Happens s (.destruct obj) (s.destruct obj o)

theorem happens_of_step (hStep : s.step e = some s') : Happens s e s' := by
  cases e with
  | construct obj objects id =>
    unfold State.step at hStep
    dsimp only at hStep
    split at hStep
    · cases hStep
    · cases Option.some.inj hStep
      exact .constructed objects id ‹_› nofun
  | constructIndexed obj objects id index =>
    unfold State.step at hStep
    dsimp only at hStep
    split at hStep
    · cases hStep
    · cases Option.some.inj hStep
      exact .constructed objects (indexed id index) ‹_› nofun
  | destruct obj =>
    obtain ⟨o, hAlive, rfl⟩ := Option.map_eq_some_iff.mp hStep
    exact .destroyed hAlive

/-- The constructor: the object is registered if it has the registry and its id is free. -/
theorem construct_free (hId : s.registry.objects id = none) :
    s.construct obj true id =
      ⟨⟨Function.update s.registry.objects id (some obj)⟩,
        Function.update s.alive obj (some ⟨true, id, true⟩)⟩ := by
  simp [State.construct, ObjectRegistry.registerObject, hId]

theorem construct_refused {objects : Bool}
    (hRefused : objects = true → s.registry.objects id ≠ none) :
    s.construct obj objects id =
      ⟨s.registry, Function.update s.alive obj (some ⟨objects, id, false⟩)⟩ := by
  cases objects with
  | false => rfl
  | true =>
    obtain ⟨other, hTaken⟩ := Option.ne_none_iff_exists'.mp (hRefused rfl)
    simp [State.construct, ObjectRegistry.registerObject, hTaken]

/-- The destructor: nothing is registered under the id any more. -/
theorem destruct_objects (s : State) (obj : Nat) (o : Object) :
    (s.destruct obj o).registry.objects =
      if o.objects then Function.update s.registry.objects o.id none else s.registry.objects := by
  unfold State.destruct ObjectRegistry.unregisterObject
  dsimp only
  split
  · cases hFound : s.registry.objects o.id with
    | some other => rfl
    | none => exact (Function.update_eq_self_iff.mpr hFound.symm).symm
  · rfl

/-- What is registered is alive, has the id and had success. -/
structure Sound (s : State) : Prop where
  entry : ∀ id obj, s.registry.objects id = some obj →
    ∃ o, s.alive obj = some o ∧ o.id = id ∧ o.objects = true ∧ o.registered = true
  registered : ∀ obj o, s.alive obj = some o → o.registered = true → o.objects = true

theorem Sound.ne_of_free (h : Sound s) {other : Nat} (hFree : s.alive obj = none)
    (hFound : s.registry.objects id = some other) : other ≠ obj := by
  rintro rfl
  obtain ⟨o, hAlive, -⟩ := h.entry id other hFound
  rw [hFree] at hAlive
  cases hAlive

theorem sound_init : Sound init := ⟨nofun, nofun⟩

theorem sound_construct (h : Sound s) (objects : Bool) (id : Str) (hFree : s.alive obj = none) :
    Sound (s.construct obj objects id) := by
  have hOld : ∀ id' other, s.registry.objects id' = some other → ∀ o',
      ∃ o, Function.update s.alive obj o' other = some o ∧ o.id = id' ∧ o.objects = true ∧
        o.registered = true := by
    intro id' other hFound o'
    rw [Function.update_of_ne (h.ne_of_free hFree hFound)]
    exact h.entry id' other hFound
  by_cases hRegisters : objects = true ∧ s.registry.objects id = none
  · obtain ⟨rfl, hId⟩ := hRegisters
    rw [construct_free hId]
    constructor
    · intro id' other hFound
      obtain ⟨rfl, hNew⟩ | ⟨-, hEntry⟩ := update_eq_some hFound
      · cases hNew
        exact ⟨_, Function.update_self .., rfl, rfl, rfl⟩
      · exact hOld id' other hEntry _
    · intro obj' o' hAlive hRegistered
      obtain ⟨-, hNew⟩ | ⟨-, hBefore⟩ := update_eq_some hAlive
      · cases hNew
        rfl
      · exact h.registered obj' o' hBefore hRegistered
  · rw [construct_refused fun hObjects hId => hRegisters ⟨hObjects, hId⟩]
    constructor
    · exact fun id' other hFound => hOld id' other hFound _
    · intro obj' o' hAlive hRegistered
      obtain ⟨-, hNew⟩ | ⟨-, hBefore⟩ := update_eq_some hAlive
      · cases hNew
        cases hRegistered
      · exact h.registered obj' o' hBefore hRegistered

/-- The entry of an object, if it has one, is under its id. -/
theorem Sound.own (h : Sound s) (hAlive : s.alive obj = some o)
    (hFound : s.registry.objects id = some obj) :
    o.id = id ∧ o.objects = true ∧ o.registered = true := by
  obtain ⟨o', hAlive', hOwn⟩ := h.entry id obj hFound
  cases hAlive.symm.trans hAlive'
  exact hOwn

/-- What is left after a destruction belongs to others. -/
theorem Sound.left (h : Sound s) (hAlive : s.alive obj = some o) {other : Nat}
    (hFound : (s.destruct obj o).registry.objects id = some other) :
    s.registry.objects id = some other ∧ other ≠ obj := by
  rw [destruct_objects] at hFound
  split at hFound
  · obtain ⟨-, hNone⟩ | ⟨hNe, hEntry⟩ := update_eq_some hFound
    · cases hNone
    · refine ⟨hEntry, ?_⟩
      rintro rfl
      exact hNe (h.own hAlive hEntry).1.symm
  · rename_i hNull
    refine ⟨hFound, ?_⟩
    rintro rfl
    exact hNull (h.own hAlive hFound).2.1

theorem sound_destruct (h : Sound s) (hAlive : s.alive obj = some o) :
    Sound (s.destruct obj o) := by
  constructor
  · intro id other hFound
    obtain ⟨hEntry, hOther⟩ := h.left hAlive hFound
    obtain ⟨o', hAlive', hOwn⟩ := h.entry id other hEntry
    exact ⟨o', (Function.update_of_ne hOther ..).trans hAlive', hOwn⟩
  · intro obj' o' hAlive' hRegistered
    obtain ⟨-, hDead⟩ | ⟨-, hBefore⟩ := update_eq_some hAlive'
    · cases hDead
    · exact h.registered obj' o' hBefore hRegistered

theorem sound_step (s : State) (e : Event) (s' : State) (h : Sound s) (hStep : s.step e = some s') :
    Sound s' := by
  cases happens_of_step hStep with
  | constructed objects id hFree => exact sound_construct h objects id hFree
  | destroyed hAlive => exact sound_destruct h hAlive

theorem sound_run {events : List Event} (hRun : run State.step init events = some s) : Sound s :=
  run_invariant Sound sound_step hRun sound_init

-- ---------------------------------------------------------------------------
-- Registered until it dies
-- ---------------------------------------------------------------------------

/-- Only the second half can fail. -/
theorem Sound.kept_iff (h : Sound s) :
    Kept s ↔ ∀ obj o, s.alive obj = some o → o.registered = true →
      s.registry.objects o.id = some obj := by
  refine ⟨Kept.reachable, fun hReachable => ⟨fun id obj hFound => ?_, hReachable⟩⟩
  obtain ⟨o, hAlive, hId, -⟩ := h.entry id obj hFound
  exact ⟨o, hAlive, hId⟩

theorem kept_construct (h : Sound s) (hKept : Kept s) (objects : Bool) (id : Str)
    (hFree : s.alive obj = none) : Kept (s.construct obj objects id) := by
  refine (sound_construct h objects id hFree).kept_iff.mpr fun obj' o' hAlive hRegistered => ?_
  have hOld : s.alive obj' = some o' → s.registry.objects o'.id = some obj' :=
    fun hBefore => hKept.reachable obj' o' hBefore hRegistered
  by_cases hRegisters : objects = true ∧ s.registry.objects id = none
  · obtain ⟨rfl, hId⟩ := hRegisters
    rw [construct_free hId] at hAlive ⊢
    obtain ⟨rfl, hNew⟩ | ⟨-, hBefore⟩ := update_eq_some hAlive
    · cases hNew
      exact Function.update_self ..
    · -- the id of an object that is registered is not free
      refine (Function.update_of_ne ?_ ..).trans (hOld hBefore)
      rintro rfl
      rw [hOld hBefore] at hId
      cases hId
  · rw [construct_refused fun hObjects hId => hRegisters ⟨hObjects, hId⟩] at hAlive ⊢
    obtain ⟨-, hNew⟩ | ⟨-, hBefore⟩ := update_eq_some hAlive
    · cases hNew
      cases hRegistered
    · exact hOld hBefore

/-- A destruction keeps what is registered if and only if it is not another object. -/
theorem kept_destruct_iff (h : Sound s) (hKept : Kept s) (hAlive : s.alive obj = some o) :
    Kept (s.destruct obj o) ↔ (o.objects = true → ∀ other, s.registry.objects o.id = some other →
      other = obj) := by
  rw [(sound_destruct h hAlive).kept_iff]
  constructor
  · intro hReachable hObjects other hFound
    by_contra hNe
    obtain ⟨o', hAlive', hId, -, hRegistered⟩ := h.entry o.id other hFound
    have hStill := hReachable other o' ((Function.update_of_ne hNe ..).trans hAlive') hRegistered
    rw [destruct_objects, if_pos hObjects, hId, Function.update_self] at hStill
    cases hStill
  · intro hOwn obj' o' hAlive' hRegistered
    obtain ⟨-, hDead⟩ | ⟨hNe, hBefore⟩ := update_eq_some hAlive'
    · cases hDead
    · have hEntry := hKept.reachable obj' o' hBefore hRegistered
      rw [destruct_objects]
      split
      · rename_i hObjects
        refine (Function.update_of_ne ?_ ..).trans hEntry
        intro hId
        exact hNe (hOwn hObjects obj' (hId ▸ hEntry))
      · exact hEntry

/-- **When registered objects stay registered.** All along a run the registry maps ids to live
objects that have them, and finds every object that it has taken, if and only if no object is
destroyed while another one is registered under its id. -/
theorem stay_registered_iff {events : List Event} (hRun : run State.step init events = some s) :
    Always State.step Kept init events ↔ AllOk State.step LeavesOthers init events := by
  refine always_iff_allOk Sound sound_step ?_ hRun sound_init (sound_init.kept_iff.mpr nofun)
  intro s e s' h hKept hStep
  cases happens_of_step hStep with
  | constructed objects id hFree hOther =>
    refine iff_of_true (kept_construct h hKept objects id hFree) ?_
    cases e with
    | destruct obj' => exact absurd rfl (hOther obj')
    | _ => trivial
  | @destroyed obj o hAlive =>
    rw [kept_destruct_iff h hKept hAlive]
    constructor
    · intro hOwn o' hAlive' hObjects
      cases hAlive.symm.trans hAlive'
      exact hOwn hObjects
    · exact fun hLeaves => hLeaves o hAlive

/-- The second object with an id is refused, and dies after the first one. -/
theorem stay_registered_outlived :
    (∃ s, run State.step init
      [.construct 1 true [97], .construct 2 true [97], .destruct 1, .destruct 2] = some s) ∧
      Always State.step Kept init
        [.construct 1 true [97], .construct 2 true [97], .destruct 1, .destruct 2] := by
  refine ⟨⟨_, rfl⟩, (stay_registered_iff rfl).mpr ⟨trivial, ?_⟩⟩
  rintro _ ⟨⟩
  refine ⟨trivial, ?_⟩
  rintro _ ⟨⟩
  refine ⟨?_, ?_⟩
  · rintro _ ⟨⟩ _ _ ⟨⟩
    rfl
  · rintro _ ⟨⟩
    refine ⟨?_, fun _ _ => trivial⟩
    rintro _ ⟨⟩ _ _ ⟨⟩

/-- The second object with an id is refused, and takes the first one with it when it dies. -/
theorem taken_along :
    ∃ s, run State.step init [.construct 1 true [97], .construct 2 true [97], .destruct 2] =
      some s ∧
      s.alive 1 = some ⟨true, [97], true⟩ ∧ s.registry.getObject [97] = none ∧ ¬ Kept s := by
  refine ⟨_, rfl, rfl, rfl, fun hKept => ?_⟩
  cases hKept.reachable 1 ⟨true, [97], true⟩ rfl rfl

end HectorCore.Objects
