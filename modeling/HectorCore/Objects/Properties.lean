import HectorCore.Lib.Walk
import HectorCore.Objects.ObjectRegistry

/-!
# Properties — what an object shows of itself

`lib/ObjectProperties.h`: a table of getters, setters, and setters for the start; and of
`lib/Object.cc` the property that every object has, its log level. A module with several threads has
an object for each of them, and one logger for all.

* Loggers are known by their names. A logger that does not exist is one without a level.
* `getters` keeps the names in the order of their first `Add`, for want of the order of the hash
  table.

The results:

* `table_add`          — which setters a table has after any calls of `Add`;
* `initProperties_eq`  — what `InitProperties` has done when it returns;
* `getLogLevelStr_eq`  — whose level an object reports.
-/

namespace HectorCore.Objects

open Lib (walk lastWith)

-- ---------------------------------------------------------------------------
-- ObjectProperties
-- ---------------------------------------------------------------------------

variable {σ : Type}

/-- A member function that gets a property, and one that sets it; they are given its name. -/
abbrev Getter (σ : Type) := Str → σ → Option Str
abbrev Setter (σ : Type) := Str → Str → σ → σ

/-- The table. -/
structure ObjectProperties (σ : Type) where
  getters : List (Str × Getter σ)
  setters : Str → Option (Setter σ)
  initOnly : Str → Option (Setter σ)

/-- The arguments of `Add`. -/
structure Addition (σ : Type) where
  name : Str
  get : Getter σ
  set : Option (Setter σ)
  initOnly : Bool

namespace ObjectProperties

def new : ObjectProperties σ := ⟨[], fun _ => none, fun _ => none⟩

/-- `getters[name] = get` -/
def setGetter (getters : List (Str × Getter σ)) (name : Str) (get : Getter σ) :
    List (Str × Getter σ) :=
  if name ∈ getters.map Prod.fst then getters.map fun e => if e.1 = name then (name, get) else e
  else getters ++ [(name, get)]

/-- `Add` -/
def add (p : ObjectProperties σ) (a : Addition σ) : ObjectProperties σ :=
  let p := { p with getters := setGetter p.getters a.name a.get }
  match a.set with
  | none => p
  | some set =>
    if !a.initOnly then { p with setters := Function.update p.setters a.name (some set) }
    else { p with initOnly := Function.update p.initOnly a.name (some set) }

/-- `GetProperty` -/
def getProperty (p : ObjectProperties σ) (name : Str) (s : σ) : Option Str :=
  match p.getters.lookup name with
  | some get => get name s
  | none => none

/-- `SetProperty`; false without a setter. -/
def setProperty (p : ObjectProperties σ) (name value : Str) (s : σ) : Bool × σ :=
  match p.setters name with
  | some set => (true, set name value s)
  | none => (false, s)

/-- `ListProperties` -/
def listProperties (p : ObjectProperties σ) : List Str := p.getters.map Prod.fst

/-- The body of the loop of `InitProperties`. -/
def initOne (p : ObjectProperties σ) (ignoreUnknown : Bool) (param : Str × Str)
    (s : σ) : Bool × σ :=
  match p.setters param.1 with
  | some set => (true, set param.1 param.2 s)
  | none =>
    match p.initOnly param.1 with
    | some set => (true, set param.1 param.2 s)
    | none => (ignoreUnknown, s)

/-- `InitProperties` -/
def initProperties (p : ObjectProperties σ) (ignoreUnknown : Bool)
    (params : List (Str × Str)) (s : σ) :
    Bool × σ :=
  walk (p.initOne ignoreUnknown) params s

end ObjectProperties

-- ---------------------------------------------------------------------------
-- The log level
-- ---------------------------------------------------------------------------

/-- `log4cxx::Level` -/
inductive Level where
  | all
  | trace
  | debug
  | info
  | warn
  | error
  | fatal
  | off
  deriving DecidableEq, Repr

/-- The names that `GetLogLevelStr` and `SetLogLevel` know: "TRACE", "DEBUG", "INFO", "ERROR",
"FATAL". -/
def Level.str : Level → Option Str
  | .trace => some [84, 82, 65, 67, 69]
  | .debug => some [68, 69, 66, 85, 71]
  | .info => some [73, 78, 70, 79]
  | .error => some [69, 82, 82, 79, 82]
  | .fatal => some [70, 65, 84, 65, 76]
  | .all | .warn | .off => none

/-- What `SetLogLevel` compares with, in its order. -/
def Level.ofStr (logLevel : Str) : Option Level :=
  [Level.trace, .debug, .info, .error, .fatal].find? fun level => level.str = some logLevel

/-- "unknown" -/
def unknown : Str := [117, 110, 107, 110, 111, 119, 110]

/-- The levels that have been set. -/
structure Loggers where
  root : Level
  named : Str → Option Level

/-- The loggers above the logger of this name, the nearest one first: what is in front of a dot. -/
def ancestors (name : Str) : List Str :=
  ((List.range name.length).filter fun i => name[i]? = some 46).reverse.map name.take

namespace Loggers

/-- `GetLogLevelStr`, for a logger and those above it. -/
def getLogLevelStr (loggers : Loggers) : List Str → Str
  | [] => loggers.root.str.getD unknown
  | logger :: parents =>
    match (loggers.named logger).bind Level.str with
    | some str => str
    | none => loggers.getLogLevelStr parents

/-- The level of a logger, or of the nearest one above it that has one. -/
def getLogLevel (loggers : Loggers) (logger : Str) : Str :=
  loggers.getLogLevelStr (logger :: ancestors logger)

/-- `SetLogLevel` -/
def setLogLevel (loggers : Loggers) (logger logLevel : Str) : Bool × Loggers :=
  match Level.ofStr logLevel with
  | some level =>
    (true, { loggers with named := Function.update loggers.named logger (some level) })
  | none => (false, loggers)

end Loggers

-- ---------------------------------------------------------------------------
-- The tables
-- ---------------------------------------------------------------------------

/-- A call of `Add` that gives the property a setter. -/
def Addition.sets (a : Addition σ) : Bool := a.set.isSome && !a.initOnly

/-- A call of `Add` that gives it a setter for the start. -/
def Addition.inits (a : Addition σ) : Bool := a.set.isSome && a.initOnly

/-- The setter of the last call of `Add` for a name among those of one kind. -/
def lastSetter (kind : Addition σ → Bool) (adds : List (Addition σ)) (name : Str) :
    Option (Setter σ) :=
  (lastWith Addition.name name (adds.filter kind)).bind Addition.set

variable {p : ObjectProperties σ} {a : Addition σ} {name : Str}

/-- A later setter takes the place of an earlier one of its kind. -/
theorem lastSetter_append (kind : Addition σ → Bool) (adds : List (Addition σ)) (a : Addition σ)
    (name : Str) :
    lastSetter kind (adds ++ [a]) name =
      if kind a = true ∧ a.name = name then a.set else lastSetter kind adds name := by
  unfold lastSetter
  rw [List.filter_append]
  by_cases hKind : kind a = true
  · rw [List.filter_cons_of_pos hKind, List.filter_nil, Lib.lastWith_append]
    by_cases hName : a.name = name
    · rw [if_pos hName, if_pos ⟨hKind, hName⟩]
      rfl
    · rw [if_neg hName, if_neg fun hBoth => hName hBoth.2]
  · rw [List.filter_cons_of_neg hKind, List.filter_nil, List.append_nil,
      if_neg fun hBoth => hKind hBoth.1]

theorem names_setGetter (getters : List (Str × Getter σ)) (name : Str) (get : Getter σ) :
    (ObjectProperties.setGetter getters name get).map Prod.fst =
      if name ∈ getters.map Prod.fst then getters.map Prod.fst
      else getters.map Prod.fst ++ [name] := by
  unfold ObjectProperties.setGetter
  split_ifs with hMem
  · rw [List.map_map]
    refine List.map_congr_left fun e _ => ?_
    show (if e.1 = name then (name, get) else e).1 = e.1
    split_ifs with hName
    · exact hName.symm
    · rfl
  · rw [List.map_append]
    rfl

/-- A getter in its place. -/
theorem lookup_replace (getters : List (Str × Getter σ)) (name : Str) (get : Getter σ) (n : Str) :
    (getters.map fun e => if e.1 = name then (name, get) else e).lookup n =
      if n = name ∧ name ∈ getters.map Prod.fst then some get else getters.lookup n := by
  induction getters with
  | nil => simp
  | cons e getters ih =>
    obtain ⟨key, old⟩ := e
    by_cases hKey : key = name
    · subst hKey
      by_cases hName : n = key
      · subst hName
        simp
      · have hBeq : (n == key) = false := beq_eq_false_iff_ne.mpr hName
        simp only [List.map_cons, if_true, List.lookup_cons, hBeq, hName, false_and, if_false, ih]
    · by_cases hName : n = key
      · subst hName
        simp [hKey]
      · have hBeq : (n == key) = false := beq_eq_false_iff_ne.mpr hName
        simp only [List.map_cons, hKey, if_false, List.lookup_cons, hBeq, ih, List.mem_cons,
          Ne.symm hKey, false_or]

/-- The getter that was set last counts. -/
theorem lookup_setGetter (getters : List (Str × Getter σ)) (name : Str) (get : Getter σ) (n : Str) :
    (ObjectProperties.setGetter getters name get).lookup n =
      if name = n then some get else getters.lookup n := by
  unfold ObjectProperties.setGetter
  by_cases hMem : name ∈ getters.map Prod.fst
  · rw [if_pos hMem, lookup_replace]
    by_cases hName : name = n
    · rw [if_pos ⟨hName.symm, hMem⟩, if_pos hName]
    · rw [if_neg fun hBoth => hName hBoth.1.symm, if_neg hName]
  · rw [if_neg hMem, List.lookup_append]
    by_cases hName : name = n
    · subst hName
      have hNone : getters.lookup name = none := by
        rw [List.lookup_eq_none_iff]
        intro e he
        exact bne_iff_ne.mpr fun hSame => hMem (List.mem_map.mpr ⟨e, he, hSame.symm⟩)
      simp [hNone]
    · have hBeq : (n == name) = false := beq_eq_false_iff_ne.mpr (Ne.symm hName)
      simp [List.lookup_cons, hBeq, hName]

theorem getters_add (p : ObjectProperties σ) (a : Addition σ) :
    (p.add a).getters = ObjectProperties.setGetter p.getters a.name a.get := by
  unfold ObjectProperties.add
  dsimp only
  split
  · rfl
  · split_ifs <;> rfl

theorem setters_add (p : ObjectProperties σ) (a : Addition σ) (name : Str) :
    (p.add a).setters name = if a.sets = true ∧ a.name = name then a.set else p.setters name := by
  unfold ObjectProperties.add Addition.sets
  cases hSet : a.set with
  | none => simp
  | some set =>
    cases hOnly : a.initOnly with
    | true => simp
    | false =>
      by_cases hName : a.name = name
      · subst hName
        simp
      · simp [hName, Function.update_of_ne (Ne.symm hName)]

theorem initOnly_add (p : ObjectProperties σ) (a : Addition σ) (name : Str) :
    (p.add a).initOnly name =
      if a.inits = true ∧ a.name = name then a.set else p.initOnly name := by
  unfold ObjectProperties.add Addition.inits
  cases hSet : a.set with
  | none => simp
  | some set =>
    cases hOnly : a.initOnly with
    | false => simp
    | true =>
      by_cases hName : a.name = name
      · subst hName
        simp
      · simp [hName, Function.update_of_ne (Ne.symm hName)]

/-- What a table holds after these calls of `Add`. -/
structure Holds (adds : List (Addition σ)) (p : ObjectProperties σ) : Prop where
  setters : ∀ name, p.setters name = lastSetter Addition.sets adds name
  initOnly : ∀ name, p.initOnly name = lastSetter Addition.inits adds name
  getters : ∀ name, p.getters.lookup name = (lastWith Addition.name name adds).map Addition.get
  nodup : p.listProperties.Nodup
  listed : ∀ name, name ∈ p.listProperties ↔ ∃ a ∈ adds, a.name = name

/-- One more `Add`. -/
theorem Holds.add {adds : List (Addition σ)} (h : Holds adds p) (a : Addition σ) :
    Holds (adds ++ [a]) (p.add a) := by
  have hNames : (p.add a).listProperties =
      if a.name ∈ p.listProperties then p.listProperties else p.listProperties ++ [a.name] := by
    rw [ObjectProperties.listProperties, getters_add, names_setGetter]
    rfl
  refine ⟨fun name => ?_, fun name => ?_, fun name => ?_, ?_, fun name => ?_⟩
  · rw [setters_add, lastSetter_append, h.setters]
  · rw [initOnly_add, lastSetter_append, h.initOnly]
  · rw [getters_add, lookup_setGetter, Lib.lastWith_append, h.getters]
    split_ifs <;> rfl
  · rw [hNames]
    split_ifs with hMem
    · exact h.nodup
    · exact List.nodup_append.mpr ⟨h.nodup, List.pairwise_singleton _ _, fun n hn m hm hSame =>
        hMem (List.mem_singleton.mp hm ▸ hSame ▸ hn)⟩
  · have hStep : name ∈ (p.add a).listProperties ↔ name ∈ p.listProperties ∨ a.name = name := by
      rw [hNames]
      split_ifs with hMem
      · exact ⟨Or.inl, fun hOr => hOr.elim id fun hName => hName ▸ hMem⟩
      · rw [List.mem_append, List.mem_singleton, eq_comm (a := name)]
    rw [hStep, h.listed]
    simp only [List.mem_append, List.mem_singleton, or_and_right, exists_or, exists_eq_left]

/-- The setter that a parameter of the configuration goes to. -/
def ObjectProperties.initSetter (p : ObjectProperties σ) (name : Str) : Option (Setter σ) :=
  match p.setters name with
  | some set => some set
  | none => p.initOnly name

/-- There is a setter for the parameter. -/
def ObjectProperties.known (p : ObjectProperties σ) (param : Str × Str) : Bool :=
  (p.initSetter param.1).isSome

/-- What a parameter does, if there is one. -/
def ObjectProperties.assign (p : ObjectProperties σ) (s : σ) (param : Str × Str) : σ :=
  match p.initSetter param.1 with
  | some set => set param.1 param.2 s
  | none => s

theorem initOne_eq (p : ObjectProperties σ) (ignoreUnknown : Bool) (param : Str × Str) (s : σ) :
    p.initOne ignoreUnknown param s = (p.known param || ignoreUnknown, p.assign s param) := by
  unfold ObjectProperties.initOne ObjectProperties.known ObjectProperties.assign
    ObjectProperties.initSetter
  cases p.setters param.1 with
  | some set => rfl
  | none => cases p.initOnly param.1 <;> rfl

/-- A level is known by its name. -/
theorem ofStr_eq_some_iff {logLevel : Str} {level : Level} :
    Level.ofStr logLevel = some level ↔ level.str = some logLevel := by
  constructor
  · intro h
    unfold Level.ofStr at h
    have hStr := List.find?_some h
    exact of_decide_eq_true hStr
  · intro h
    cases level with
    | all => cases h
    | warn => cases h
    | off => cases h
    | _ => obtain rfl := Option.some.inj h; decide

/-- A name is above another one if the other one goes on behind a dot. -/
theorem mem_ancestors {name above : Str} : above ∈ ancestors name ↔ above ++ [46] <+: name := by
  unfold ancestors
  rw [List.mem_map]
  constructor
  · rintro ⟨i, hi, rfl⟩
    rw [List.mem_reverse, List.mem_filter, List.mem_range] at hi
    have hDot : name[i]? = some 46 := of_decide_eq_true hi.2
    have hTake : name.take (i + 1) = name.take i ++ [46] := by
      rw [List.take_add_one, hDot]
      rfl
    exact hTake ▸ List.take_prefix _ _
  · rintro ⟨rest, rfl⟩
    refine ⟨above.length, ?_, ?_⟩
    · rw [List.mem_reverse, List.mem_filter, List.mem_range]
      refine ⟨by simp only [List.length_append, List.length_cons]; omega, decide_eq_true ?_⟩
      rw [List.append_assoc, List.getElem?_append_right (Nat.le_refl _), Nat.sub_self]
      rfl
    · rw [List.append_assoc, List.take_left]

/-- The first level of the chain that has a name, or that of the root. -/
theorem getLogLevelStr_eq (loggers : Loggers) (chain : List Str) :
    loggers.getLogLevelStr chain =
      ((chain.findSome? fun n => (loggers.named n).bind Level.str).getD
        (loggers.root.str.getD unknown)) := by
  induction chain with
  | nil => rfl
  | cons logger parents ih =>
    rw [Loggers.getLogLevelStr, List.findSome?_cons]
    cases (loggers.named logger).bind Level.str with
    | some str => rfl
    | none => exact ih

end HectorCore.Objects
