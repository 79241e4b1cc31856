import HectorCore.Lib.Run
import HectorCore.Registry.Lookup

/-!
# History — what earlier lookups have to do with later ones

`NameToId`, `AcquireResource` and `GetAttrInfo` of `ResourceRegistry.cc`, one after the other in any
order. By type id the answers do not depend on the lookups before. A name belongs to the class that
was registered last, and so to another one after another history, if two classes share it.

* `lookup_spec`              — the answer to a lookup in a registry that has loaded some classes;
* `lookups_independent_iff`  — when the history does not matter.
-/

namespace HectorCore.Registry

open Lib (run run_invariant)

variable {P A : Type}

/-- A lookup by name or by id. -/
inductive Lookup where
  | nameToId (name : String)
  | acquireResource (typeId : Int32)
  | acquireNamed (typeString : String)
  | getAttrInfo (typeId : Int32) (name : String)
  deriving DecidableEq, Repr

/-- What the caller learns: the id, whether the resource is `NULL`, the `ResourceAttrInfo`. -/
inductive Answer (A : Type) where
  | id (typeId : Int32)
  | resource (there : Bool)
  | attrInfo (attrInfo : Option A)
  deriving DecidableEq, Repr

/-- The type, or the attribute, has been found. -/
def Answer.Found : Answer A → Prop
  | .id typeId => typeId ≠ -1
  | .resource there => there = true
  | .attrInfo o => o ≠ none

/-- Type id zero runs into the assertion of `LoadResourceLibrary`. -/
def Lookup.Asserted : Lookup → Prop
  | .acquireResource typeId | .getAttrInfo typeId _ => typeId = 0
  | _ => False

/-- Some class is what the lookup is for. -/
def Lookup.Provided (all : List (Class P A)) : Lookup → Prop
  | .nameToId name | .acquireNamed name => ∃ c ∈ all, c.typeString = name
  | .acquireResource typeId => ∃ c ∈ all, c.typeId = typeId
  | .getAttrInfo typeId name =>
    ∃ c ∈ all, c.typeId = typeId ∧ ∃ ai ∈ c.attrInfoList, ai.1 = name

/-- What the answer to a lookup can be, by the classes that the candidate files provide. -/
def Lookup.Answers (all : List (Class P A)) : Lookup → Answer A → Prop
  | .nameToId name, .id typeId => (∃ c ∈ all, c.typeString = name ∧ c.typeId = typeId) ∨
      (typeId = -1 ∧ ∀ c ∈ all, c.typeString ≠ name)
  | .acquireResource typeId, .resource there => there = true ↔ ∃ c ∈ all, c.typeId = typeId
  | .acquireNamed typeString, .resource there =>
      there = true ↔ ∃ c ∈ all, c.typeString = typeString
  | .getAttrInfo typeId name, .attrInfo attrInfo =>
      (∃ c ∈ all, c.typeId = typeId ∧
        attrInfo = (c.attrInfoList.reverse.find? fun ai => ai.1 = name).map (·.2)) ∨
      (attrInfo = none ∧ ∀ c ∈ all, c.typeId ≠ typeId)
  | _, _ => False

namespace State

variable {s s' : State P A} {seen all : List (Class P A)}

def lookup (s : State P A) (perl : PerlAnswer) : Lookup → Option (Answer A × State P A)
  | .nameToId name => (s.nameToId name).map fun (typeId, s) => (.id typeId, s)
  | .acquireResource typeId =>
    (s.acquireResource perl typeId).map fun (o, s) => (.resource o.isSome, s)
  | .acquireNamed typeString =>
    (s.acquireNamed perl typeString).map fun (o, s) => (.resource o.isSome, s)
  | .getAttrInfo typeId name => (s.getAttrInfo typeId name).map fun (o, s) => (.attrInfo o, s)

/-- A lookup of the history. -/
def afterLookup (s : State P A) (lookup : Lookup × PerlAnswer) : Option (State P A) :=
  (s.lookup lookup.2 lookup.1).map (·.2)

/-- What a lookup finds, when Perl does as it should. -/
def answer (s : State P A) (lookup : Lookup) : Option (Answer A) :=
  (s.lookup .created lookup).map (·.1)

/-- One lookup, after any history. -/
theorem lookup_spec (hCoherent : Coherent all) (h : Loaded all seen s)
    (hPositive : ∀ c ∈ all, 0 < c.typeId) (perl : PerlAnswer) {l : Lookup} (hl : ¬ l.Asserted) :
    ∃ a s', s.lookup perl l = some (a, s') ∧ (∃ seen', Loaded all seen' s') ∧
      (perl = .created → l.Answers all a) := by
  cases l with
  | nameToId name =>
    obtain ⟨typeId, s', hName, hLoaded, hAnswer⟩ := nameToId_spec hCoherent h name
    exact ⟨.id typeId, s', by rw [lookup, hName]; rfl, hLoaded, fun _ => hAnswer⟩
  | acquireResource typeId =>
    obtain ⟨o, s', hAcquire, hLoaded, hAnswer⟩ :=
      acquireResource_spec perl hCoherent h hPositive hl
    exact ⟨.resource o.isSome, s', by rw [lookup, hAcquire]; rfl, hLoaded, hAnswer⟩
  | acquireNamed typeString =>
    obtain ⟨typeId, s', hName, ⟨seen', hLoaded⟩, hAnswer⟩ := nameToId_spec hCoherent h typeString
    obtain ⟨c, hc, hSame, rfl⟩ | ⟨rfl, hMissing⟩ := hAnswer
    · obtain ⟨hNotZero, hNotMinus⟩ := ne_of_pos (hPositive c hc)
      obtain ⟨o, t, hAcquire, hLeft, hThere⟩ :=
        acquireResource_spec perl hCoherent hLoaded hPositive hNotZero
      have hNamed : s.acquireNamed perl typeString = some (o, t) := by
        rw [acquireNamed, hName]
        exact (if_pos hNotMinus).trans hAcquire
      refine ⟨.resource o.isSome, t, by rw [lookup, hNamed]; rfl, hLeft, fun hPerl => ?_⟩
      exact iff_of_true ((hThere hPerl).mpr ⟨c, hc, rfl⟩) ⟨c, hc, hSame⟩
    · have hNamed : s.acquireNamed perl typeString = some (none, s') := by
        rw [acquireNamed, hName]
        rfl
      refine ⟨.resource false, s', by rw [lookup, hNamed]; rfl, ⟨seen', hLoaded⟩, fun _ => ?_⟩
      exact iff_of_false nofun fun ⟨c, hc, hSame⟩ => hMissing c hc hSame
  | getAttrInfo typeId name =>
    obtain ⟨⟨found, s'⟩, hGet, ⟨seen', hLoaded, hHit⟩, hMiss, -⟩ := getInfo_spec hCoherent h hl
    cases found with
    | none =>
      have hNull : s.getAttrInfo typeId name = some (none, s') := by rw [getAttrInfo, hGet]
      refine ⟨.attrInfo none, s', by rw [lookup, hNull]; rfl, ⟨seen', hLoaded⟩, fun _ => ?_⟩
      exact Or.inr ⟨rfl, hMiss rfl⟩
    | some info =>
      obtain ⟨hMem, hType⟩ := hHit info rfl
      refine ⟨_, s', by rw [lookup, getAttrInfo, hGet]; rfl, ⟨seen', hLoaded⟩, fun _ => ?_⟩
      exact Or.inl ⟨info.cls, hLoaded.seen_subset hMem, hType, rfl⟩

/-- The assertion fails after every history alike. -/
theorem lookup_asserted (h : Loaded all seen s) (hPositive : ∀ c ∈ all, 0 < c.typeId)
    (perl : PerlAnswer) {l : Lookup} (hl : l.Asserted) : s.lookup perl l = none := by
  cases l with
  | nameToId | acquireNamed => exact hl.elim
  | acquireResource typeId =>
    obtain rfl : typeId = 0 := hl
    rw [lookup, acquireResource_zero h hPositive]
    rfl
  | getAttrInfo typeId name =>
    obtain rfl : typeId = 0 := hl
    rw [lookup, getAttrInfo, getInfo_zero h hPositive]
    rfl

theorem init_loaded {nativeFilenames : List (NativeFile P A)} {perlFilenames : List (PerlFile P A)}
    (hInterpreter : .noInterpreter ∉ perlFilenames) :
    Loaded (candidates nativeFilenames perlFilenames) [] (init nativeFilenames perlFilenames) :=
  ⟨rfl, ⟨⟨nofun, nofun⟩, ⟨nofun, nofun⟩⟩, hInterpreter⟩

theorem run_loaded {history : List (Lookup × PerlAnswer)} (hCoherent : Coherent all)
    (hPositive : ∀ c ∈ all, 0 < c.typeId) (h : ∃ seen, Loaded all seen s)
    (hRun : run afterLookup s history = some s') : ∃ seen, Loaded all seen s' := by
  refine run_invariant (fun s => ∃ seen, Loaded all seen s) ?_ hRun h
  rintro s ⟨l, perl⟩ s' ⟨seen, hLoaded⟩ hStep
  by_cases hl : l.Asserted
  · rw [afterLookup, lookup_asserted hLoaded hPositive perl hl] at hStep
    cases hStep
  · obtain ⟨a, t, hLookup, hLeft, -⟩ := lookup_spec hCoherent hLoaded hPositive perl hl
    rw [afterLookup, hLookup] at hStep
    cases hStep
    exact hLeft

end State

/-- The lookup finds what it is for, if it is there. -/
theorem Lookup.Answers.found_iff {all : List (Class P A)} (hPositive : ∀ c ∈ all, 0 < c.typeId)
    (hCoherent : Coherent all) {l : Lookup} {a : Answer A} (h : l.Answers all a) :
    a.Found ↔ l.Provided all := by
  cases l with
  | nameToId name =>
    cases a with
    | id typeId =>
      obtain ⟨c, hc, hSame, rfl⟩ | ⟨rfl, hMissing⟩ := h
      · exact iff_of_true (ne_of_pos (hPositive c hc)).2 ⟨c, hc, hSame⟩
      · exact iff_of_false (fun hFound => hFound rfl) fun ⟨c, hc, hSame⟩ => hMissing c hc hSame
    | resource | attrInfo => exact h.elim
  | acquireResource | acquireNamed =>
    cases a with
    | resource there => exact h
    | id | attrInfo => exact h.elim
  | getAttrInfo typeId name =>
    cases a with
    | attrInfo o =>
      obtain ⟨c, hc, hType, rfl⟩ | ⟨rfl, hMissing⟩ := h
      · have hSame : ∀ d ∈ all, d.typeId = typeId → d = c :=
          fun d hd hd' => hCoherent d hd c hc (hd'.trans hType.symm)
        constructor
        · intro hFound
          obtain ⟨value, hValue⟩ := Option.ne_none_iff_exists'.mp hFound
          obtain ⟨ai, hFind, -⟩ := Option.map_eq_some_iff.mp hValue
          refine ⟨c, hc, hType, ai, ?_, by simpa using List.find?_some hFind⟩
          exact List.mem_reverse.mp (List.mem_of_find?_eq_some hFind)
        · rintro ⟨d, hd, hdType, ai, hai, hName⟩ hNull
          rw [hSame d hd hdType] at hai
          have hFind := List.find?_eq_none.mp (Option.map_eq_none_iff.mp hNull) ai
            (List.mem_reverse.mpr hai)
          exact hFind (decide_eq_true hName)
      · exact iff_of_false (fun hFound => hFound rfl) fun ⟨c, hc, hType, _⟩ => hMissing c hc hType
    | id | resource => exact h.elim

/-- Where a name belongs to one type id, there is one answer. -/
theorem Lookup.Answers.unique {all : List (Class P A)} (hCoherent : Coherent all)
    (hNames : ∀ c ∈ all, ∀ d ∈ all, c.typeString = d.typeString → c.typeId = d.typeId)
    {l : Lookup} {a b : Answer A} (ha : l.Answers all a) (hb : l.Answers all b) : a = b := by
  cases l with
  | nameToId name =>
    cases a with
    | id typeId =>
      cases b with
      | id typeId' =>
        obtain ⟨c, hc, hSame, rfl⟩ | ⟨rfl, hMissing⟩ := ha
        · obtain ⟨d, hd, hSame', rfl⟩ | ⟨-, hMissing⟩ := hb
          · rw [hNames c hc d hd (hSame.trans hSame'.symm)]
          · exact absurd hSame (hMissing c hc)
        · obtain ⟨d, hd, hSame, -⟩ | ⟨rfl, -⟩ := hb
          · exact absurd hSame (hMissing d hd)
          · rfl
      | resource | attrInfo => exact hb.elim
    | resource | attrInfo => exact ha.elim
  | acquireResource | acquireNamed =>
    cases a with
    | resource there =>
      cases b with
      | resource there' => exact congrArg _ (Bool.eq_iff_iff.mpr (Iff.trans ha (Iff.symm hb)))
      | id | attrInfo => exact hb.elim
    | id | attrInfo => exact ha.elim
  | getAttrInfo typeId name =>
    cases a with
    | attrInfo o =>
      cases b with
      | attrInfo o' =>
        obtain ⟨c, hc, hType, rfl⟩ | ⟨rfl, hMissing⟩ := ha
        · obtain ⟨d, hd, hType', rfl⟩ | ⟨-, hMissing⟩ := hb
          · rw [hCoherent c hc d hd (hType.trans hType'.symm)]
          · exact absurd hType (hMissing c hc)
        · obtain ⟨d, hd, hType, -⟩ | ⟨rfl, -⟩ := hb
          · exact absurd hType (hMissing d hd)
          · rfl
      | id | resource => exact hb.elim
    | id | resource => exact ha.elim

section Independence

variable {nativeFilenames : List (NativeFile P A)} {perlFilenames : List (PerlFile P A)}

/-- The lookups of any history leave the answers as they are, and types are found if and only if
they are there. -/
structure Independent (nativeFilenames : List (NativeFile P A))
    (perlFilenames : List (PerlFile P A)) : Prop where
  same : ∀ history s,
    run State.afterLookup (State.init nativeFilenames perlFilenames) history = some s →
    ∀ l, s.answer l = (State.init nativeFilenames perlFilenames).answer l
  found : ∀ history s,
    run State.afterLookup (State.init nativeFilenames perlFilenames) history = some s →
    ∀ l, ¬ l.Asserted →
      ∃ a, s.answer l = some a ∧ (a.Found ↔ l.Provided (candidates nativeFilenames perlFilenames))

/-- Somebody has asked for an attribute of the class: its name is registered to it now. -/
theorem nameToId_after (hInterpreter : .noInterpreter ∉ perlFilenames)
    (hCoherent : Coherent (candidates nativeFilenames perlFilenames)) {c : Class P A}
    (hc : c ∈ candidates nativeFilenames perlFilenames) (hId : c.typeId ≠ 0) :
    ∃ s, run State.afterLookup (State.init nativeFilenames perlFilenames)
        [(.getAttrInfo c.typeId c.typeString, .created)] = some s ∧
      s.answer (.nameToId c.typeString) = some (.id c.typeId) := by
  obtain ⟨⟨found, s⟩, hGet, ⟨seen, hLoaded, hHit⟩, hMiss, hNamed⟩ :=
    State.getInfo_spec hCoherent (State.init_loaded hInterpreter) hId
  cases found with
  | none => exact absurd rfl (hMiss rfl c hc)
  | some info =>
    obtain ⟨hMem, hType⟩ := hHit info rfl
    obtain rfl : info.cls = c := hCoherent _ (hLoaded.seen_subset hMem) c hc hType
    have hName : s.name2id info.cls.typeString = some info.cls.typeId := hNamed rfl info rfl
    refine ⟨s, ?_, ?_⟩
    · simp [run, State.afterLookup, State.lookup, State.getAttrInfo, hGet]
    · simp [State.answer, State.lookup, State.nameToId, hName]

/-- The history of the lookups does not matter if and only if no two classes of different type ids
share a name: there the id found first is the answer until the other class is loaded, too. -/
theorem lookups_independent_iff (hInterpreter : .noInterpreter ∉ perlFilenames)
    (hPositive : ∀ c ∈ candidates nativeFilenames perlFilenames, 0 < c.typeId)
    (hCoherent : Coherent (candidates nativeFilenames perlFilenames)) :
    Independent nativeFilenames perlFilenames ↔
      ∀ c ∈ candidates nativeFilenames perlFilenames,
        ∀ d ∈ candidates nativeFilenames perlFilenames,
          c.typeString = d.typeString → c.typeId = d.typeId := by
  have hInit : State.Loaded (candidates nativeFilenames perlFilenames) []
      (State.init nativeFilenames perlFilenames) := State.init_loaded hInterpreter
  have hAnswers : ∀ s, (∃ seen, State.Loaded (candidates nativeFilenames perlFilenames) seen s) →
      ∀ l : Lookup, ¬ l.Asserted → ∃ a, s.answer l = some a ∧
        l.Answers (candidates nativeFilenames perlFilenames) a := by
    rintro s ⟨seen, hLoaded⟩ l hl
    obtain ⟨a, s', hLookup, -, hAnswer⟩ :=
      State.lookup_spec hCoherent hLoaded hPositive .created hl
    exact ⟨a, by rw [State.answer, hLookup]; rfl, hAnswer rfl⟩
  constructor
  · intro hIndependent c hc d hd hSame
    have hFresh : ∀ e ∈ candidates nativeFilenames perlFilenames,
        (State.init nativeFilenames perlFilenames).answer (.nameToId e.typeString) =
          some (.id e.typeId) := by
      intro e he
      obtain ⟨s, hRun, hAnswer⟩ :=
        nameToId_after hInterpreter hCoherent he (ne_of_pos (hPositive e he)).1
      exact (hIndependent.same _ s hRun _).symm.trans hAnswer
    have hBoth := (hFresh c hc).symm.trans (hSame ▸ hFresh d hd)
    exact Answer.id.inj (Option.some.inj hBoth)
  · intro hNames
    refine ⟨?_, ?_⟩
    · intro history s hRun l
      obtain ⟨seen, hLoaded⟩ := State.run_loaded hCoherent hPositive ⟨[], hInit⟩ hRun
      by_cases hl : l.Asserted
      · rw [State.answer, State.answer, State.lookup_asserted hLoaded hPositive .created hl,
          State.lookup_asserted hInit hPositive .created hl]
      · obtain ⟨a, hAnswer, ha⟩ := hAnswers s ⟨seen, hLoaded⟩ l hl
        obtain ⟨b, hFresh, hb⟩ := hAnswers _ ⟨[], hInit⟩ l hl
        rw [hAnswer, hFresh, ha.unique hCoherent hNames hb]
    · intro history s hRun l hl
      have hLoaded := State.run_loaded hCoherent hPositive ⟨[], hInit⟩ hRun
      obtain ⟨a, hAnswer, ha⟩ := hAnswers s hLoaded l hl
      exact ⟨a, hAnswer, ha.found_iff hPositive hCoherent⟩

end Independence

section Twins

/-- Classes of one name. -/
def twin (typeId : Int32) : Class Unit Unit := ⟨typeId, "Document", [("url", ())], (), id⟩

def twins : List (NativeFile Unit Unit) := [.provides (twin 1), .provides (twin 2)]

theorem lookups_independent_iff_twins :
    (∀ c ∈ candidates twins [], 0 < c.typeId) ∧
      (Independent twins [] ↔ ∀ c ∈ candidates twins [], ∀ d ∈ candidates twins [],
        c.typeString = d.typeString → c.typeId = d.typeId) := by
  have hPositive : ∀ c ∈ candidates twins [], 0 < c.typeId := by
    simp [candidates, twins, NativeFile.class?, twin]
  have hCoherent : Coherent (candidates twins []) := by
    simp [Coherent, candidates, twins, NativeFile.class?, twin]
  exact ⟨hPositive, lookups_independent_iff List.not_mem_nil hPositive hCoherent⟩

/-- `NameToId` returns the id of the first class, and after `AcquireResource` of the second class
the id of that. -/
theorem lookups_dependent :
    (∀ c ∈ candidates twins [], 0 < c.typeId) ∧ Coherent (candidates twins []) ∧
      (State.init twins []).answer (.nameToId "Document") = some (.id 1) ∧
      (run State.afterLookup (State.init twins []) [(.acquireResource 2, .created)]).bind
        (·.answer (.nameToId "Document")) = some (.id 2) ∧
      ¬ Independent twins [] := by
  have hFresh : (State.init twins []).answer (.nameToId "Document") = some (.id 1) := by decide
  have hLater : (run State.afterLookup (State.init twins []) [(.acquireResource 2, .created)]).bind
      (·.answer (.nameToId "Document")) = some (.id 2) := by decide
  refine ⟨?_, ?_, hFresh, hLater, ?_⟩
  · simp [candidates, twins, NativeFile.class?, twin]
  · simp [Coherent, candidates, twins, NativeFile.class?, twin]
  · intro hIndependent
    obtain ⟨s, hRun, hAnswer⟩ := Option.bind_eq_some_iff.mp hLater
    have hSame := hIndependent.same _ s hRun (.nameToId "Document")
    rw [hAnswer, hFresh] at hSame
    exact absurd hSame (by decide)

end Twins

end HectorCore.Registry
