import HectorCore.Registry.Loading
import Mathlib.Data.List.Basic

/-!
# Lookup — what a lookup finds

`LoadResourceLibrary`, `NameToId` and `AcquireResource` of `ResourceRegistry.cc`. The candidate
files are loaded one after the other until the wanted class is there; what was loaded on the way is
in the maps. A class of a new type id takes over its name, whoever had it.

* `createMapping_registers`       — the maps know what has been loaded, and nothing else;
* `loadResourceLibrary_searches`  — a search finds a wanted class, if there is one to come;
* `getInfo_spec`, `nameToId_spec`, `acquireResource_spec` — the lookups, after any history.
-/

namespace HectorCore.Registry

variable {P A : Type}

/-- The class that a candidate file provides. -/
def NativeFile.class? : NativeFile P A → Option (Class P A)
  | .provides c => some c
  | _ => none

def PerlFile.class? : PerlFile P A → Option (Class P A)
  | .provides c => some c
  | _ => none

/-- The classes that the candidate files provide, in the order in which they are tried. -/
def candidates (nativeFilenames : List (NativeFile P A)) (perlFilenames : List (PerlFile P A)) :
    List (Class P A) :=
  nativeFilenames.filterMap NativeFile.class? ++ perlFilenames.filterMap PerlFile.class?

/-- Classes of one type id are one class. -/
def Coherent (all : List (Class P A)) : Prop := ∀ c ∈ all, ∀ d ∈ all, c.typeId = d.typeId → c = d

/-- A positive type id is none of those that stand for something else. -/
theorem ne_of_pos {typeId : Int32} (h : 0 < typeId) : typeId ≠ 0 ∧ typeId ≠ -1 := by
  constructor
  · rintro rfl
    exact absurd h (by decide)
  · rintro rfl
    exact absurd h (by decide)

theorem Coherent.of_subset {all all' : List (Class P A)} (h : Coherent all) (hSub : all' ⊆ all) :
    Coherent all' :=
  fun c hc d hd => h c (hSub hc) d (hSub hd)

-- ---------------------------------------------------------------------------
-- What the maps know
-- ---------------------------------------------------------------------------

/-- The type ids in the map are those of the classes in `seen`. -/
structure KnowsIds (seen : List (Class P A)) (id2info : Int32 → Option (Info P A)) : Prop where
  info : ∀ t info, id2info t = some info → info.cls ∈ seen ∧ info.cls.typeId = t
  known : ∀ c ∈ seen, id2info c.typeId ≠ none

/-- The names in the map are those of the classes in `seen`, each with the id of one of them. -/
structure KnowsNames (seen : List (Class P A)) (name2id : String → Option Int32) : Prop where
  named : ∀ n t, name2id n = some t → ∃ c ∈ seen, c.typeString = n ∧ c.typeId = t
  known : ∀ c ∈ seen, name2id c.typeString ≠ none

section Maps

variable {seen : List (Class P A)} {id2info : Int32 → Option (Info P A)}
  {name2id : String → Option Int32} {c : Class P A}

theorem KnowsIds.update (h : KnowsIds seen id2info) (info : Info P A) :
    KnowsIds (seen ++ [info.cls]) (Function.update id2info info.cls.typeId (some info)) := by
  constructor
  · intro t info' hFound
    by_cases ht : t = info.cls.typeId
    · rw [ht, Function.update_self] at hFound
      obtain rfl := Option.some.inj hFound
      exact ⟨List.mem_append_right _ (List.mem_singleton.mpr rfl), ht.symm⟩
    · rw [Function.update_of_ne ht] at hFound
      obtain ⟨hSeen, hType⟩ := h.info t info' hFound
      exact ⟨List.mem_append_left _ hSeen, hType⟩
  · intro d hd
    by_cases ht : d.typeId = info.cls.typeId
    · rw [ht, Function.update_self]
      exact nofun
    · rw [Function.update_of_ne ht]
      obtain hSeen | hNew := List.mem_append.mp hd
      · exact h.known d hSeen
      · exact absurd (congrArg _ (List.mem_singleton.mp hNew)) ht

/-- Another record of a class that is known. -/
theorem KnowsIds.replace (h : KnowsIds seen id2info) (info : Info P A) (hSeen : info.cls ∈ seen) :
    KnowsIds seen (Function.update id2info info.cls.typeId (some info)) := by
  have hUpdate := h.update info
  refine ⟨?_, fun d hd => hUpdate.known d (List.mem_append_left _ hd)⟩
  intro t info' hFound
  obtain ⟨hMem, hType⟩ := hUpdate.info t info' hFound
  obtain hOld | hNew := List.mem_append.mp hMem
  · exact ⟨hOld, hType⟩
  · exact ⟨List.mem_singleton.mp hNew ▸ hSeen, hType⟩

theorem KnowsNames.update (h : KnowsNames seen name2id) (c : Class P A) :
    KnowsNames (seen ++ [c]) (Function.update name2id c.typeString (some c.typeId)) := by
  constructor
  · intro n t hName
    by_cases hn : n = c.typeString
    · rw [hn, Function.update_self] at hName
      exact ⟨c, List.mem_append_right _ (List.mem_singleton.mpr rfl), hn.symm,
        Option.some.inj hName⟩
    · rw [Function.update_of_ne hn] at hName
      obtain ⟨d, hd, hSame⟩ := h.named n t hName
      exact ⟨d, List.mem_append_left _ hd, hSame⟩
  · intro d hd
    by_cases hn : d.typeString = c.typeString
    · rw [hn, Function.update_self]
      exact nofun
    · rw [Function.update_of_ne hn]
      obtain hSeen | hNew := List.mem_append.mp hd
      · exact h.known d hSeen
      · exact absurd (congrArg _ (List.mem_singleton.mp hNew)) hn

/-- A class that is known already is loaded once more. -/
theorem KnowsNames.again (h : KnowsNames seen name2id) (hSeen : c ∈ seen) :
    KnowsNames (seen ++ [c]) name2id := by
  constructor
  · intro n t hName
    obtain ⟨d, hd, hSame⟩ := h.named n t hName
    exact ⟨d, List.mem_append_left _ hd, hSame⟩
  · intro d hd
    obtain hOld | hNew := List.mem_append.mp hd
    · exact h.known d hOld
    · rw [List.mem_singleton.mp hNew]
      exact h.known c hSeen

end Maps

namespace State

variable {s s' : State P A} {seen all : List (Class P A)}

/-- The maps know the classes in `seen`, and no others. -/
structure Registers (seen : List (Class P A)) (s : State P A) : Prop where
  ids : KnowsIds seen s.id2info
  names : KnowsNames seen s.name2id

/-- A class that is loaded is registered, if it was not before. -/
theorem createMapping_registers (h : s.Registers seen) (perl : Bool) (c : Class P A)
    (hCoherent : Coherent (seen ++ [c])) :
    (s.createMapping perl c).1.cls = c ∧ (s.createMapping perl c).2.Registers (seen ++ [c]) := by
  unfold createMapping
  cases hInfo : s.id2info c.typeId with
  | none =>
    have hCreated : (s.create c).2.id2info c.typeId = none := hInfo
    simp only [hCreated]
    exact ⟨trivial, h.ids.update ⟨c, perl, [(s.create c).1]⟩, h.names.update c⟩
  | some info =>
    have hCreated : (s.create c).2.id2info c.typeId = some info := hInfo
    simp only [hCreated]
    obtain ⟨hSeen, hType⟩ := h.ids.info c.typeId info hInfo
    have hCls : info.cls = c := by
      refine hCoherent _ (List.mem_append_left _ hSeen) c ?_ hType
      exact List.mem_append_right _ (List.mem_singleton.mpr rfl)
    subst hCls
    exact ⟨rfl, h.ids.update { info with available := (s.create info.cls).1 :: info.available },
      h.names.again hSeen⟩

/-- A type id stays unknown as long as no class of it is loaded. -/
theorem Registers.stays_unknown {tried : List (Class P A)} {typeId : Int32} (h : s.Registers seen)
    (h' : s'.Registers (seen ++ tried)) (hNew : s.id2info typeId = none)
    (hOther : ∀ c ∈ tried, c.typeId ≠ typeId) : s'.id2info typeId = none := by
  by_contra hKnown
  obtain ⟨info, hInfo⟩ := Option.ne_none_iff_exists'.mp hKnown
  obtain ⟨hMem, hType⟩ := h'.ids.info typeId info hInfo
  obtain hSeen | hTried := List.mem_append.mp hMem
  · exact h.ids.known _ hSeen (hType ▸ hNew)
  · exact hOther _ hTried hType

-- ---------------------------------------------------------------------------
-- LoadResourceLibrary
-- ---------------------------------------------------------------------------

/-- The test at the end of both loops, for a class. -/
def Wanted (typeString : Option String) (typeId : Int32) (c : Class P A) : Prop :=
  (typeId ≠ 0 ∧ c.typeId = typeId) ∨ typeString = some c.typeString

theorem wanted_iff {typeString : Option String} {typeId : Int32} {info : Info P A} :
    wanted typeString typeId info = true ↔ Wanted typeString typeId info.cls := by
  simp [wanted, Wanted]

/-- A loop has tried the files of the classes `tried` when it ends in `found`. -/
structure Found (typeString : Option String) (typeId : Int32) (seen tried : List (Class P A))
    (s : State P A) (found : Option (Info P A) × State P A) : Prop where
  registers : found.2.Registers (seen ++ tried)
  hit : ∀ info ∈ found.1, info.cls ∈ tried ∧ Wanted typeString typeId info.cls
  /-- A search for a new type id registers the name of the class that it finds. -/
  named : typeString = none → typeId ≠ 0 → s.id2info typeId = none →
    ∀ info ∈ found.1, found.2.name2id info.cls.typeString = some info.cls.typeId
  miss : found.1 = none → ∀ c ∈ tried, ¬ Wanted typeString typeId c

variable {typeString : Option String} {typeId : Int32} {found : Option (Info P A) × State P A}
  {c : Class P A} {perl : Bool}

/-- There are no files to try. -/
theorem Found.nil (h : s.Registers seen) (hIds : s'.id2info = s.id2info)
    (hNames : s'.name2id = s.name2id) : Found typeString typeId seen [] s (none, s') := by
  refine ⟨?_, ?_, ?_, ?_⟩
  · rw [List.append_nil]
    exact ⟨hIds ▸ h.ids, hNames ▸ h.names⟩
  · intro info hInfo
    cases hInfo
  · intro _ _ _ info hInfo
    cases hInfo
  · intro _ c hc
    cases hc

/-- The loop stops at a wanted class. -/
theorem Found.stop (h : s.Registers seen) (hCoherent : Coherent (seen ++ [c]))
    (hWanted : Wanted typeString typeId c) {stopped : State P A}
    (hIds : stopped.id2info = (s.createMapping perl c).2.id2info)
    (hNames : stopped.name2id = (s.createMapping perl c).2.name2id) :
    Found typeString typeId seen [c] s (some (s.createMapping perl c).1, stopped) := by
  obtain ⟨hCls, hRegisters⟩ := createMapping_registers h perl c hCoherent
  refine ⟨⟨hIds ▸ hRegisters.ids, hNames ▸ hRegisters.names⟩, ?_, ?_, nofun⟩
  · rintro info ⟨⟩
    rw [hCls]
    exact ⟨List.mem_singleton.mpr rfl, hWanted⟩
  · rintro rfl - hNew info ⟨⟩
    obtain ⟨-, hType⟩ | hName := hWanted
    · have hCreated : (s.create c).2.id2info c.typeId = none := hType ▸ hNew
      show stopped.name2id _ = _
      rw [hNames, hCls]
      unfold createMapping
      simp only [hCreated]
      exact Function.update_self ..
    · cases hName

/-- The loop goes on behind a class that is not wanted. -/
theorem Found.go {tried : List (Class P A)} (h : s.Registers seen)
    (hCoherent : Coherent (seen ++ [c])) (hOther : ¬ Wanted typeString typeId c)
    (hRest : Found typeString typeId (seen ++ [c]) tried (s.createMapping perl c).2 found) :
    Found typeString typeId seen (c :: tried) s found := by
  have hAssoc : seen ++ [c] ++ tried = seen ++ c :: tried := by simp
  refine ⟨hAssoc ▸ hRest.registers, ?_, ?_, ?_⟩
  · intro info hInfo
    obtain ⟨hMem, hWanted⟩ := hRest.hit info hInfo
    exact ⟨List.mem_cons_of_mem _ hMem, hWanted⟩
  · intro hString hId hNew
    obtain ⟨-, hRegisters⟩ := createMapping_registers h perl c hCoherent
    refine hRest.named hString hId (h.stays_unknown hRegisters hNew fun d hd hType => ?_)
    exact hOther (Or.inl ⟨hId, List.mem_singleton.mp hd ▸ hType⟩)
  · intro hNone d hd
    obtain rfl | hd := List.mem_cons.mp hd
    · exact hOther
    · exact hRest.miss hNone d hd

theorem loadNative_found (typeString : Option String) (typeId : Int32)
    (files : List (NativeFile P A)) (h : s.Registers seen)
    (hCoherent : Coherent (seen ++ files.filterMap NativeFile.class?)) :
    ∃ tried, tried ++ (loadNative typeString typeId files s).2.nativeFilenames.filterMap
        NativeFile.class? = files.filterMap NativeFile.class? ∧
      Found typeString typeId seen tried s (loadNative typeString typeId files s) ∧
      ((loadNative typeString typeId files s).1 = none →
        (loadNative typeString typeId files s).2.nativeFilenames = []) := by
  induction files generalizing s seen with
  | nil => exact ⟨[], rfl, Found.nil h rfl rfl, fun _ => rfl⟩
  | cons file files ih =>
    cases file with
    | noResource => exact ih h hCoherent
    | noInfo =>
      obtain ⟨tried, hTried, hFound, hRest⟩ := ih (s := s.nextResourceId.2)
        ⟨h.ids, h.names⟩ hCoherent
      exact ⟨tried, hTried, ⟨hFound.registers, hFound.hit, hFound.named, hFound.miss⟩, hRest⟩
    | provides c =>
      have hAssoc : seen ++ [c] ++ files.filterMap NativeFile.class? =
          seen ++ (NativeFile.provides c :: files).filterMap NativeFile.class? := by
        simp [NativeFile.class?]
      have hSeen : Coherent (seen ++ [c]) :=
        Coherent.of_subset (hAssoc ▸ hCoherent) (List.subset_append_left _ _)
      obtain ⟨hCls, hRegisters⟩ := createMapping_registers h false c hSeen
      rw [loadNative]
      dsimp only
      split
      · rename_i hWanted
        rw [wanted_iff, hCls] at hWanted
        exact ⟨[c], rfl, Found.stop h hSeen hWanted rfl rfl,
          fun hNone => absurd hNone (Option.some_ne_none _)⟩
      · rename_i hOther
        rw [wanted_iff, hCls] at hOther
        obtain ⟨tried, hTried, hFound, hRest⟩ := ih hRegisters (hAssoc ▸ hCoherent)
        exact ⟨c :: tried, congrArg (c :: ·) hTried, Found.go h hSeen hOther hFound, hRest⟩

theorem loadPerl_found (typeString : Option String) (typeId : Int32) (files : List (PerlFile P A))
    (h : s.Registers seen) (hCoherent : Coherent (seen ++ files.filterMap PerlFile.class?))
    (hInterpreter : .noInterpreter ∉ files) :
    ∃ tried, tried ++ (loadPerl typeString typeId files s).2.perlFilenames.filterMap
        PerlFile.class? = files.filterMap PerlFile.class? ∧
      Found typeString typeId seen tried s (loadPerl typeString typeId files s) ∧
      ((loadPerl typeString typeId files s).1 = none →
        (loadPerl typeString typeId files s).2.perlFilenames = []) ∧
      .noInterpreter ∉ (loadPerl typeString typeId files s).2.perlFilenames ∧
      (loadPerl typeString typeId files s).2.nativeFilenames = s.nativeFilenames := by
  induction files generalizing s seen with
  | nil => exact ⟨[], rfl, Found.nil h rfl rfl, fun _ => rfl, List.not_mem_nil, rfl⟩
  | cons file files ih =>
    have hFiles : .noInterpreter ∉ files := fun hMem => hInterpreter (List.mem_cons_of_mem _ hMem)
    cases file with
    | noInterpreter => exact absurd List.mem_cons_self hInterpreter
    | noInfo =>
      obtain ⟨tried, hTried, hFound, hRest⟩ :=
        ih (s := s.nextResourceId.2) ⟨h.ids, h.names⟩ hCoherent hFiles
      exact ⟨tried, hTried, ⟨hFound.registers, hFound.hit, hFound.named, hFound.miss⟩, hRest⟩
    | provides c =>
      have hAssoc : seen ++ [c] ++ files.filterMap PerlFile.class? =
          seen ++ (PerlFile.provides c :: files).filterMap PerlFile.class? := by
        simp [PerlFile.class?]
      have hSeen : Coherent (seen ++ [c]) :=
        Coherent.of_subset (hAssoc ▸ hCoherent) (List.subset_append_left _ _)
      obtain ⟨hCls, hRegisters⟩ := createMapping_registers h true c hSeen
      have hNative := createMapping_nativeFilenames s true c
      rw [loadPerl]
      dsimp only
      split
      · rename_i hWanted
        rw [wanted_iff, hCls] at hWanted
        exact ⟨[c], rfl, Found.stop h hSeen hWanted rfl rfl,
          fun hNone => absurd hNone (Option.some_ne_none _), hFiles, hNative⟩
      · rename_i hOther
        rw [wanted_iff, hCls] at hOther
        obtain ⟨tried, hTried, hFound, hNone, hLeft, hSame⟩ :=
          ih hRegisters (hAssoc ▸ hCoherent) hFiles
        exact ⟨c :: tried, congrArg (c :: ·) hTried, Found.go h hSeen hOther hFound, hNone, hLeft,
          hSame.trans hNative⟩

-- ---------------------------------------------------------------------------
-- Searches
-- ---------------------------------------------------------------------------

/-- The classes of the files that have not been tried. -/
def pending (s : State P A) : List (Class P A) := candidates s.nativeFilenames s.perlFilenames

/-- The classes in `seen` have been loaded, the others of `all` are still to come, and
interpreters can be had. -/
structure Loaded (all seen : List (Class P A)) (s : State P A) : Prop where
  split : seen ++ s.pending = all
  registers : s.Registers seen
  interpreter : .noInterpreter ∉ s.perlFilenames

/-- What a search does: it loads some of the files, and finds a wanted class among all, or there is
none among those that had not been loaded. -/
structure Searches (typeString : Option String) (typeId : Int32) (all : List (Class P A))
    (s : State P A) (found : Option (Info P A) × State P A) : Prop where
  loaded : ∃ seen, Loaded all seen found.2 ∧ ∀ info ∈ found.1, info.cls ∈ seen
  hit : ∀ info ∈ found.1, Wanted typeString typeId info.cls
  named : typeString = none → typeId ≠ 0 → s.id2info typeId = none →
    ∀ info ∈ found.1, found.2.name2id info.cls.typeString = some info.cls.typeId
  miss : found.1 = none → ∀ c ∈ s.pending, ¬ Wanted typeString typeId c

variable (typeString typeId) in
theorem loadResourceLibrary_searches (hCoherent : Coherent all) (h : Loaded all seen s)
    (hAsserted : ¬ (typeString = none ∧ typeId = 0)) :
    ∃ found, s.loadResourceLibrary typeString typeId = some found ∧
      Searches typeString typeId all s found := by
  have hAll : seen ++ s.nativeFilenames.filterMap NativeFile.class? ++
      s.perlFilenames.filterMap PerlFile.class? = all := by
    rw [List.append_assoc]
    exact h.split
  obtain ⟨tried, hTried, hFound, hNone⟩ := loadNative_found typeString typeId s.nativeFilenames
    h.registers (hCoherent.of_subset (hAll ▸ List.subset_append_left _ _))
  have hPerl := loadNative_perlFilenames typeString typeId s.nativeFilenames s
  unfold loadResourceLibrary
  rw [if_neg hAsserted]
  split
  · rename_i info s₁ hLoad
    rw [hLoad] at hTried hFound hPerl
    refine ⟨_, rfl, ⟨seen ++ tried, ⟨?_, hFound.registers, ?_⟩, ?_⟩, ?_, hFound.named, nofun⟩
    · show seen ++ tried ++ candidates s₁.nativeFilenames s₁.perlFilenames = all
      rw [candidates, hPerl, ← hAll, ← hTried]
      simp
    · exact hPerl ▸ h.interpreter
    · exact fun info' hInfo => List.mem_append_right _ (hFound.hit info' hInfo).1
    · exact fun info' hInfo => (hFound.hit info' hInfo).2
  · rename_i s₁ hLoad
    rw [hLoad] at hTried hFound hPerl hNone
    have hPerl : s₁.perlFilenames = s.perlFilenames := hPerl
    have hRest : s₁.nativeFilenames = [] := hNone rfl
    have hTried : tried = s.nativeFilenames.filterMap NativeFile.class? := by
      rw [← hTried, hRest]
      simp
    obtain ⟨tried', hTried', hFound', hNone', hLeft, hSame⟩ :=
      loadPerl_found typeString typeId s₁.perlFilenames hFound.registers
        (by rw [hTried, hPerl, hAll]; exact hCoherent) (hPerl ▸ h.interpreter)
    generalize loadPerl typeString typeId s₁.perlFilenames s₁ =
      found at hTried' hFound' hNone' hLeft hSame
    refine ⟨_, rfl, ⟨seen ++ tried ++ tried', ⟨?_, hFound'.registers, hLeft⟩, ?_⟩, ?_, ?_, ?_⟩
    · rw [pending, candidates, hSame, hRest, ← hAll, hTried, ← hPerl, ← hTried']
      simp
    · exact fun info hInfo => List.mem_append_right _ (hFound'.hit info hInfo).1
    · exact fun info hInfo => (hFound'.hit info hInfo).2
    · intro hString hId hNew
      refine hFound'.named hString hId
        (h.registers.stays_unknown hFound.registers hNew fun c hc => ?_)
      exact fun hType => hFound.miss rfl c hc (Or.inl ⟨hId, hType⟩)
    · intro hMiss c hc
      have hTriedPerl : tried' = s.perlFilenames.filterMap PerlFile.class? := by
        rw [← hPerl, ← hTried', hNone' hMiss]
        simp
      obtain hNative | hPerl' := List.mem_append.mp hc
      · exact hFound.miss rfl c (hTried ▸ hNative)
      · exact hFound'.miss hMiss c (hTriedPerl ▸ hPerl')

theorem Loaded.seen_subset (h : Loaded all seen s) : seen ⊆ all :=
  h.split ▸ List.subset_append_left _ _

/-- `GetInfo` finds the class of a type id, if some candidate file provides it. -/
theorem getInfo_spec {typeId : Int32} (hCoherent : Coherent all) (h : Loaded all seen s)
    (hId : typeId ≠ 0) :
    ∃ found, s.getInfo typeId = some found ∧
      (∃ seen', Loaded all seen' found.2 ∧
        ∀ info ∈ found.1, info.cls ∈ seen' ∧ info.cls.typeId = typeId) ∧
      (found.1 = none → ∀ c ∈ all, c.typeId ≠ typeId) ∧
      (s.id2info typeId = none →
        ∀ info ∈ found.1, found.2.name2id info.cls.typeString = some info.cls.typeId) := by
  unfold getInfo
  cases hInfo : s.id2info typeId with
  | some info =>
    refine ⟨_, rfl, ⟨seen, h, ?_⟩, nofun, nofun⟩
    rintro info' ⟨⟩
    exact h.registers.ids.info typeId info hInfo
  | none =>
    obtain ⟨found, hLoad, hSearch⟩ := loadResourceLibrary_searches none typeId hCoherent h
      fun hBoth => hId hBoth.2
    obtain ⟨seen', hLoaded, hMem⟩ := hSearch.loaded
    refine ⟨found, hLoad, ⟨seen', hLoaded, ?_⟩, ?_, fun _ => hSearch.named rfl hId hInfo⟩
    · intro info hFound
      obtain ⟨-, hType⟩ | hName := hSearch.hit info hFound
      · exact ⟨hMem info hFound, hType⟩
      · cases hName
    · rintro hNone c hc hType
      rw [← h.split] at hc
      obtain hSeen | hPending := List.mem_append.mp hc
      · exact h.registers.ids.known c hSeen (hType ▸ hInfo)
      · exact hSearch.miss hNone c hPending (Or.inl ⟨hId, hType⟩)

/-- The assertion: no class has the type id zero. -/
theorem getInfo_zero (h : Loaded all seen s) (hPositive : ∀ c ∈ all, 0 < c.typeId) :
    s.getInfo 0 = none := by
  have hNone : s.id2info 0 = none := by
    by_contra hKnown
    obtain ⟨info, hInfo⟩ := Option.ne_none_iff_exists'.mp hKnown
    obtain ⟨hMem, hType⟩ := h.registers.ids.info 0 info hInfo
    exact (ne_of_pos (hPositive info.cls (h.seen_subset hMem))).1 hType
  rw [getInfo, hNone]
  rfl

/-- `NameToId` finds the id of a class of the name, if some candidate file provides one. -/
theorem nameToId_spec (hCoherent : Coherent all) (h : Loaded all seen s) (name : String) :
    ∃ typeId s', s.nameToId name = some (typeId, s') ∧ (∃ seen', Loaded all seen' s') ∧
      ((∃ c ∈ all, c.typeString = name ∧ c.typeId = typeId) ∨
        (typeId = -1 ∧ ∀ c ∈ all, c.typeString ≠ name)) := by
  unfold nameToId
  cases hName : s.name2id name with
  | some typeId =>
    obtain ⟨c, hc, hSame⟩ := h.registers.names.named name typeId hName
    exact ⟨typeId, s, rfl, ⟨seen, h⟩, Or.inl ⟨c, h.seen_subset hc, hSame⟩⟩
  | none =>
    obtain ⟨⟨found, s'⟩, hLoad, hSearch⟩ := loadResourceLibrary_searches (some name) 0
      hCoherent h (fun hBoth => Option.some_ne_none name hBoth.1)
    obtain ⟨seen', hLoaded, hMem⟩ := hSearch.loaded
    rw [hLoad]
    cases found with
    | some info =>
      obtain ⟨hZero, -⟩ | hSame := hSearch.hit info rfl
      · exact absurd rfl hZero
      · exact ⟨_, s', rfl, ⟨seen', hLoaded⟩, Or.inl ⟨info.cls, hLoaded.seen_subset (hMem info rfl),
          (Option.some.inj hSame).symm, rfl⟩⟩
    | none =>
      refine ⟨-1, s', rfl, ⟨seen', hLoaded⟩, Or.inr ⟨rfl, ?_⟩⟩
      intro c hc hSame
      rw [← h.split] at hc
      obtain hSeen | hPending := List.mem_append.mp hc
      · exact h.registers.names.known c hSeen (hSame ▸ hName)
      · exact hSearch.miss rfl c hPending (Or.inr (congrArg some hSame.symm))

/-- Whoever takes a resource leaves the classes as they are. -/
theorem takeOrCreate_spec (perl : PerlAnswer) {info : Info P A} (h : Loaded all seen s)
    (hMem : info.cls ∈ seen) :
    ∃ o s', s.takeOrCreate perl info = (o, s') ∧ Loaded all seen s' ∧
      (perl = .created → o.isSome) := by
  unfold takeOrCreate
  split
  · refine ⟨_, _, rfl, ⟨h.split, ⟨?_, h.registers.names⟩, h.interpreter⟩, fun _ => rfl⟩
    exact h.registers.ids.replace _ hMem
  · have hKept : ∀ s' : State P A, s'.id2info = s.id2info → s'.name2id = s.name2id →
        s'.pending = s.pending → s'.perlFilenames = s.perlFilenames → Loaded all seen s' :=
      fun s' hIds hNames hPending hPerl =>
        ⟨hPending ▸ h.split, ⟨hIds ▸ h.registers.ids, hNames ▸ h.registers.names⟩,
          hPerl ▸ h.interpreter⟩
    cases info.perl with
    | false => exact ⟨_, _, rfl, hKept _ rfl rfl rfl rfl, fun _ => rfl⟩
    | true =>
      cases perl with
      | noInterpreter => exact ⟨_, _, rfl, h, nofun⟩
      | initFails => exact ⟨_, _, rfl, hKept _ rfl rfl rfl rfl, nofun⟩
      | created => exact ⟨_, _, rfl, hKept _ rfl rfl rfl rfl, fun _ => rfl⟩

/-- `AcquireResource` returns a resource if and only if some candidate file provides the type, when
Perl does as it should. -/
theorem acquireResource_spec (perl : PerlAnswer) {typeId : Int32} (hCoherent : Coherent all)
    (h : Loaded all seen s) (hPositive : ∀ c ∈ all, 0 < c.typeId) (hId : typeId ≠ 0) :
    ∃ o s', s.acquireResource perl typeId = some (o, s') ∧ (∃ seen', Loaded all seen' s') ∧
      (perl = .created → (o.isSome ↔ ∃ c ∈ all, c.typeId = typeId)) := by
  unfold acquireResource
  split
  · rename_i hNegative
    refine ⟨none, s, rfl, ⟨seen, h⟩, fun _ => ⟨nofun, ?_⟩⟩
    rintro ⟨c, hc, rfl⟩
    exact absurd (Int32.lt_trans hNegative (hPositive c hc)) Int32.lt_irrefl
  · obtain ⟨⟨found, s'⟩, hGet, ⟨seen', hLoaded, hHit⟩, hMiss, -⟩ := getInfo_spec hCoherent h hId
    rw [hGet]
    cases found with
    | none =>
      refine ⟨none, s', rfl, ⟨seen', hLoaded⟩, fun _ => ⟨nofun, ?_⟩⟩
      rintro ⟨c, hc, hType⟩
      exact absurd hType (hMiss rfl c hc)
    | some info =>
      obtain ⟨hMem, hType⟩ := hHit info rfl
      obtain ⟨o, t, hTake, hLeft, hThere⟩ := takeOrCreate_spec perl hLoaded hMem
      refine ⟨o, t, congrArg some hTake, ⟨seen', hLeft⟩, ?_⟩
      exact fun hPerl => iff_of_true (hThere hPerl) ⟨info.cls, hLoaded.seen_subset hMem, hType⟩

theorem acquireResource_zero {perl : PerlAnswer} (h : Loaded all seen s)
    (hPositive : ∀ c ∈ all, 0 < c.typeId) : s.acquireResource perl 0 = none := by
  rw [acquireResource, if_neg (by decide), getInfo_zero h hPositive]

end State

end HectorCore.Registry
