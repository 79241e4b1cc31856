import HectorCore.Registry.Registry
import Mathlib.Data.List.Infix

/-!
# Loading — invariants of the loading of libraries

`LoadResourceLibrary` and `GetInfo` of `ResourceRegistry.cc`. Both loops take the candidate files
from the front; what one turn keeps (`KeptByLoading`), a whole search keeps.

* `loadResourceLibrary_rule`, `getInfo_rule` — the invariant rules;
* `loadNative_perlFilenames`                 — the first loop leaves the files of the second alone.
-/

namespace HectorCore.Registry

variable {P A : Type}

namespace State

variable {s s' : State P A}

/-- What one turn of the loops over the candidate files keeps. -/
structure KeptByLoading (Inv : State P A → Prop) (libraries : List (NativeFile P A))
    (perl : List (PerlFile P A)) : Prop where
  nextResourceId : ∀ s, Inv s → Inv s.nextResourceId.2
  mapNative : ∀ s c, .provides c ∈ libraries → Inv s → Inv (s.createMapping false c).2
  mapPerl : ∀ s c, .provides c ∈ perl → Inv s → Inv (s.createMapping true c).2
  restNative : ∀ s rest, rest <:+ libraries → Inv s → Inv { s with nativeFilenames := rest }
  restPerl : ∀ s rest, rest <:+ perl → Inv s → Inv { s with perlFilenames := rest }

/-- The first loop. The induction is on the files that are left, always a suffix of all of them. -/
theorem loadNative_rule {Inv : State P A → Prop} {libraries : List (NativeFile P A)}
    {perl : List (PerlFile P A)} (h : KeptByLoading Inv libraries perl) (typeString : Option String)
    (typeId : Int32) {files : List (NativeFile P A)} (hFiles : files <:+ libraries) (hInv : Inv s) :
    Inv (loadNative typeString typeId files s).2 := by
  induction files generalizing s with
  | nil => exact h.restNative s [] hFiles hInv
  | cons file files ih =>
    have hRest : files <:+ libraries := (List.suffix_cons file files).trans hFiles
    cases file with
    | noResource => exact ih hRest hInv
    | noInfo => exact ih hRest (h.nextResourceId s hInv)
    | provides c =>
      have hMapped := h.mapNative s c (hFiles.subset List.mem_cons_self) hInv
      rw [loadNative]
      dsimp only
      split
      · exact h.restNative _ files hRest hMapped
      · exact ih hRest hMapped

/-- The second loop, which also ends where there is no interpreter. -/
theorem loadPerl_rule {Inv : State P A → Prop} {libraries : List (NativeFile P A)}
    {perl : List (PerlFile P A)} (h : KeptByLoading Inv libraries perl) (typeString : Option String)
    (typeId : Int32) {files : List (PerlFile P A)} (hFiles : files <:+ perl) (hInv : Inv s) :
    Inv (loadPerl typeString typeId files s).2 := by
  induction files generalizing s with
  | nil => exact h.restPerl s [] hFiles hInv
  | cons file files ih =>
    have hRest : files <:+ perl := (List.suffix_cons file files).trans hFiles
    cases file with
    | noInterpreter => exact h.restPerl s [] List.nil_suffix hInv
    | noInfo => exact ih hRest (h.nextResourceId s hInv)
    | provides c =>
      have hMapped := h.mapPerl s c (hFiles.subset List.mem_cons_self) hInv
      rw [loadPerl]
      dsimp only
      split
      · exact h.restPerl _ files hRest hMapped
      · exact ih hRest hMapped

/-- A mapping takes no file from the candidates. -/
theorem createMapping_perlFilenames (s : State P A) (perl : Bool) (c : Class P A) :
    (s.createMapping perl c).2.perlFilenames = s.perlFilenames := by
  unfold createMapping
  dsimp only
  split <;> rfl

theorem createMapping_nativeFilenames (s : State P A) (perl : Bool) (c : Class P A) :
    (s.createMapping perl c).2.nativeFilenames = s.nativeFilenames := by
  unfold createMapping
  dsimp only
  split <;> rfl

/-- The first loop leaves the files of the second alone. -/
theorem loadNative_perlFilenames (typeString : Option String) (typeId : Int32)
    (files : List (NativeFile P A)) (s : State P A) :
    (loadNative typeString typeId files s).2.perlFilenames = s.perlFilenames := by
  induction files generalizing s with
  | nil => rfl
  | cons file files ih =>
    cases file with
    | noResource => exact ih s
    | noInfo => exact ih s.nextResourceId.2
    | provides c =>
      rw [loadNative]
      dsimp only
      split
      · exact createMapping_perlFilenames s false c
      · rw [ih, createMapping_perlFilenames]

/-- Both loops one after the other, unless the first one has found the class. -/
theorem loadResourceLibrary_rule {Inv : State P A → Prop} {typeString : Option String}
    {typeId : Int32} {found : Option (Info P A)}
    (h : KeptByLoading Inv s.nativeFilenames s.perlFilenames) (hInv : Inv s)
    (hLoad : s.loadResourceLibrary typeString typeId = some (found, s')) : Inv s' := by
  have hNative := loadNative_rule h typeString typeId List.suffix_rfl hInv
  have hFiles := loadNative_perlFilenames typeString typeId s.nativeFilenames s
  unfold loadResourceLibrary at hLoad
  split at hLoad
  · cases hLoad
  · split at hLoad
    · -- the class was found among the native libraries
      rename_i hFound
      rw [hFound] at hNative
      cases hLoad
      exact hNative
    · -- nothing was found, and the Perl files are those that there were at the beginning
      rename_i s₁ hFound
      rw [hFound] at hNative hFiles
      have hPerl := loadPerl_rule h typeString typeId
        (show s₁.perlFilenames <:+ s.perlFilenames from hFiles ▸ List.suffix_rfl) hNative
      rw [Option.some.inj hLoad] at hPerl
      exact hPerl

/-- A lookup loads only what is not there yet. -/
theorem getInfo_rule {Inv : State P A → Prop} {typeId : Int32} {found : Option (Info P A)}
    (h : KeptByLoading Inv s.nativeFilenames s.perlFilenames) (hInv : Inv s)
    (hGet : s.getInfo typeId = some (found, s')) : Inv s' := by
  unfold getInfo at hGet
  split at hGet
  · cases hGet
    exact hInv
  · exact loadResourceLibrary_rule h hInv hGet

end State

end HectorCore.Registry
