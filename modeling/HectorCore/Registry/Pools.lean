import HectorCore.Registry.Registry

/-!
# Pools — resources are in a pool or outside, never both

`Out p r`: there is a resource `r` at `p`, and it is in no `available`. That is what a caller of
the registry holds. Every call leaves alone what is outside, except for the resource that it is
given (`Keeps`); the resource that it returns was not outside before (`Hands`).

* `getInfo_keeps`, `nameToId_keeps` — looking up a class, with the libraries that it loads;
* `acquireResource_hands`, `acquireNamed_hands`, `clone_hands`, `deserializeResource_hands`;
* `releaseResource_keeps`.
-/

namespace HectorCore.Registry

variable {P A : Type}

/-- Where a resource has its id from: drawn, when `nextId` was `n`, or read from a stream. -/
inductive Source where
  | counter (n : Nat)
  | stream (id : Int32)
  deriving DecidableEq, Repr

/-- The id that a source gives. -/
def Source.id : Source → Int32
  | .counter n => Int32.ofNat n
  | .stream id => id

namespace State

/-- The resource at `p` waits for reuse. -/
def Pooled (s : State P A) (p : Nat) : Prop :=
  ∃ t info, s.id2info t = some info ∧ p ∈ info.available

/-- It is in somebody's hands. -/
def Out (s : State P A) (p : Nat) (r : Resource P A) : Prop :=
  s.heap p = some r ∧ ¬ s.Pooled p

/-- The registry is well formed: pools hold addresses of their own type, and each address once. -/
structure WF (s : State P A) : Prop where
  fresh : ∀ p, s.allocated ≤ p → s.heap p = none
  key : ∀ t info, s.id2info t = some info → info.cls.typeId = t
  nodup : ∀ t info, s.id2info t = some info → info.available.Nodup
  /-- A pool holds resources of its type; so the pools are disjoint. -/
  typed : ∀ t info, s.id2info t = some info → ∀ p ∈ info.available,
    ∃ r, s.heap p = some r ∧ r.cls.typeId = t

/-- From `s` to `s'` nothing happens to the resources outside, `gone` excepted. -/
structure Keeps (gone : Option Nat) (s s' : State P A) : Prop where
  wf : s'.WF
  out : ∀ q r, gone ≠ some q → s.Out q r → s'.Out q r
  nextId : s.nextId ≤ s'.nextId

/-- A call hands out the resource at `p`, with an id from `source`. -/
structure Hands (p : Nat) (source : Source) (s s' : State P A) : Prop where
  keeps : Keeps none s s'
  new : ∀ r, ¬ s.Out p r
  out : ∃ r, s'.Out p r ∧ r.id = source.id
  counted : ∀ n, source = .counter n → s.nextId ≤ n ∧ n < s'.nextId

variable {s s₁ s' : State P A} {p : Nat} {r : Resource P A} {c : Class P A} {info : Info P A}
  {gone : Option Nat}

-- ---------------------------------------------------------------------------
-- Keeps
-- ---------------------------------------------------------------------------

theorem WF.keeps (h : s.WF) : Keeps gone s s := ⟨h, fun _ _ _ hOut => hOut, Nat.le_refl _⟩

/-- One call after the other. -/
theorem Keeps.trans (h₁ : Keeps gone s s₁) (h₂ : Keeps gone s₁ s') : Keeps gone s s' where
  wf := h₂.wf
  out := fun q r hq hOut => h₂.out q r hq (h₁.out q r hq hOut)
  nextId := Nat.le_trans h₁.nextId h₂.nextId

/-- What happens to a resource that was not outside at the start does not count. -/
theorem Keeps.of_new (h₁ : Keeps none s s₁) (h₂ : Keeps (some p) s₁ s')
    (hNew : ∀ r, ¬ s.Out p r) : Keeps none s s' where
  wf := h₂.wf
  out := by
    intro q r _ hOut
    have hq : some p ≠ some q := by
      intro h
      exact hNew r (Option.some.inj h ▸ hOut)
    exact h₂.out q r hq (h₁.out q r nofun hOut)
  nextId := Nat.le_trans h₁.nextId h₂.nextId

/-- Who loses nothing does not lose this one. -/
theorem Keeps.weaken (h : Keeps none s s') : Keeps gone s s' where
  wf := h.wf
  out := fun q r _ hOut => h.out q r nofun hOut
  nextId := h.nextId

/-- A change of the other members only. -/
theorem WF.of_eq (h : s.WF) (hHeap : s'.heap = s.heap) (hAllocated : s'.allocated = s.allocated)
    (hInfo : s'.id2info = s.id2info) : s'.WF := by
  refine ⟨?_, ?_, ?_, ?_⟩
  · intro p hp
    rw [hHeap]
    exact h.fresh p (hAllocated ▸ hp)
  · rw [hInfo]
    exact h.key
  · rw [hInfo]
    exact h.nodup
  · rw [hInfo, hHeap]
    exact h.typed

/-- Calls that do not touch the heap keep everything. -/
theorem WF.keeps_of_eq (h : s.WF) (hHeap : s'.heap = s.heap)
    (hAllocated : s'.allocated = s.allocated)
    (hInfo : s'.id2info = s.id2info) (hNext : s.nextId ≤ s'.nextId) : Keeps gone s s' where
  wf := h.of_eq hHeap hAllocated hInfo
  out := by
    intro q r _ hOut
    refine ⟨hHeap ▸ hOut.1, ?_⟩
    rintro ⟨t, info, hFound, hMem⟩
    exact hOut.2 ⟨t, info, hInfo ▸ hFound, hMem⟩
  nextId := hNext

theorem WF.keeps_nextResourceId (h : s.WF) : Keeps gone s s.nextResourceId.2 :=
  h.keeps_of_eq rfl rfl rfl (Nat.le_succ _)

-- ---------------------------------------------------------------------------
-- Changes of the heap
-- ---------------------------------------------------------------------------

/-- Only what has been allocated has an address. -/
theorem WF.lt_allocated (h : s.WF) (hHeap : s.heap p = some r) : p < s.allocated := by
  by_contra hLe
  rw [h.fresh p (Nat.not_lt.mp hLe)] at hHeap
  cases hHeap

theorem WF.not_pooled_of_none (h : s.WF) (hHeap : s.heap p = none) : ¬ s.Pooled p := by
  rintro ⟨t, info, hInfo, hMem⟩
  obtain ⟨r, hr, -⟩ := h.typed t info hInfo p hMem
  rw [hHeap] at hr
  cases hr

/-- The heap changes at `p` only, which is in no pool. -/
theorem WF.set (h : s.WF) (hp : ¬ s.Pooled p) (hLt : p < s.allocated) (o : Option (Resource P A)) :
    Keeps (some p) s (s.set p o) where
  wf := by
    refine ⟨?_, h.key, h.nodup, ?_⟩
    · intro q hq
      have hq : s.allocated ≤ q := hq
      show Function.update s.heap p o q = none
      rw [Function.update_of_ne (by omega)]
      exact h.fresh q hq
    · intro t info hInfo q hq
      obtain ⟨r, hr, hType⟩ := h.typed t info hInfo q hq
      refine ⟨r, ?_, hType⟩
      have hqp : q ≠ p := by
        rintro rfl
        exact hp ⟨t, info, hInfo, hq⟩
      show Function.update s.heap p o q = some r
      rw [Function.update_of_ne hqp, hr]
  out := by
    intro q r hq hOut
    refine ⟨?_, hOut.2⟩
    show Function.update s.heap p o q = some r
    rw [Function.update_of_ne (fun h => hq (congrArg some h.symm)), hOut.1]
  nextId := Nat.le_refl _

/-- A resource in hand may be changed, and stays in hand. -/
theorem Out.set (h : s.Out p r) (r' : Resource P A) : (s.set p (some r')).Out p r' := by
  refine ⟨?_, h.2⟩
  show Function.update s.heap p (some r') p = some r'
  exact Function.update_self ..

/-- A new resource, with the next id, is outside, and was not there before. -/
theorem alloc_hands (h : s.WF) (r : Resource P A) (hId : r.id = Int32.ofNat s.nextId) :
    Hands s.allocated (.counter s.nextId) s (s.nextResourceId.2.alloc r).2 := by
  have hNone : s.heap s.allocated = none := h.fresh _ (Nat.le_refl _)
  have hp := h.not_pooled_of_none hNone
  have hNew : ∀ r', ¬ s.Out s.allocated r' := by
    intro r' hOut
    have := hOut.1
    rw [hNone] at this
    cases this
  -- `alloc` is an assignment in a state that counts one pointer more
  have h₁ : Keeps none s { s.nextResourceId.2 with allocated := s.allocated + 1 } := by
    refine ⟨⟨?_, h.key, h.nodup, h.typed⟩, fun _ _ _ hOut => hOut, Nat.le_succ _⟩
    intro q hq
    exact h.fresh q (Nat.le_of_succ_le hq)
  have h₂ := h₁.wf.set hp (Nat.lt_succ_self _) (some r)
  refine ⟨h₁.of_new h₂ hNew, hNew, ⟨r, ⟨?_, hp⟩, hId⟩, ?_⟩
  · exact Function.update_self ..
  · rintro n ⟨⟩
    exact ⟨Nat.le_refl _, Nat.lt_succ_self _⟩

/-- A new resource gets the next number. -/
theorem create_hands (h : s.WF) (c : Class P A) :
    Hands (s.create c).1 (.counter s.nextId) s (s.create c).2 :=
  alloc_hands h ⟨c, Int32.ofNat s.nextId, 0, 0, none, c.create⟩ rfl

/-- So does a clone. -/
theorem clone_hands (h : s.WF) (r : Resource P A) :
    Hands (s.clone r).1 (.counter s.nextId) s (s.clone r).2 :=
  alloc_hands h { r with id := Int32.ofNat s.nextId } rfl

-- ---------------------------------------------------------------------------
-- Changes of a pool
-- ---------------------------------------------------------------------------

theorem id2info_putInfo : (s.putInfo info).id2info info.cls.typeId = some info :=
  Function.update_self ..

/-- The pools after `putInfo`: that of `info`, and the others as they were. -/
theorem of_id2info_putInfo {t : Int32} {info' : Info P A}
    (h : (s.putInfo info).id2info t = some info') :
    (t = info.cls.typeId ∧ info' = info) ∨ (t ≠ info.cls.typeId ∧ s.id2info t = some info') := by
  have h : Function.update s.id2info info.cls.typeId (some info) t = some info' := h
  by_cases ht : t = info.cls.typeId
  · rw [ht, Function.update_self] at h
    exact Or.inl ⟨ht, (Option.some.inj h).symm⟩
  · rw [Function.update_of_ne ht] at h
    exact Or.inr ⟨ht, h⟩

/-- A pool may change to any list of resources of its type. -/
theorem WF.putInfo (h : s.WF) (hNodup : info.available.Nodup)
    (hTyped : ∀ q ∈ info.available, ∃ r, s.heap q = some r ∧ r.cls.typeId = info.cls.typeId) :
    (s.putInfo info).WF := by
  refine ⟨h.fresh, ?_, ?_, ?_⟩
  · intro t info' hInfo
    obtain ⟨rfl, rfl⟩ | ⟨-, hOld⟩ := of_id2info_putInfo hInfo
    · rfl
    · exact h.key t info' hOld
  · intro t info' hInfo
    obtain ⟨rfl, rfl⟩ | ⟨-, hOld⟩ := of_id2info_putInfo hInfo
    · exact hNodup
    · exact h.nodup t info' hOld
  · intro t info' hInfo
    obtain ⟨rfl, rfl⟩ | ⟨-, hOld⟩ := of_id2info_putInfo hInfo
    · exact hTyped
    · exact h.typed t info' hOld

/-- `info->available.push_back(p)`, of a resource that is outside. The pool is empty when the
class is new. -/
theorem Out.push (hOut : s.Out p r) (h : s.WF) (info : Info P A)
    (hType : r.cls.typeId = info.cls.typeId)
    (hInfo : s.id2info info.cls.typeId = some info ∨ info.available = []) :
    Keeps (some p) s (s.putInfo { info with available := p :: info.available }) := by
  -- what the pool held before was pooled
  have hOld : ∀ q ∈ info.available, s.id2info info.cls.typeId = some info := by
    intro q hq
    obtain hInfo | hNil := hInfo
    · exact hInfo
    · rw [hNil] at hq
      cases hq
  refine ⟨h.putInfo ?_ ?_, ?_, Nat.le_refl _⟩
  · show (p :: info.available).Nodup
    refine List.nodup_cons.mpr ⟨fun hMem => hOut.2 ⟨_, info, hOld p hMem, hMem⟩, ?_⟩
    obtain hInfo | hNil := hInfo
    · exact h.nodup _ info hInfo
    · exact hNil ▸ List.nodup_nil
  · intro q hq
    obtain rfl | hMem := List.mem_cons.mp hq
    · exact ⟨r, hOut.1, hType⟩
    · exact h.typed _ info (hOld q hMem) q hMem
  · intro q r' hq hOut'
    refine ⟨hOut'.1, ?_⟩
    rintro ⟨t, info', hInfo', hMem⟩
    obtain ⟨rfl, rfl⟩ | ⟨-, hSame⟩ := of_id2info_putInfo hInfo'
    · obtain rfl | hMem := List.mem_cons.mp hMem
      · exact hq rfl
      · exact hOut'.2 ⟨_, info, hOld q hMem, hMem⟩
    · exact hOut'.2 ⟨t, info', hSame, hMem⟩

/-- `info->available.pop_back()`: what is taken is outside then. -/
theorem WF.pop {available : List Nat} (h : s.WF) (hInfo : s.id2info info.cls.typeId = some info)
    (hPool : info.available = p :: available) :
    Keeps none s (s.putInfo { info with available }) ∧
      ∃ r, (s.putInfo { info with available }).Out p r := by
  have hNodup : (p :: available).Nodup := hPool ▸ h.nodup _ info hInfo
  have hMem : ∀ q ∈ available, q ∈ info.available := by
    intro q hq
    rw [hPool]
    exact List.mem_cons_of_mem _ hq
  have hp : p ∈ info.available := hPool ▸ List.mem_cons_self
  obtain ⟨r, hr, hType⟩ := h.typed _ info hInfo p hp
  refine ⟨⟨h.putInfo hNodup.of_cons ?_, ?_, Nat.le_refl _⟩, r, hr, ?_⟩
  · intro q hq
    exact h.typed _ info hInfo q (hMem q hq)
  · intro q r' _ hOut
    refine ⟨hOut.1, ?_⟩
    rintro ⟨t, info', hInfo', hq⟩
    obtain ⟨rfl, rfl⟩ | ⟨-, hSame⟩ := of_id2info_putInfo hInfo'
    · exact hOut.2 ⟨_, info, hInfo, hMem q hq⟩
    · exact hOut.2 ⟨t, info', hSame, hq⟩
  · rintro ⟨t, info', hInfo', hq⟩
    obtain ⟨rfl, rfl⟩ | ⟨hne, hSame⟩ := of_id2info_putInfo hInfo'
    · exact (List.nodup_cons.mp hNodup).1 hq
    · -- in another pool it would be of another type
      obtain ⟨r', hr', hType'⟩ := h.typed t info' hSame p hq
      rw [hr] at hr'
      cases hr'
      exact hne (hType'.symm.trans hType)

-- ---------------------------------------------------------------------------
-- LoadResourceLibrary
-- ---------------------------------------------------------------------------

theorem create_heap (s : State P A) (c : Class P A) :
    (s.create c).2.heap (s.create c).1 = some ⟨c, Int32.ofNat s.nextId, 0, 0, none, c.create⟩ :=
  Function.update_self ..

/-- A new class comes with an empty pool. -/
theorem createMapping_keeps (h : s.WF) (perl : Bool) (c : Class P A) :
    Keeps none s (s.createMapping perl c).2 ∧
      (s.createMapping perl c).2.id2info (s.createMapping perl c).1.cls.typeId =
        some (s.createMapping perl c).1 := by
  have hNew := create_hands h c
  obtain ⟨r, hOut, -⟩ := hNew.out
  have hClass : r.cls = c := by
    have hHeap := hOut.1
    rw [create_heap] at hHeap
    exact (congrArg (·.cls) (Option.some.inj hHeap)).symm
  unfold createMapping
  cases hInfo : (s.create c).2.id2info c.typeId with
  | none =>
    simp only [hInfo]
    refine ⟨?_, id2info_putInfo⟩
    let s₁ : State P A :=
      { (s.create c).2 with
        name2id := Function.update (s.create c).2.name2id c.typeString (some c.typeId) }
    have hName : Keeps none (s.create c).2 s₁ :=
      hNew.keeps.wf.keeps_of_eq rfl rfl rfl (Nat.le_refl _)
    have hOut₁ : s₁.Out (s.create c).1 r := hName.out _ r nofun hOut
    have hPush := hOut₁.push hName.wf ⟨c, perl, []⟩ (congrArg _ hClass) (Or.inr rfl)
    exact (hNew.keeps.trans hName).of_new hPush hNew.new
  | some info =>
    simp only [hInfo]
    refine ⟨?_, id2info_putInfo⟩
    have hKey : info.cls.typeId = c.typeId := hNew.keeps.wf.key _ info hInfo
    have hType : r.cls.typeId = info.cls.typeId := by rw [hClass, hKey]
    have hPush := hOut.push hNew.keeps.wf info hType (Or.inl (hKey ▸ hInfo))
    exact hNew.keeps.of_new hPush hNew.new

/-- What a search for a class may do, and what it finds. -/
structure Finds (typeString : Option String) (typeId : Int32) (s : State P A)
    (found : Option (Info P A) × State P A) : Prop where
  keeps : Keeps none s found.2
  registered : ∀ info ∈ found.1, found.2.id2info info.cls.typeId = some info
  wanted : ∀ info ∈ found.1, wanted typeString typeId info

theorem Finds.trans {typeString : Option String} {typeId : Int32}
    {found : Option (Info P A) × State P A} (h₁ : Keeps none s s₁)
    (h₂ : Finds typeString typeId s₁ found) : Finds typeString typeId s found :=
  ⟨h₁.trans h₂.keeps, h₂.registered, h₂.wanted⟩

/-- A file that provides a class, in both loops: `stopped` is the state when it is the wanted
one. -/
theorem createMapping_finds {typeString : Option String} {typeId : Int32} {stopped : State P A}
    {found : Option (Info P A) × State P A} (h : s.WF) (perl : Bool) (c : Class P A)
    (hStop : Keeps none (s.createMapping perl c).2 stopped)
    (hInfo : stopped.id2info = (s.createMapping perl c).2.id2info)
    (hRest : (s.createMapping perl c).2.WF →
      Finds typeString typeId (s.createMapping perl c).2 found) :
    Finds typeString typeId s
      (if State.wanted typeString typeId (s.createMapping perl c).1 then
        (some (s.createMapping perl c).1, stopped) else found) := by
  obtain ⟨hKeeps, hRegistered⟩ := createMapping_keeps h perl c
  split
  · rename_i hWanted
    refine ⟨hKeeps.trans hStop, ?_, ?_⟩
    · rintro info ⟨⟩
      rw [hInfo]
      exact hRegistered
    · rintro info ⟨⟩
      exact hWanted
  · exact Finds.trans hKeeps (hRest hKeeps.wf)

/-- The loop over the native libraries finds the class, or has loaded all of them. -/
theorem loadNative_finds (typeString : Option String) (typeId : Int32)
    (files : List (NativeFile P A)) (h : s.WF) :
    Finds typeString typeId s (loadNative typeString typeId files s) := by
  induction files generalizing s with
  | nil => exact ⟨h.keeps_of_eq rfl rfl rfl (Nat.le_refl _), nofun, nofun⟩
  | cons file files ih =>
    cases file with
    | noResource => exact ih h
    | noInfo =>
      have hDrawn : Keeps none s s.nextResourceId.2 := h.keeps_nextResourceId
      exact Finds.trans hDrawn (ih hDrawn.wf)
    | provides c =>
      have hWF := (createMapping_keeps h false c).1.wf
      exact createMapping_finds h false c (hWF.keeps_of_eq rfl rfl rfl (Nat.le_refl _)) rfl ih

/-- The loop over the Perl files does the same. -/
theorem loadPerl_finds (typeString : Option String) (typeId : Int32)
    (files : List (PerlFile P A)) (h : s.WF) :
    Finds typeString typeId s (loadPerl typeString typeId files s) := by
  induction files generalizing s with
  | nil => exact ⟨h.keeps_of_eq rfl rfl rfl (Nat.le_refl _), nofun, nofun⟩
  | cons file files ih =>
    cases file with
    | noInterpreter => exact ⟨h.keeps_of_eq rfl rfl rfl (Nat.le_refl _), nofun, nofun⟩
    | noInfo =>
      have hDrawn : Keeps none s s.nextResourceId.2 := h.keeps_nextResourceId
      exact Finds.trans hDrawn (ih hDrawn.wf)
    | provides c =>
      have hWF := (createMapping_keeps h true c).1.wf
      exact createMapping_finds h true c (hWF.keeps_of_eq rfl rfl rfl (Nat.le_refl _)) rfl ih

/-- Both loops together. -/
theorem loadResourceLibrary_finds {typeString : Option String} {typeId : Int32}
    {found : Option (Info P A) × State P A} (h : s.WF)
    (hLoad : s.loadResourceLibrary typeString typeId = some found) :
    Finds typeString typeId s found := by
  have hNative := loadNative_finds typeString typeId s.nativeFilenames h
  unfold loadResourceLibrary at hLoad
  split at hLoad
  · cases hLoad
  · split at hLoad
    · rename_i info s₁ hFound
      rw [hFound] at hNative
      exact Option.some.inj hLoad ▸ hNative
    · rename_i s₁ hFound
      rw [hFound] at hNative
      have hPerl := loadPerl_finds typeString typeId s₁.perlFilenames hNative.keeps.wf
      exact Option.some.inj hLoad ▸ Finds.trans hNative.keeps hPerl

/-- `GetInfo` leaves the resources outside alone, and the class that it finds is the wanted one. -/
theorem getInfo_keeps {typeId : Int32} {found : Option (Info P A)} (h : s.WF)
    (hGet : s.getInfo typeId = some (found, s')) :
    Keeps none s s' ∧ ∀ info ∈ found, info.cls.typeId = typeId ∧ s'.id2info typeId = some info := by
  unfold getInfo at hGet
  split at hGet
  · rename_i info hInfo
    cases hGet
    refine ⟨h.keeps, ?_⟩
    rintro info ⟨⟩
    exact ⟨h.key typeId info hInfo, hInfo⟩
  · have hFinds := loadResourceLibrary_finds h hGet
    refine ⟨hFinds.keeps, ?_⟩
    intro info hMem
    have hType : info.cls.typeId = typeId := by
      have hWanted := hFinds.wanted info hMem
      simp only [State.wanted, Bool.or_eq_true, Bool.and_eq_true, beq_iff_eq] at hWanted
      obtain ⟨-, hType⟩ | hName := hWanted
      · exact hType
      · cases hName
    exact ⟨hType, hType ▸ hFinds.registered info hMem⟩

/-- A lookup by name may load libraries. -/
theorem nameToId_keeps {name : String} {typeId : Int32} (h : s.WF)
    (hName : s.nameToId name = some (typeId, s')) : Keeps none s s' := by
  unfold nameToId at hName
  split at hName
  · cases hName
    exact h.keeps
  · split at hName
    · cases hName
    · rename_i hLoad
      cases hName
      exact (loadResourceLibrary_finds h hLoad).keeps
    · rename_i hLoad
      cases hName
      exact (loadResourceLibrary_finds h hLoad).keeps

-- ---------------------------------------------------------------------------
-- AcquireResource
-- ---------------------------------------------------------------------------

/-- There is a resource of the class, or one can be created. -/
def obtainable (perl : PerlAnswer) (info : Info P A) : Bool :=
  !info.available.isEmpty || !info.perl || perl == .created

/-- The value of `nextId` that `AcquireResource` makes an id of, when it returns a resource. -/
def idFor (s : State P A) (perl : PerlAnswer) (typeId : Int32) : Option Nat :=
  if typeId < 0 then none
  else
    match s.getInfo typeId with
    | some (some info, s) => if obtainable perl info then some s.nextId else none
    | _ => none

/-- A call with a resource or without one: `source` says which, and where the id is from. -/
def Answers (source : Option Source) (s : State P A) : Option Nat × State P A → Prop
  | (none, s') => source = none ∧ Keeps none s s'
  | (some p, s') => ∃ o, source = some o ∧ Hands p o s s'

/-- What comes before the call does not matter. -/
theorem Hands.after (h₁ : Keeps none s s₁) {source : Source} (h₂ : Hands p source s₁ s') :
    Hands p source s s' where
  keeps := h₁.trans h₂.keeps
  new := fun r hOut => h₂.new r (h₁.out p r nofun hOut)
  out := h₂.out
  counted := by
    intro n hn
    obtain ⟨hLe, hLt⟩ := h₂.counted n hn
    exact ⟨Nat.le_trans h₁.nextId hLe, hLt⟩

theorem Answers.after {source : Option Source} {result : Option Nat × State P A}
    (h₁ : Keeps none s s₁) (h₂ : Answers source s₁ result) : Answers source s result := by
  obtain ⟨_ | p, s'⟩ := result
  · exact ⟨h₂.1, h₁.trans h₂.2⟩
  · obtain ⟨o, hSource, hHands⟩ := h₂
    exact ⟨o, hSource, Hands.after h₁ hHands⟩

/-- Members of the resource that has been handed out are set. -/
theorem Hands.set {source source' : Source} (h : Hands p source s s')
    (f : Resource P A → Resource P A) (hId : ∀ r, r.id = source.id → (f r).id = source'.id)
    (hCounted : ∀ n, source' = .counter n → s.nextId ≤ n ∧ n < s'.nextId) :
    Hands p source' s (s'.set p ((s'.heap p).map f)) := by
  obtain ⟨r, hOut, hr⟩ := h.out
  have hSet : s'.set p ((s'.heap p).map f) = s'.set p (some (f r)) := by
    rw [hOut.1, Option.map_some]
  rw [hSet]
  have hKeeps := h.keeps.wf.set hOut.2 (h.keeps.wf.lt_allocated hOut.1) (some (f r))
  exact ⟨h.keeps.of_new hKeeps h.new, h.new, ⟨f r, hOut.set (f r), hId r hr⟩, hCounted⟩

/-- A pooled resource is taken, or a new one is made. -/
theorem takeOrCreate_answers (h : s.WF) (hInfo : s.id2info info.cls.typeId = some info)
    (perl : PerlAnswer) :
    Answers (if obtainable perl info then some (.counter s.nextId) else none) s
      (s.takeOrCreate perl info) := by
  unfold takeOrCreate obtainable
  cases hPool : info.available with
  | cons p available =>
    obtain ⟨hPop, r, hOut⟩ := h.pop hInfo hPool
    have hNew : ∀ r, ¬ s.Out p r := by
      intro r hOut
      exact hOut.2 ⟨_, info, hInfo, hPool ▸ List.mem_cons_self⟩
    have hDrawn := hPop.trans hPop.wf.keeps_nextResourceId
    -- with the id that `Clear` left, until `SetId`
    have hTaken : Hands p (.stream r.id) s (s.putInfo { info with available }).nextResourceId.2 :=
      ⟨hDrawn, hNew, ⟨r, hOut, rfl⟩, nofun⟩
    refine ⟨.counter s.nextId, rfl, hTaken.set _ (fun _ _ => rfl) ?_⟩
    rintro n ⟨⟩
    exact ⟨Nat.le_refl _, Nat.lt_succ_self _⟩
  | nil =>
    cases info.perl with
    | false => exact ⟨_, rfl, create_hands h info.cls⟩
    | true =>
      cases perl with
      | noInterpreter => exact ⟨rfl, h.keeps⟩
      | initFails => exact ⟨rfl, h.keeps_nextResourceId⟩
      | created => exact ⟨_, rfl, create_hands h info.cls⟩

/-- `AcquireResource` by the type. -/
theorem acquireResource_answers {perl : PerlAnswer} {typeId : Int32}
    {result : Option Nat × State P A} (h : s.WF)
    (hAcquire : s.acquireResource perl typeId = some result) :
    Answers ((s.idFor perl typeId).map .counter) s result := by
  unfold acquireResource at hAcquire
  unfold idFor
  split at hAcquire
  · rename_i hNeg
    cases hAcquire
    rw [if_pos hNeg]
    exact ⟨rfl, h.keeps⟩
  · rename_i hNeg
    rw [if_neg hNeg]
    cases hGet : s.getInfo typeId with
    | none =>
      rw [hGet] at hAcquire
      cases hAcquire
    | some found =>
      obtain ⟨info, s₁⟩ := found
      obtain ⟨hKeeps, hInfo⟩ := getInfo_keeps h hGet
      rw [hGet] at hAcquire
      cases info with
      | none =>
        cases hAcquire
        exact ⟨rfl, hKeeps⟩
      | some info =>
        obtain ⟨hType, hInfo⟩ := hInfo info rfl
        have hTake := takeOrCreate_answers hKeeps.wf (hType ▸ hInfo) perl
        have hAnswers := hTake.after hKeeps
        rw [Option.some.inj hAcquire] at hAnswers
        simp only
        split
        · rename_i hObtainable
          rwa [if_pos hObtainable] at hAnswers
        · rename_i hObtainable
          rwa [if_neg hObtainable] at hAnswers

/-- Where `AcquireResource(typeString)` has the id from. -/
def idForName (s : State P A) (perl : PerlAnswer) (typeString : String) : Option Nat :=
  match s.nameToId typeString with
  | some (typeId, s) => if typeId ≠ -1 then s.idFor perl typeId else none
  | none => none

/-- `AcquireResource` by the name. -/
theorem acquireNamed_answers {perl : PerlAnswer} {typeString : String}
    {result : Option Nat × State P A} (h : s.WF)
    (hAcquire : s.acquireNamed perl typeString = some result) :
    Answers ((s.idForName perl typeString).map .counter) s result := by
  unfold acquireNamed at hAcquire
  unfold idForName
  cases hName : s.nameToId typeString with
  | none =>
    rw [hName] at hAcquire
    cases hAcquire
  | some named =>
    obtain ⟨typeId, s₁⟩ := named
    have hKeeps := nameToId_keeps h hName
    rw [hName] at hAcquire
    simp only at hAcquire ⊢
    split at hAcquire
    · rename_i hFound
      rw [if_pos hFound]
      exact (acquireResource_answers hKeeps.wf hAcquire).after hKeeps
    · rename_i hFound
      rw [if_neg hFound]
      cases hAcquire
      exact ⟨rfl, hKeeps⟩

-- ---------------------------------------------------------------------------
-- ReleaseResource
-- ---------------------------------------------------------------------------

/-- A released resource goes into its pool, or is deleted. -/
theorem releaseResource_keeps (h : s.WF) (hOut : s.Out p r)
    (hRelease : s.releaseResource p = some s') : Keeps (some p) s s' := by
  unfold releaseResource at hRelease
  rw [hOut.1] at hRelease
  cases hGet : s.getInfo r.cls.typeId with
  | none =>
    simp only [hGet] at hRelease
    cases hRelease
  | some found =>
    obtain ⟨found, s₁⟩ := found
    obtain ⟨hKeeps, hInfo⟩ := getInfo_keeps h hGet
    simp only [hGet] at hRelease
    cases found with
    | none =>
      cases hRelease
      exact hKeeps.weaken
    | some info =>
      obtain ⟨hType, hInfo⟩ := hInfo info rfl
      have hOut₁ : s₁.Out p r := hKeeps.out p r nofun hOut
      have hSet := hKeeps.wf.set hOut₁.2 (hKeeps.wf.lt_allocated hOut₁.1)
      simp only at hRelease
      split at hRelease
      · cases hRelease
        have hCleared := hOut₁.set r.clear
        have hPush := hCleared.push (hSet (some r.clear)).wf info hType.symm
          (Or.inl (hType ▸ hInfo))
        exact hKeeps.weaken.trans ((hSet (some r.clear)).trans hPush)
      · cases hRelease
        exact hKeeps.weaken.trans (hSet none)

-- ---------------------------------------------------------------------------
-- DeserializeResource
-- ---------------------------------------------------------------------------

/-- Where the resource of `DeserializeResource` has its id from, when there is one. -/
def idFromStream (s : State P A) (perl : PerlAnswer) (resourceType : Int32) (stream : Incoming P) :
    Option Source :=
  match readType resourceType stream with
  | none => none
  | some (idStatus, typeId) =>
    if stream.deserialize.1 then
      (s.idFor perl typeId).bind fun n =>
        if idStatus then (readIdStatus stream).map fun stored => .stream stored.1
        else some (.counter n)
    else none

/-- If the payload cannot be read, the resource is released again. -/
theorem deserializePayload_answers {source : Source} {stream : Incoming P}
    {result : Option Nat × State P A} (h : Hands p source s s₁)
    (hRead : s₁.deserializePayload stream p = some result) :
    Answers (if stream.deserialize.1 then some source else none) s result := by
  have hSet := h.set (fun r => { r with payload := stream.deserialize.2 })
    (fun _ hr => hr) h.counted
  unfold deserializePayload at hRead
  split at hRead
  · rename_i hOk
    cases hRead
    rw [if_pos hOk]
    exact ⟨source, rfl, hSet⟩
  · rename_i hFail
    rw [if_neg hFail]
    obtain ⟨s', hRelease, rfl⟩ := Option.map_eq_some_iff.mp hRead
    obtain ⟨r, hOut, -⟩ := hSet.out
    exact ⟨rfl, hSet.keeps.of_new (releaseResource_keeps hSet.keeps.wf hOut hRelease) hSet.new⟩

/-- `DeserializeResource`, with the id of the stream or one of the registry. -/
theorem deserializeResource_answers {perl : PerlAnswer} {resourceType : Int32} {stream : Incoming P}
    {result : Option Nat × State P A} (h : s.WF)
    (hRead : s.deserializeResource perl resourceType stream = some result) :
    Answers (s.idFromStream perl resourceType stream) s result := by
  unfold deserializeResource at hRead
  unfold idFromStream
  cases hType : readType resourceType stream with
  | none =>
    rw [hType] at hRead
    cases hRead
    exact ⟨rfl, h.keeps⟩
  | some type =>
    obtain ⟨idStatus, typeId⟩ := type
    simp only [hType] at hRead ⊢
    cases hAcquire : s.acquireResource perl typeId with
    | none =>
      rw [hAcquire] at hRead
      cases hRead
    | some acquired =>
      have hAnswers := acquireResource_answers h hAcquire
      obtain ⟨_ | p, s₁⟩ := acquired
      · simp only [hAcquire] at hRead
        cases hRead
        obtain ⟨hNone, hKeeps⟩ := hAnswers
        rw [Option.map_eq_none_iff.mp hNone, Option.bind_none, ite_self]
        exact ⟨rfl, hKeeps⟩
      · obtain ⟨o, hSource, hHands⟩ := hAnswers
        obtain ⟨n, hId, rfl⟩ := Option.map_eq_some_iff.mp hSource
        simp only [hAcquire] at hRead
        rw [hId, Option.bind_some]
        cases idStatus with
        | false => exact deserializePayload_answers hHands hRead
        | true =>
          simp only [if_true] at hRead ⊢
          cases hStored : readIdStatus stream with
          | none =>
            rw [hStored] at hRead
            cases hRead
            obtain ⟨r, hOut, -⟩ := hHands.out
            have hLt := hHands.keeps.wf.lt_allocated hOut.1
            rw [Option.map_none, ite_self]
            exact ⟨rfl, hHands.keeps.of_new (hHands.keeps.wf.set hOut.2 hLt none) hHands.new⟩
          | some stored =>
            obtain ⟨id, status⟩ := stored
            rw [hStored] at hRead
            have hSet : Hands p (.stream id) s _ :=
              hHands.set (fun r => { r with id, status }) (fun _ _ => rfl) nofun
            exact deserializePayload_answers hSet hRead

end State

end HectorCore.Registry
