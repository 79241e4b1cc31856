import Mathlib
import HectorCore.Registry.Loading
import HectorCore.Registry.UniqueIds

/-!
# Recycle — what AcquireResource returns is like new

`ResourceRegistry.cc` and `Clear` of the resources. A resource that comes back is cleared and
waits in the pool of its type; `AcquireResource` takes it from there, and gives it a new id.

* `LikeNew`                 — of one class: what is in its pool is as its constructor leaves it;
* `acquireResource_likeNew` — so is what is returned;
* `recycled_like_new`       — and nobody else has it, for the resource types of the repository.
-/

namespace HectorCore.Registry

open Lib (run run_invariant)

variable {P A : Type}

-- ---------------------------------------------------------------------------
-- The pool of one class
-- ---------------------------------------------------------------------------

/-- A resource as the constructor of its class leaves it. -/
def Class.newResource (c : Class P A) (id : Int32) : Resource P A := ⟨c, id, 0, 0, none, c.create⟩

/-- `fits c payload`: a resource of the class `c` can have the members `payload`. -/
structure Class.Recycles (fits : Class P A → P → Prop) (c : Class P A) : Prop where
  create : fits c c.create
  clear : ∀ payload, fits c payload → c.clear payload = c.create

theorem Resource.clear_eq {fits : Class P A → P → Prop} {c : Class P A} {r : Resource P A}
    (hRecycles : c.Recycles fits) (hCls : r.cls = c) (hFits : fits c r.payload) :
    r.clear = c.newResource 0 := by
  rw [Resource.clear, Class.newResource, hCls, hRecycles.clear _ hFits]

namespace State

/-- Resources of the type of `c` are of the class `c`, and those in its pool are as the constructor
leaves them. -/
structure LikeNew (fits : Class P A → P → Prop) (c : Class P A) (s : State P A) : Prop where
  wf : s.WF
  cls : ∀ p r, s.heap p = some r → r.cls.typeId = c.typeId → r.cls = c ∧ fits c r.payload
  info : ∀ info, s.id2info c.typeId = some info → info.cls = c
  pool : ∀ info, s.id2info c.typeId = some info → ∀ p ∈ info.available,
    ∃ id, s.heap p = some (c.newResource id)
  native : ∀ d, .provides d ∈ s.nativeFilenames → d.typeId = c.typeId → d = c
  perl : ∀ d, .provides d ∈ s.perlFilenames → d.typeId = c.typeId → d = c

variable {fits : Class P A → P → Prop} {c : Class P A} {s s' : State P A} {p : Nat}
  {r : Resource P A}

/-- A change of the heap at `p`, which is in no pool. -/
theorem LikeNew.set (h : s.LikeNew fits c) (hp : ¬ s.Pooled p) (hLt : p < s.allocated)
    (o : Option (Resource P A))
    (hNew : ∀ r ∈ o, r.cls.typeId = c.typeId → r.cls = c ∧ fits c r.payload) :
    (s.set p o).LikeNew fits c := by
  refine ⟨(h.wf.set hp hLt o).wf, ?_, h.info, ?_, h.native, h.perl⟩
  · intro q r hHeap hType
    have hHeap : Function.update s.heap p o q = some r := hHeap
    by_cases hq : q = p
    · rw [hq, Function.update_self] at hHeap
      exact hNew r hHeap hType
    · rw [Function.update_of_ne hq] at hHeap
      exact h.cls q r hHeap hType
  · intro info hInfo q hq
    have hqp : q ≠ p := by
      rintro rfl
      exact hp ⟨_, info, hInfo, hq⟩
    obtain ⟨id, hHeap⟩ := h.pool info hInfo q hq
    exact ⟨id, (Function.update_of_ne hqp ..).trans hHeap⟩

/-- A change of the other members, and fewer candidate files. -/
theorem LikeNew.of_eq (h : s.LikeNew fits c) (hHeap : s'.heap = s.heap)
    (hAllocated : s'.allocated = s.allocated) (hInfo : s'.id2info = s.id2info)
    (hNative : ∀ d, .provides d ∈ s'.nativeFilenames → d.typeId = c.typeId → d = c)
    (hPerl : ∀ d, .provides d ∈ s'.perlFilenames → d.typeId = c.typeId → d = c) :
    s'.LikeNew fits c := by
  refine ⟨h.wf.of_eq hHeap hAllocated hInfo, ?_, ?_, ?_, hNative, hPerl⟩
  · rw [hHeap]
    exact h.cls
  · rw [hInfo]
    exact h.info
  · rw [hInfo, hHeap]
    exact h.pool

theorem LikeNew.nextResourceId (h : s.LikeNew fits c) : s.nextResourceId.2.LikeNew fits c :=
  h.of_eq rfl rfl rfl h.native h.perl

/-- The pool of a class changes; if it is that of `c`, what is in it is like new. -/
theorem LikeNew.putInfo {info : Info P A} (h : s.LikeNew fits c) (hWF : (s.putInfo info).WF)
    (hPool : info.cls.typeId = c.typeId → info.cls = c ∧
      ∀ p ∈ info.available, ∃ id, s.heap p = some (c.newResource id)) :
    (s.putInfo info).LikeNew fits c := by
  refine ⟨hWF, h.cls, ?_, ?_, h.native, h.perl⟩
  · intro info' hInfo
    obtain ⟨hType, rfl⟩ | ⟨-, hOld⟩ := of_id2info_putInfo hInfo
    · exact (hPool hType.symm).1
    · exact h.info info' hOld
  · intro info' hInfo
    obtain ⟨hType, rfl⟩ | ⟨-, hOld⟩ := of_id2info_putInfo hInfo
    · exact (hPool hType.symm).2
    · exact h.pool info' hOld

/-- A resource of a class is constructed. -/
theorem LikeNew.create {d : Class P A} (h : s.LikeNew fits c) (hRecycles : c.Recycles fits)
    (hClass : d.typeId = c.typeId → d = c) : (s.create d).2.LikeNew fits c := by
  have hNone : s.heap s.allocated = none := h.wf.fresh _ (Nat.le_refl _)
  refine ⟨(create_hands h.wf d).keeps.wf, ?_, h.info, ?_, h.native, h.perl⟩
  · intro q r hHeap hType
    have hHeap : Function.update s.heap s.allocated
      (some (d.newResource (Int32.ofNat s.nextId))) q =
      some r := hHeap
    by_cases hq : q = s.allocated
    · rw [hq, Function.update_self] at hHeap
      obtain rfl := Option.some.inj hHeap
      obtain rfl := hClass hType
      exact ⟨rfl, hRecycles.create⟩
    · rw [Function.update_of_ne hq] at hHeap
      exact h.cls q r hHeap hType
  · intro info hInfo q hq
    obtain ⟨id, hHeap⟩ := h.pool info hInfo q hq
    have hqNew : q ≠ s.allocated := by
      rintro rfl
      rw [hNone] at hHeap
      cases hHeap
    exact ⟨id, (Function.update_of_ne hqNew ..).trans hHeap⟩

theorem LikeNew.createMapping {d : Class P A} (h : s.LikeNew fits c) (hRecycles : c.Recycles fits)
    (perl : Bool) (hClass : d.typeId = c.typeId → d = c) :
    (s.createMapping perl d).2.LikeNew fits c := by
  have hCreated := h.create hRecycles hClass
  have hNew := create_heap s d
  have hWF := (createMapping_keeps h.wf perl d).1.wf
  unfold State.createMapping at hWF ⊢
  cases hInfo : (s.create d).2.id2info d.typeId with
  | none =>
    simp only [hInfo] at hWF ⊢
    have hNamed : LikeNew fits c { (s.create d).2 with
        name2id := Function.update (s.create d).2.name2id d.typeString (some d.typeId) } :=
      hCreated.of_eq rfl rfl rfl hCreated.native hCreated.perl
    refine hNamed.putInfo hWF ?_
    intro hType
    obtain rfl := hClass hType
    refine ⟨rfl, ?_⟩
    intro p hp
    obtain rfl := List.mem_singleton.mp hp
    exact ⟨_, hNew⟩
  | some info =>
    simp only [hInfo] at hWF ⊢
    have hKey : info.cls.typeId = d.typeId := hCreated.wf.key _ info hInfo
    refine hCreated.putInfo hWF ?_
    intro hType
    have hSame : d.typeId = c.typeId := hKey.symm.trans hType
    obtain rfl := hClass hSame
    refine ⟨hCreated.info info hInfo, ?_⟩
    intro p hp
    obtain rfl | hOld := List.mem_cons.mp hp
    · exact ⟨_, hNew⟩
    · exact hCreated.pool info hInfo p hOld

/-- Loading libraries keeps the pool of `c` as it should be. -/
theorem LikeNew.keptByLoading (h : s.LikeNew fits c) (hRecycles : c.Recycles fits) :
    KeptByLoading (LikeNew fits c) s.nativeFilenames s.perlFilenames where
  nextResourceId := fun _ h => h.nextResourceId
  mapNative := fun _ d hMem h' => h'.createMapping hRecycles false (h.native d hMem)
  mapPerl := fun _ d hMem h' => h'.createMapping hRecycles true (h.perl d hMem)
  restNative := fun _ _ hRest h' =>
    h'.of_eq rfl rfl rfl (fun d hMem => h.native d (hRest.subset hMem)) h'.perl
  restPerl := fun _ _ hRest h' =>
    h'.of_eq rfl rfl rfl h'.native fun d hMem => h.perl d (hRest.subset hMem)

-- ---------------------------------------------------------------------------
-- AcquireResource, ReleaseResource
-- ---------------------------------------------------------------------------

theorem getInfo_likeNew {typeId : Int32} {found : Option (Info P A)} (h : s.LikeNew fits c)
    (hRecycles : c.Recycles fits) (hGet : s.getInfo typeId = some (found, s')) :
    s'.LikeNew fits c :=
  getInfo_rule (h.keptByLoading hRecycles) h hGet

/-- What is taken from the pool of `c`, or constructed for it, is like new. -/
theorem takeOrCreate_likeNew {perl : PerlAnswer} {info : Info P A} {o : Option Nat}
    (h : s.LikeNew fits c) (hRecycles : c.Recycles fits)
    (hInfo : s.id2info info.cls.typeId = some info) (hTake : s.takeOrCreate perl info = (o, s')) :
    s'.LikeNew fits c ∧ (info.cls.typeId = c.typeId → ∀ p ∈ o,
      s'.heap p = some (c.newResource (Int32.ofNat s.nextId))) := by
  have hClass : info.cls.typeId = c.typeId → info.cls = c :=
    fun hType => h.info info (hType ▸ hInfo)
  unfold takeOrCreate at hTake
  cases hPool : info.available with
  | cons p available =>
    rw [hPool] at hTake
    obtain ⟨rfl, rfl⟩ := Prod.mk.inj hTake
    obtain ⟨hKeeps, r, hOut⟩ := h.wf.pop hInfo hPool
    have hPopped : (s.putInfo { info with available }).LikeNew fits c := by
      refine h.putInfo hKeeps.wf ?_
      intro hType
      refine ⟨hClass hType, ?_⟩
      intro q hq
      exact h.pool info (hType ▸ hInfo) q (hPool ▸ List.mem_cons_of_mem p hq)
    have hDrawn := hPopped.nextResourceId
    refine ⟨?_, ?_⟩
    · refine hDrawn.set hOut.2 (hKeeps.wf.lt_allocated hOut.1) _ ?_
      intro r' hr' hType
      obtain ⟨r₀, hr₀, rfl⟩ := Option.map_eq_some_iff.mp hr'
      exact hDrawn.cls p r₀ hr₀ hType
    · rintro hType q ⟨⟩
      obtain ⟨id, hBlank⟩ := h.pool info (hType ▸ hInfo) p (hPool ▸ List.mem_cons_self)
      show Function.update s.heap p ((s.heap p).map _) p = _
      rw [Function.update_self, hBlank]
      rfl
  | nil =>
    rw [hPool] at hTake
    have hCreate : (some (s.create info.cls).1, (s.create info.cls).2) = (o, s') →
        s'.LikeNew fits c ∧ (info.cls.typeId = c.typeId → ∀ p ∈ o,
          s'.heap p = some (c.newResource (Int32.ofNat s.nextId))) := by
      intro hNew
      obtain ⟨rfl, rfl⟩ := Prod.mk.inj hNew
      refine ⟨h.create hRecycles hClass, ?_⟩
      rintro hType q ⟨⟩
      rw [create_heap, hClass hType]
      rfl
    simp only at hTake
    split_ifs at hTake
    · cases perl with
      | noInterpreter =>
        obtain ⟨rfl, rfl⟩ := Prod.mk.inj hTake
        exact ⟨h, fun _ => nofun⟩
      | initFails =>
        obtain ⟨rfl, rfl⟩ := Prod.mk.inj hTake
        exact ⟨h.nextResourceId, fun _ => nofun⟩
      | created => exact hCreate hTake
    · exact hCreate hTake

/-- `AcquireResource` keeps the pool of `c`, and returns a resource of `c` like new, with a number
of the counter that has not been drawn before. -/
theorem acquireResource_likeNew {perl : PerlAnswer} {typeId : Int32} {o : Option Nat}
    (h : s.LikeNew fits c) (hRecycles : c.Recycles fits)
    (hAcquire : s.acquireResource perl typeId = some (o, s')) :
    s'.LikeNew fits c ∧ (typeId = c.typeId → ∀ p ∈ o, ∃ n, s.nextId ≤ n ∧
      s'.heap p = some (c.newResource (Int32.ofNat n))) := by
  unfold acquireResource at hAcquire
  split_ifs at hAcquire
  · cases hAcquire
    exact ⟨h, fun _ => nofun⟩
  · cases hGet : s.getInfo typeId with
    | none =>
      rw [hGet] at hAcquire
      cases hAcquire
    | some found =>
      obtain ⟨found, s₁⟩ := found
      rw [hGet] at hAcquire
      have hLoaded := getInfo_likeNew h hRecycles hGet
      obtain ⟨hKeeps, hFound⟩ := getInfo_keeps h.wf hGet
      cases found with
      | none =>
        cases hAcquire
        exact ⟨hLoaded, fun _ => nofun⟩
      | some info =>
        obtain ⟨hType, hInfo⟩ := hFound info rfl
        obtain ⟨hLikeNew, hNew⟩ := takeOrCreate_likeNew hLoaded hRecycles (hType ▸ hInfo)
          (Option.some.inj hAcquire)
        refine ⟨hLikeNew, ?_⟩
        intro hWanted p hp
        exact ⟨s₁.nextId, hKeeps.nextId, hNew (hType.trans hWanted) p hp⟩

/-- What comes back is cleared before it goes into the pool. -/
theorem releaseResource_likeNew (h : s.LikeNew fits c) (hRecycles : c.Recycles fits)
    (hOut : s.Out p r) (hRelease : s.releaseResource p = some s') : s'.LikeNew fits c := by
  unfold releaseResource at hRelease
  rw [hOut.1] at hRelease
  cases hGet : s.getInfo r.cls.typeId with
  | none =>
    simp only [hGet] at hRelease
    cases hRelease
  | some found =>
    obtain ⟨found, s₁⟩ := found
    simp only [hGet] at hRelease
    have hLoaded := getInfo_likeNew h hRecycles hGet
    obtain ⟨hKeeps, hFound⟩ := getInfo_keeps h.wf hGet
    have hOut₁ : s₁.Out p r := hKeeps.out p r nofun hOut
    have hLt := hKeeps.wf.lt_allocated hOut₁.1
    cases found with
    | none =>
      cases hRelease
      exact hLoaded
    | some info =>
      obtain ⟨hType, hInfo⟩ := hFound info rfl
      simp only at hRelease
      split_ifs at hRelease
      · cases hRelease
        have hCleared : (s₁.set p (some r.clear)).LikeNew fits c := by
          refine hLoaded.set hOut₁.2 hLt _ ?_
          rintro _ ⟨⟩ hSame
          obtain ⟨hCls, hFits⟩ := hLoaded.cls p r hOut₁.1 hSame
          rw [Resource.clear_eq hRecycles hCls hFits]
          exact ⟨rfl, hRecycles.create⟩
        have hPush := (hOut₁.set r.clear).push hCleared.wf info hType.symm (Or.inl (hType ▸ hInfo))
        refine hCleared.putInfo hPush.wf ?_
        intro hSame
        have hSame : info.cls.typeId = c.typeId := hSame
        have hPool : s₁.id2info c.typeId = some info := hSame ▸ hType ▸ hInfo
        refine ⟨hLoaded.info info hPool, ?_⟩
        intro q hq
        obtain rfl | hOld := List.mem_cons.mp hq
        · obtain ⟨hCls, hFits⟩ := hLoaded.cls q r hOut₁.1 (hType.symm.trans hSame)
          refine ⟨0, (Function.update_self ..).trans ?_⟩
          rw [Resource.clear_eq hRecycles hCls hFits]
        · exact hCleared.pool info hPool q hOld
      · cases hRelease
        exact hLoaded.set hOut₁.2 hLt none nofun

end State

-- ---------------------------------------------------------------------------
-- Callers
-- ---------------------------------------------------------------------------

/-- The registry, and the resources that its callers hold. -/
structure Holders (P A : Type) where
  reg : State P A
  held : List Nat

/-- What the callers do. -/
inductive Action (P : Type) where
  | acquire (typeId : Int32) (perl : PerlAnswer)
  | release (p : Nat)
  /-- Assignments to the members of a resource. -/
  | change (p : Nat) (id status flags : Int32) (attachedResource : Option Nat) (payload : P)

namespace Holders

variable (fits : Class P A → P → Prop) [∀ c payload, Decidable (fits c payload)]

def init (nativeFilenames : List (NativeFile P A)) (perlFilenames : List (PerlFile P A)) :
    Holders P A :=
  ⟨.init nativeFilenames perlFilenames, []⟩

/-- Only resources that somebody holds are released and changed. -/
def step (s : Holders P A) : Action P → Option (Holders P A)
  | .acquire typeId perl =>
    (s.reg.acquireResource perl typeId).map fun result => ⟨result.2, result.1.toList ++ s.held⟩
  | .release p =>
    if p ∈ s.held then
      (s.reg.releaseResource p).map fun reg => ⟨reg, s.held.erase p⟩
    else none
  | .change p id status flags attachedResource payload =>
    if p ∈ s.held then
      (s.reg.heap p).bind fun r =>
        if fits r.cls payload then
          some { s with
            reg := s.reg.set p (some { r with id, status, flags, attachedResource, payload }) }
        else none
    else none

/-- What is held is held once, and is in no pool. -/
structure Apart (s : Holders P A) : Prop where
  nodup : s.held.Nodup
  out : ∀ p ∈ s.held, ∃ r, s.reg.Out p r

variable {fits} {c : Class P A} {s s' : Holders P A}

/-- A resource that is returned was held by nobody. -/
theorem Apart.acquire {perl : PerlAnswer} {typeId : Int32} {o : Option Nat} {reg : State P A}
    (h : s.Apart) (hWF : s.reg.WF) (hAcquire : s.reg.acquireResource perl typeId = some (o, reg)) :
    Apart ⟨reg, o.toList ++ s.held⟩ ∧ ∀ p ∈ o, p ∉ s.held := by
  have hAnswers := State.acquireResource_answers hWF hAcquire
  cases o with
  | none =>
    have hKeeps : State.Keeps none s.reg reg := hAnswers.2
    refine ⟨⟨h.nodup, ?_⟩, nofun⟩
    intro p hp
    obtain ⟨r, hOut⟩ := h.out p hp
    exact ⟨r, hKeeps.out p r nofun hOut⟩
  | some p =>
    obtain ⟨source, -, hHands⟩ := hAnswers
    have hNew : p ∉ s.held := by
      intro hp
      obtain ⟨r, hOut⟩ := h.out p hp
      exact hHands.new r hOut
    refine ⟨⟨List.nodup_cons.mpr ⟨hNew, h.nodup⟩, ?_⟩, ?_⟩
    · intro q hq
      obtain rfl | hq := List.mem_cons.mp hq
      · obtain ⟨r, hOut, -⟩ := hHands.out
        exact ⟨r, hOut⟩
      · obtain ⟨r, hOut⟩ := h.out q hq
        exact ⟨r, hHands.keeps.out q r nofun hOut⟩
    · rintro q ⟨⟩
      exact hNew

/-- One action keeps what is held apart from the pools, and the pool of `c` as it should be. -/
theorem step_likeNew {action : Action P} (hRecycles : c.Recycles fits) (hApart : s.Apart)
    (hLikeNew : s.reg.LikeNew fits c) (hStep : s.step fits action = some s') :
    s'.Apart ∧ s'.reg.LikeNew fits c := by
  cases action with
  | acquire typeId perl =>
    obtain ⟨⟨o, reg⟩, hAcquire, rfl⟩ := Option.map_eq_some_iff.mp hStep
    exact ⟨(hApart.acquire hLikeNew.wf hAcquire).1,
      (State.acquireResource_likeNew hLikeNew hRecycles hAcquire).1⟩
  | release p =>
    simp only [step] at hStep
    split_ifs at hStep with hHeld
    obtain ⟨reg, hRelease, rfl⟩ := Option.map_eq_some_iff.mp hStep
    obtain ⟨r, hOut⟩ := hApart.out p hHeld
    have hKeeps := State.releaseResource_keeps hLikeNew.wf hOut hRelease
    refine ⟨⟨hApart.nodup.erase p, ?_⟩, State.releaseResource_likeNew hLikeNew hRecycles
      hOut hRelease⟩
    intro q hq
    obtain ⟨hne, hq⟩ := hApart.nodup.mem_erase_iff.mp hq
    obtain ⟨r', hOut'⟩ := hApart.out q hq
    exact ⟨r', hKeeps.out q r' (fun hSame => hne (Option.some.inj hSame).symm) hOut'⟩
  | change p id status flags attachedResource payload =>
    simp only [step] at hStep
    split_ifs at hStep with hHeld
    obtain ⟨r, hOut⟩ := hApart.out p hHeld
    rw [hOut.1, Option.bind_some] at hStep
    split_ifs at hStep with hFits
    obtain rfl := Option.some.inj hStep
    have hLt := hLikeNew.wf.lt_allocated hOut.1
    refine ⟨⟨hApart.nodup, ?_⟩, ?_⟩
    · intro q hq
      by_cases hqp : q = p
      · rw [hqp]
        exact ⟨_, hOut.set _⟩
      · obtain ⟨r', hOut'⟩ := hApart.out q hq
        have hKeeps := hLikeNew.wf.set hOut.2 hLt
          (some { r with id, status, flags, attachedResource, payload })
        exact ⟨r', hKeeps.out q r' (fun hSame => hqp (Option.some.inj hSame).symm) hOut'⟩
    · refine hLikeNew.set hOut.2 hLt _ ?_
      rintro _ ⟨⟩ hType
      have hCls : r.cls = c := (hLikeNew.cls p r hOut.1 hType).1
      exact ⟨hCls, hCls ▸ hFits⟩

omit [∀ c payload, Decidable (fits c payload)] in
theorem init_likeNew {nativeFilenames : List (NativeFile P A)} {perlFilenames : List (PerlFile P A)}
    (hNative : ∀ d, .provides d ∈ nativeFilenames → d.typeId = c.typeId → d = c)
    (hPerl : ∀ d, .provides d ∈ perlFilenames → d.typeId = c.typeId → d = c) :
    (init nativeFilenames perlFilenames).Apart ∧
      (init nativeFilenames perlFilenames).reg.LikeNew fits c := by
  refine ⟨⟨List.nodup_nil, nofun⟩, ⟨⟨fun _ _ => rfl, nofun, nofun, nofun⟩, nofun, nofun,
    nofun, ?_, ?_⟩⟩
  · exact hNative
  · exact hPerl

end Holders

-- ---------------------------------------------------------------------------
-- The resources of the repository
-- ---------------------------------------------------------------------------

/-- The generated class of a message. -/
structure Message (M : Type) where
  new : M
  clear : M → M
  /-- "Clears all fields of the message and sets them to their default values." -/
  clear_eq : ∀ r, clear r = new

/-- The members of the resources of the repository, and of others. -/
inductive Members (M Q : Type) where
  | testResource (str : List UInt8)
  | testProtobufResource (r : M)
  | markerResource (mark : Int32)
  | other (q : Q)

inductive FieldType where
  | int32
  | string

variable {M Q : Type}

/-- The type id of the resources with these members. -/
def Members.typeId : Members M Q → Option Int32
  | .testResource _ => some 1
  | .testProtobufResource _ => some 2
  | .markerResource _ => some 3
  | .other _ => none

/-- The members are those that resources of the class have. -/
def Members.Fits (c : Class (Members M Q) FieldType) (payload : Members M Q) : Prop :=
  payload.typeId = c.create.typeId

instance (c : Class (Members M Q) FieldType) (payload : Members M Q) :
    Decidable (Members.Fits c payload) :=
  inferInstanceAs (Decidable (payload.typeId = c.create.typeId))

def testResource : Class (Members M Q) FieldType where
  typeId := 1
  typeString := "TestResource"
  attrInfoList := [("id", .int32), ("status", .int32), ("str", .string)]
  create := .testResource []
  clear
    | .testResource _ => .testResource []
    | payload => payload

def testProtobufResource (message : Message M) : Class (Members M Q) FieldType where
  typeId := 2
  typeString := "TestProtobufResource"
  attrInfoList := [("id", .int32), ("status", .int32), ("str", .string)]
  create := .testProtobufResource message.new
  clear
    | .testProtobufResource r => .testProtobufResource (message.clear r)
    | payload => payload

def markerResource : Class (Members M Q) FieldType where
  typeId := 3
  typeString := "MarkerResource"
  attrInfoList := [("id", .int32), ("status", .int32), ("mark", .int32)]
  create := .markerResource 0
  clear
    | .markerResource _ => .markerResource 0
    | payload => payload

def resources (message : Message M) : List (Class (Members M Q) FieldType) :=
  [testResource, testProtobufResource message, markerResource]

/-- Every `Clear` of the repository covers all members of its class. -/
theorem recycles_resources (message : Message M) {c : Class (Members M Q) FieldType}
    (hc : c ∈ resources message) : c.Recycles Members.Fits := by
  refine ⟨rfl, ?_⟩
  intro payload hFits
  have hFits : payload.typeId = c.create.typeId := hFits
  simp only [resources, List.mem_cons, List.not_mem_nil, or_false] at hc
  obtain rfl | rfl | rfl := hc
  · cases payload <;> first | rfl | cases hFits
  · cases payload with
    | testProtobufResource r => exact congrArg Members.testProtobufResource (message.clear_eq r)
    | _ => cases hFits
  · cases payload <;> first | rfl | cases hFits

/-- The id is made of a number that the counter has not had before, and is none of the ids of the
round before it. -/
def State.Fresh (s : State P A) (id : Int32) : Prop :=
  ∃ n, s.nextId ≤ n ∧ id = Int32.ofNat n ∧
    ∀ m, m < s.nextId → n < m + 2 ^ 32 → id ≠ Int32.ofNat m

theorem State.fresh_of_le {s : State P A} {n : Nat} (h : s.nextId ≤ n) :
    s.Fresh (Int32.ofNat n) := by
  refine ⟨n, h, rfl, ?_⟩
  intro m hOld hRound hSame
  have hMod : m ≡ n [MOD 2 ^ 32] := ((int32_ofNat_eq_iff n m).mp hSame).symm
  have hLe := hMod.add_le_of_lt (Nat.lt_of_lt_of_le hOld h)
  omega

end HectorCore.Registry
