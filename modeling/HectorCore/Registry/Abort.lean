import HectorCore.Registry.UniqueIds
import HectorCore.Stream.Input

/-!
# Abort — what a stream can do to the assertion of LoadResourceLibrary

`DeserializeResource(stream, 0, ..)` takes the type of the resource from the stream, seven bits of
a varint, and asks the registry for a resource of that type. The registry looks for a library if
it does not know the type, and asserts that the type is not zero.

* `getInfo_eq_none_iff`              — the assertion fails for type zero only, if it is unknown;
* `releaseResource_of_registered`    — giving back a resource of a known type is no risk;
* `deserialize_never_aborts_iff`     — which streams abort, binary or text.
-/

namespace HectorCore.Stream

/-- `ReadVarint32` of both kinds of streams. -/
def InputStream.readVarint32 : InputStream → Option UInt32 × InputStream
  | .binary s =>
    match Stream.readVarint32 s.source with
    | none => (none, .binary s)
    | some (value, source) =>
      (some value, .binary { s with
        source, pos := s.pos + (s.source.rest.length - source.rest.length) })
  | .text is =>
    let (value, is) := Text.readVarint32 is
    (value, .text is)

end HectorCore.Stream

namespace HectorCore.Registry

open HectorCore.Lib HectorCore.Stream

variable {P A : Type}

/-- What `DeserializeResource(stream, 0, ..)` reads from a stream, one after the other;
`deserialize` is the method of the resource. -/
def Incoming.ofStream (deserialize : InputStream → Bool × P) (stream : InputStream) : Incoming P :=
  match stream.readVarint32 with
  | (none, stream) => ⟨none, none, none, deserialize stream⟩
  | (some type, stream) =>
    if type &&& 0x80 ≠ 0 then
      let (id, stream) := stream.readVarint32
      let (status, stream) := stream.readVarint32
      ⟨some type, id, status, deserialize stream⟩
    else ⟨some type, none, none, deserialize stream⟩

/-- The type comes first in the stream. -/
theorem Incoming.type_ofStream (deserialize : InputStream → Bool × P) (stream : InputStream) :
    (Incoming.ofStream deserialize stream).type = stream.readVarint32.1 := by
  unfold Incoming.ofStream
  split
  · rename_i h
    rw [h]
  · rename_i h
    rw [h]
    split <;> rfl

namespace State

variable {s s' : State P A} {p : Nat}

/-- The assertion that a name or a type is given. -/
theorem loadResourceLibrary_eq_none_iff {typeString : Option String} {typeId : Int32} :
    s.loadResourceLibrary typeString typeId = none ↔ typeString = none ∧ typeId = 0 := by
  unfold loadResourceLibrary
  split
  · rename_i h
    exact iff_of_true rfl h
  · rename_i h
    refine iff_of_false ?_ h
    split <;> simp

/-- The assertion fails for type zero only, if nobody has registered it. -/
theorem getInfo_eq_none_iff {typeId : Int32} :
    s.getInfo typeId = none ↔ typeId = 0 ∧ s.id2info 0 = none := by
  unfold getInfo
  split
  · rename_i info hInfo
    refine iff_of_false (by simp) ?_
    rintro ⟨rfl, hNone⟩
    rw [hInfo] at hNone
    cases hNone
  · rename_i hInfo
    rw [loadResourceLibrary_eq_none_iff]
    constructor
    · rintro ⟨-, rfl⟩
      exact ⟨rfl, hInfo⟩
    · rintro ⟨hZero, -⟩
      exact ⟨rfl, hZero⟩

/-- There is a resource at `p`, and its type is known. -/
def Registered (s : State P A) (p : Nat) : Prop :=
  ∃ r info, s.heap p = some r ∧ s.id2info r.cls.typeId = some info

/-- A resource of a known type can be released. -/
theorem releaseResource_of_registered (h : s.Registered p) : s.releaseResource p ≠ none := by
  obtain ⟨r, info, hHeap, hInfo⟩ := h
  have hGet : s.getInfo r.cls.typeId = some (some info, s) := by rw [getInfo, hInfo]
  unfold releaseResource
  rw [hHeap]
  simp only [hGet]
  split <;> simp

/-- Members of the resource change, its class does not. -/
theorem Registered.set (h : s.Registered p) (f : Resource P A → Resource P A)
    (hCls : ∀ r, (f r).cls = r.cls) : (s.set p ((s.heap p).map f)).Registered p := by
  obtain ⟨r, info, hHeap, hInfo⟩ := h
  refine ⟨f r, info, ?_, ?_⟩
  · show Function.update s.heap p ((s.heap p).map f) p = _
    rw [Function.update_self, hHeap, Option.map_some]
  · rw [hCls r]
    exact hInfo

/-- A new resource is of the type that was asked for, -/
theorem create_registered {info : Info P A} (hInfo : s.id2info info.cls.typeId = some info) :
    (s.create info.cls).2.Registered (s.create info.cls).1 := by
  refine ⟨⟨info.cls, Int32.ofNat s.nextId, 0, 0, none, info.cls.create⟩, info, ?_, hInfo⟩
  exact Function.update_self ..

/-- and so is one from the pool, or from an interpreter. -/
theorem takeOrCreate_registered {info : Info P A} {perl : PerlAnswer} (h : s.WF)
    (hInfo : s.id2info info.cls.typeId = some info)
    (hTake : s.takeOrCreate perl info = (some p, s')) : s'.Registered p := by
  unfold takeOrCreate at hTake
  split at hTake
  · rename_i q available hPool
    obtain ⟨r, hHeap, hType⟩ := h.typed _ info hInfo q (hPool ▸ List.mem_cons_self)
    obtain ⟨hq, rfl⟩ := Prod.mk.inj hTake
    obtain rfl := Option.some.inj hq
    have hPopped : ((s.putInfo { info with available }).nextResourceId.2).Registered q :=
      ⟨r, { info with available }, hHeap, by rw [hType]; exact Function.update_self ..⟩
    exact hPopped.set _ fun _ => rfl
  · split_ifs at hTake
    · cases perl with
      | noInterpreter => cases hTake
      | initFails => cases hTake
      | created =>
        obtain ⟨hq, rfl⟩ := Prod.mk.inj hTake
        obtain rfl := Option.some.inj hq
        exact create_registered hInfo
    · obtain ⟨hq, rfl⟩ := Prod.mk.inj hTake
      obtain rfl := Option.some.inj hq
      exact create_registered hInfo

/-- What is acquired is of a known type. -/
theorem acquireResource_registered {perl : PerlAnswer} {typeId : Int32} (h : s.WF)
    (hAcquire : s.acquireResource perl typeId = some (some p, s')) : s'.Registered p := by
  unfold acquireResource at hAcquire
  split_ifs at hAcquire
  · cases hAcquire
  · cases hGet : s.getInfo typeId with
    | none =>
      rw [hGet] at hAcquire
      cases hAcquire
    | some found =>
      obtain ⟨found, s₁⟩ := found
      rw [hGet] at hAcquire
      obtain ⟨hKeeps, hFound⟩ := getInfo_keeps h hGet
      cases found with
      | none => cases hAcquire
      | some info =>
        obtain ⟨hType, hInfo⟩ := hFound info rfl
        exact takeOrCreate_registered hKeeps.wf (hType ▸ hInfo) (Option.some.inj hAcquire)

/-- An assertion fails for type zero only, if nobody has registered it. -/
theorem acquireResource_eq_none_iff {perl : PerlAnswer} {typeId : Int32} :
    s.acquireResource perl typeId = none ↔ typeId = 0 ∧ s.id2info 0 = none := by
  unfold acquireResource
  split_ifs with hNeg
  · refine iff_of_false (by simp) ?_
    rintro ⟨rfl, -⟩
    exact absurd hNeg (by decide)
  · rw [← getInfo_eq_none_iff]
    cases s.getInfo typeId with
    | none => simp
    | some found =>
      obtain ⟨info, s₁⟩ := found
      cases info <;> simp

theorem deserializePayload_ne_none {stream : Incoming P} (h : s.Registered p) :
    s.deserializePayload stream p ≠ none := by
  have hSet := h.set (fun r => { r with payload := stream.deserialize.2 }) fun _ => rfl
  unfold deserializePayload
  split_ifs
  · simp
  · rw [ne_eq, Option.map_eq_none_iff]
    exact releaseResource_of_registered hSet

/-- The type on the wire is taken for a signed number, and is none below zero. -/
theorem toInt32_eq_zero_iff (n : UInt32) : n.toInt32 = 0 ↔ n = 0 := by
  constructor
  · intro h
    have hBack : n.toInt32.toUInt32 = (0 : Int32).toUInt32 := congrArg Int32.toUInt32 h
    rwa [UInt32.toUInt32_toInt32] at hBack
  · rintro rfl
    rfl

/-- `DeserializeResource(stream, 0, ..)` fails an assertion exactly on a record of type zero. -/
theorem deserializeResource_eq_none_iff {perl : PerlAnswer} {stream : Incoming P} (h : s.WF) :
    s.deserializeResource perl 0 stream = none ↔
      (∃ type, stream.type = some type ∧ type &&& 0x7f = 0) ∧ s.id2info 0 = none := by
  cases hType : stream.type with
  | none => simp [deserializeResource, readType, hType]
  | some type =>
    have hRead : readType 0 stream = some (type &&& 0x80 != 0, (type &&& 0x7f).toInt32) := by
      rw [readType, if_pos rfl, hType]
      rfl
    have hIff : (∃ type', some type = some type' ∧ type' &&& 0x7f = 0) ↔
      (type &&& 0x7f).toInt32 = 0 := by
      rw [toInt32_eq_zero_iff]
      constructor
      · rintro ⟨type', hSame, hZero⟩
        rw [Option.some.inj hSame]
        exact hZero
      · exact fun hZero => ⟨type, rfl, hZero⟩
    have hAcquire : s.acquireResource perl (type &&& 0x7f).toInt32 = none ↔
        (type &&& 0x7f).toInt32 = 0 ∧ s.id2info 0 = none := acquireResource_eq_none_iff
    rw [hIff, ← hAcquire]
    unfold deserializeResource
    rw [hRead]
    generalize (type &&& 0x7f).toInt32 = typeId
    generalize (type &&& 0x80 != 0) = idStatus
    dsimp only
    cases hAcquire : s.acquireResource perl typeId with
    | none => exact iff_of_true rfl rfl
    | some result =>
      obtain ⟨o, s₁⟩ := result
      refine iff_of_false ?_ (by simp)
      cases o with
      | none => simp
      | some p =>
        have hRegistered := acquireResource_registered h hAcquire
        cases idStatus with
        | false => exact deserializePayload_ne_none hRegistered
        | true =>
          dsimp only
          rw [if_pos rfl]
          cases readIdStatus stream with
          | none => simp
          | some idStatus =>
            obtain ⟨id, status⟩ := idStatus
            exact deserializePayload_ne_none
              (hRegistered.set (fun r => { r with id, status }) fun _ => rfl)

end State

/--
**Which streams abort.** Take any libraries, any sequence of calls of the registry, and any stream,
binary or text, at any place. `DeserializeResource(stream, 0, ..)` comes back, with a resource or
with `NULL`, if and only if there is no varint to read, or one of its lowest seven bits is set,
or a class of type zero has been registered.
-/
theorem deserialize_never_aborts_iff (nativeFilenames : List (NativeFile P A))
    (perlFilenames : List (PerlFile P A)) {calls : List (Call P)} {s : System P A}
    (hRun : run System.step (System.init nativeFilenames perlFilenames) calls = some s)
    (perl : PerlAnswer) (deserialize : InputStream → Bool × P) (stream : InputStream) :
    s.reg.deserializeResource perl 0 (Incoming.ofStream deserialize stream) ≠ none ↔
      (∀ type, stream.readVarint32.1 = some type → type &&& 0x7f ≠ 0) ∨ s.reg.id2info 0 ≠ none := by
  have hInv : s.Inv := run_invariant System.Inv (fun _ _ _ h hStep => System.step_inv h hStep) hRun
    (System.inv_init nativeFilenames perlFilenames)
  rw [ne_eq, State.deserializeResource_eq_none_iff hInv.wf, Incoming.type_ofStream, not_and_or]
  refine or_congr ?_ Iff.rfl
  push Not
  rfl

/-- A record of type 1 after the library of `TestResource` has been loaded. -/
theorem deserialize_never_aborts_testResource :
    ∃ s : System (List UInt8) Unit,
      run System.step (System.init [.provides System.testResource] [])
        [.acquire 1 .created] = some s ∧
      s.reg.deserializeResource .created 0
        (Incoming.ofStream (fun stream => (true, stream.rest))
        (.binary ⟨openStream [1, 97], 0, 0⟩)) ≠
          none := by
  obtain ⟨s, hRun⟩ : ∃ s : System (List UInt8) Unit, run System.step
      (System.init [.provides System.testResource] []) [.acquire 1 .created] = some s := ⟨_, rfl⟩
  refine ⟨s, hRun, (deserialize_never_aborts_iff _ _ hRun _ _ _).mpr (Or.inl ?_)⟩
  intro type hType
  obtain rfl := Option.some.inj hType
  decide

/-- One byte, zero: the assertion fails. -/
theorem zero_byte_aborts :
    (State.init [.provides System.testResource] []).deserializeResource .created 0
      (Incoming.ofStream (fun stream => (true, stream.rest)) (.binary ⟨openStream [0], 0, 0⟩)) =
        none := by
  rfl

end HectorCore.Registry
