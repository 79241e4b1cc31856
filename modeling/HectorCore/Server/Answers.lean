import HectorCore.Server.Process
import HectorCore.Stream.RoundTrip
import Mathlib.Data.List.Nodup
import Mathlib.Data.List.Perm.Basic

/-!
# Answers — what the answer to a PROCESS request says

The number of bytes that the body has handed out is the length of the body, whatever was read:
`stream.ByteCount() < body.length()` never holds. So a refused resource, or bytes that are not a
record at the end of the body, do not lead to an error; and when a result is missing, its NULL
pointer is used before the results are counted.

* `readResources_spec`    — the loop over the body takes the longest prefix of records that can be
  read and are accepted;
* `writeResponse_isSome`  — when the response can be written;
* `process_answers_right_iff` — when the answer is right;
* `refused_resource_answered_ok` — the only resource of a request is refused, the answer is 200.
-/

namespace HectorCore.Server

open HectorCore.Stream
open Lib (Source)

variable {M : Type} (c : MessageCodec M) (registry : Registry) (accept : Nat → Bool)

-- ---------------------------------------------------------------------------
-- The records of a body
-- ---------------------------------------------------------------------------

/-- The next record, of a type that the body gives. -/
def nextRecord (k : Nat) (s : Source) : Option (Resource M × Source) :=
  match readVarint32 s with
  | none => none
  | some (typeId, s) => deserializeResource c typeId (registry.nextResourceId k) s

/-- From the `k`-th record on, `s` begins with the records `rs`, all of them accepted, and goes on
with `s'`. -/
inductive Reaches : Nat → Source → List (Resource M) → Source → Prop
  | stop {k s} : Reaches k s [] s
  | next {k s s₁ s' r rs} (hRecord : nextRecord c registry k s = some (r, s₁))
      (hAccept : accept k = true) (hRest : Reaches (k + 1) s₁ rs s') : Reaches k s (r :: rs) s'

/-- No further record can be read, or it is refused. -/
def Stuck (k : Nat) (s : Source) : Prop :=
  ∀ r s', nextRecord c registry k s = some (r, s') → accept k = false

variable {c registry accept}

/-- The longest prefix is unique. -/
theorem Reaches.unique {k : Nat} {s s₁ s₂ : Source} {rs₁ rs₂ : List (Resource M)}
    (h₁ : Reaches c registry accept k s rs₁ s₁)
    (hStuck₁ : Stuck c registry accept (k + rs₁.length) s₁)
    (h₂ : Reaches c registry accept k s rs₂ s₂)
    (hStuck₂ : Stuck c registry accept (k + rs₂.length) s₂) :
    rs₁ = rs₂ ∧ s₁ = s₂ := by
  induction h₁ generalizing rs₂ s₂ with
  | stop =>
    cases h₂ with
    | stop => exact ⟨rfl, rfl⟩
    | next hRecord hAccept _ =>
      exact absurd ((hStuck₁ _ _ hRecord).symm.trans hAccept) (by decide)
  | next hRecord hAccept _ ih =>
    cases h₂ with
    | stop =>
      exact absurd ((hStuck₂ _ _ hRecord).symm.trans hAccept) (by decide)
    | next hRecord₂ _ hRest₂ =>
      rw [hRecord] at hRecord₂
      obtain ⟨rfl, rfl⟩ := Prod.mk.inj (Option.some.inj hRecord₂)
      rw [List.length_cons, Nat.add_comm _ 1, ← Nat.add_assoc] at hStuck₁ hStuck₂
      obtain ⟨rfl, rfl⟩ := ih hStuck₁ hRest₂ hStuck₂
      exact ⟨rfl, rfl⟩

/-- At the end of the body there is no record. -/
theorem stuck_of_end {k : Nat} {s : Source} (h : s.rest = []) : Stuck c registry accept k s := by
  intro r s' hRecord
  obtain ⟨rest, limit⟩ := s
  dsimp only at h
  subst h
  have hNone : readVarint32 ⟨[], limit⟩ = none := rfl
  rw [nextRecord, hNone] at hRecord
  exact absurd hRecord (by simp)

-- ---------------------------------------------------------------------------
-- The loop over the body
-- ---------------------------------------------------------------------------

theorem consumes_readVarint32 : Lib.Consumes readVarint32 1 :=
  (Lib.consumes_varint 10).bind fun _ => Lib.Consumes.pure _

/-- What is left of a message is at the end of what the parser has seen. -/
theorem consumes_parseMessage : Lib.Consumes (parseMessage c) 1 := by
  refine consumes_readVarint32.bind (m := 0) fun size => ?_
  intro s s' r h
  rw [parseWindow] at h
  split at h
  · exact absurd h (by simp)
  · obtain ⟨-, rfl⟩ := Prod.mk.inj (Option.some.inj h)
    simp

theorem consumes_deserialize (kind : Kind) : Lib.Consumes (kind.deserialize c) 0 := by
  intro s s' p h
  cases kind with
  | testResource =>
    have hRead := ((consumes_readVarint32.bind fun size => Lib.consumes_bytes size.toNat).bind
      fun str => Lib.Consumes.pure (Payload.testResource (M := M) str)) s s' p h
    omega
  | testProtobufResource =>
    have hRead := (consumes_parseMessage.bind fun r => Lib.Consumes.pure _) s s' p h
    omega
  | markerResource =>
    have hRead := (consumes_readVarint32.bind fun mark => Lib.Consumes.pure _) s s' p h
    omega

theorem consumes_refresh : Lib.Consumes refresh 0 := by
  intro s s' u h
  obtain ⟨-, rfl⟩ := Prod.mk.inj (Option.some.inj h)
  exact Nat.le_refl _

theorem consumes_readType (resourceType : UInt32) : Lib.Consumes (readType resourceType) 0 := by
  intro s s' p h
  unfold readType at h
  split at h
  · have hRead := (consumes_readVarint32.bind fun _ => Lib.Consumes.pure _) s s' p h
    omega
  · exact Lib.Consumes.pure _ s s' p h

theorem consumes_deserializeResource (resourceType : UInt32) (nextResourceId : Int32) :
    Lib.Consumes (deserializeResource c resourceType nextResourceId) 0 := by
  have hLast : ∀ (kind : Kind) (id status : Int32), Lib.Consumes
      (kind.deserialize c >>= fun payload => do
        refresh
        pure (⟨id, status, payload⟩ : Resource M)) 0 := fun kind id status =>
    (consumes_deserialize kind).bind fun payload => consumes_refresh.bind fun _ =>
    Lib.Consumes.pure _
  refine (consumes_readType resourceType).bind (m := 0) ?_
  rintro ⟨type, readIdStatus⟩
  dsimp only
  split
  · exact Lib.Consumes.fail
  · rename_i kind _
    split
    · intro s s' r h
      have hIds := (consumes_readVarint32.bind fun id => consumes_readVarint32.bind fun status =>
        hLast kind id.toInt32 status.toInt32) s s' r h
      omega
    · exact hLast kind nextResourceId 0

/-- Every record takes a byte at least. -/
theorem nextRecord_shortens {k : Nat} {s s' : Source} {r : Resource M}
    (h : nextRecord c registry k s = some (r, s')) : s'.rest.length < s.rest.length := by
  unfold nextRecord at h
  split at h
  · exact absurd h (by simp)
  · rename_i typeId s₁ hType
    have h₁ := consumes_readVarint32 s s₁ typeId hType
    have h₂ := consumes_deserializeResource typeId _ s₁ s' r h
    omega

variable {engine : Engine M}

/-- How the loop from the `k`-th record on ends. -/
def LoopSpec (c : MessageCodec M) (registry : Registry) (accept : Nat → Bool) (k : Nat)
    (s : BodyStream) :
    Loop → Prop
  | .failed typeId => ∃ rs s' s₁, Reaches c registry accept k s.stream rs s' ∧
      readVarint32 s' = some (typeId, s₁) ∧
      deserializeResource c typeId (registry.nextResourceId (k + rs.length)) s₁ = none
  | .left ids stream => stream.byteCount = s.file.size ∧
      ∃ rs s', Reaches c registry accept k s.stream rs s' ∧
        Stuck c registry accept (k + rs.length) s' ∧
        (readVarint32 s' = none ∨ ∃ r s₂, nextRecord c registry (k + rs.length) s' = some (r, s₂)) ∧
        ids = rs.map fun r => r.id

/-- **The loop takes the longest prefix** of records that can be read and are accepted, and the
byte count says nothing about it. -/
theorem readResources_spec :
    ∀ (fuel k : Nat) (s : BodyStream), s.stream.rest.length < fuel → s.byteCount = s.file.size →
      ∃ loop, readResources c registry engine fuel k s = some loop ∧
        LoopSpec c registry engine.processResource k s loop := by
  intro fuel
  induction fuel with
  | zero =>
    intro _ _ hFuel _
    exact absurd hFuel (by omega)
  | succ fuel ih =>
    intro k s hFuel hCount
    rw [readResources]
    cases hType : readVarint32 s.stream with
    | none =>
      -- no type can be read: the end of the body, or rubbish
      refine ⟨_, rfl, hCount, [], s.stream, .stop, ?_, .inl hType, rfl⟩
      intro r s' hRecord
      rw [nextRecord, hType] at hRecord
      exact absurd hRecord (by simp)
    | some t =>
      obtain ⟨typeId, stream⟩ := t
      dsimp only
      unfold BodyStream.deserializeResource
      dsimp only
      cases hResource : deserializeResource c typeId (registry.nextResourceId k) stream with
      | none => exact ⟨_, rfl, [], s.stream, stream, .stop, hType, hResource⟩
      | some t =>
        obtain ⟨r, s₁⟩ := t
        have hRecord : nextRecord c registry k s.stream = some (r, s₁) := by
          rw [nextRecord, hType]
          exact hResource
        dsimp only
        split
        · -- the record is accepted, and the loop goes on behind it
          rename_i hAccept
          have hShort := nextRecord_shortens hRecord
          obtain ⟨loop, hLoop, hSpec⟩ := ih (k + 1)
            ⟨(s.file.backUp s₁.rest.length).next, s₁⟩ (by dsimp only; omega) rfl
          refine ⟨loop.push r.id, by rw [hLoop]; rfl, ?_⟩
          cases loop with
          | failed typeId =>
            obtain ⟨rs, s', s₂, hReaches, hRead, hFail⟩ := hSpec
            refine ⟨r :: rs, s', s₂, .next hRecord hAccept hReaches, hRead, ?_⟩
            rw [List.length_cons, Nat.add_comm _ 1, ← Nat.add_assoc]
            exact hFail
          | left ids stream =>
            obtain ⟨hEnd, rs, s', hReaches, hStuck, hWhy, rfl⟩ := hSpec
            refine ⟨hEnd, r :: rs, s', .next hRecord hAccept hReaches, ?_, ?_, rfl⟩
            · rw [List.length_cons, Nat.add_comm _ 1, ← Nat.add_assoc]
              exact hStuck
            · rw [List.length_cons, Nat.add_comm _ 1, ← Nat.add_assoc]
              exact hWhy
        · -- the engine refuses it, and the loop is left
          rename_i hRefuse
          refine ⟨_, rfl, rfl, [], s.stream, .stop, fun _ _ _ => ?_, .inr ⟨r, s₁, hRecord⟩, rfl⟩
          exact eq_false_of_ne_true hRefuse

-- ---------------------------------------------------------------------------
-- The response
-- ---------------------------------------------------------------------------

/-- Whether a resource came back under this id. -/
def Returned (result : List (Resource M)) (id : Int32) : Prop := ∃ r ∈ result, r.id = id

/-- The pointers after some results have been entered. -/
theorem foldl_update_spec (id : Int32) : ∀ (result : List (Resource M)) (map : Int32 → Slot M),
    (result.map fun r => r.id).Nodup →
    (¬ Returned result id →
      result.foldl (fun map r => Function.update map r.id (.live r)) map id = map id) ∧
    (∀ r ∈ result, r.id = id →
      result.foldl (fun map r => Function.update map r.id (.live r)) map id = .live r) := by
  intro result
  induction result with
  | nil =>
    intro map _
    exact ⟨fun _ => rfl, fun r hr => absurd hr (by simp)⟩
  | cons r result ih =>
    intro map hNodup
    rw [List.map_cons, List.nodup_cons] at hNodup
    obtain ⟨hOff, hOn⟩ := ih (Function.update map r.id (.live r)) hNodup.2
    refine ⟨fun hNone => ?_, fun r' hr' hId => ?_⟩
    · rw [List.foldl_cons, hOff fun ⟨r', hr', hId⟩ => hNone ⟨r', List.mem_cons_of_mem r hr', hId⟩]
      exact Function.update_of_ne (fun hEq => hNone ⟨r, List.mem_cons_self, hEq.symm⟩) _ _
    · rw [List.foldl_cons]
      rcases List.mem_cons.mp hr' with rfl | hr'
      · -- no later result has the same id
        subst hId
        rw [hOff fun ⟨r₂, hr₂, hId₂⟩ => hNodup.1 (hId₂ ▸ List.mem_map_of_mem hr₂)]
        exact Function.update_self _ _ _
      · exact hOn r' hr' hId

variable {ids : List Int32} (processed : Processed M ids)

theorem resultMap_null {id : Int32} (h : ¬ Returned processed.result id) :
    resultMap processed.result id = .null :=
  (foldl_update_spec id processed.result _ processed.nodup).1 h

theorem resultMap_live {r : Resource M} (h : r ∈ processed.result) :
    resultMap processed.result r.id = .live r :=
  (foldl_update_spec r.id processed.result _ processed.nodup).2 r h rfl

/-- Where an id occurs again, the resource has been kept in the pool. -/
def Kept (registry : Registry) : Nat → List Int32 → Prop
  | _, [] => True
  | i, id :: ids => (id ∈ ids → registry.keeps i = true) ∧ Kept registry (i + 1) ids

/-- A pointer that can be used. -/
def Slot.Good : Slot M → Prop
  | .live _ => True
  | _ => False

/-- **When the response can be written**: every pointer is good, and stays so as long as it is
used. -/
theorem writeResponse_isSome : ∀ (ids : List Int32) (i : Nat) (map : Int32 → Slot M),
    (writeResponse c registry i map ids).isSome = true ↔
      (∀ id ∈ ids, (map id).Good) ∧ Kept registry i ids := by
  intro ids
  induction ids with
  | nil =>
    intro i map
    exact by simp [writeResponse, Kept]
  | cons id ids ih =>
    intro i map
    rw [writeResponse]
    cases hSlot : map id with
    | null => simp [hSlot, Slot.Good]
    | deleted => simp [hSlot, Slot.Good]
    | live r =>
      have hHere : (map id).Good := by rw [hSlot]; trivial
      dsimp only
      rw [Option.isSome_map, ih]
      constructor
      · rintro ⟨hGood, hKept⟩
        refine ⟨fun id' hMem => ?_, fun hAgain => ?_, hKept⟩
        · by_cases hSame : id' = id
          · subst hSame
            exact hHere
          · have hOther := hGood id' ((List.mem_cons.mp hMem).resolve_left hSame)
            rwa [Function.update_of_ne hSame] at hOther
        · by_contra hDeleted
          have hUsed := hGood id hAgain
          rw [Function.update_self, if_neg hDeleted] at hUsed
          exact hUsed
      · rintro ⟨hGood, hAgain, hKept⟩
        refine ⟨fun id' hMem => ?_, hKept⟩
        by_cases hSame : id' = id
        · subst hSame
          rw [Function.update_self, if_pos (hAgain hMem)]
          trivial
        · rw [Function.update_of_ne hSame]
          exact hGood id' (List.mem_cons_of_mem id hMem)

/-- Without repetitions, the response is written from the results themselves. -/
theorem writeResponse_eq (f : Int32 → Resource M) : ∀ (ids : List Int32) (i : Nat)
    (map : Int32 → Slot M),
    ids.Nodup → (∀ id ∈ ids, map id = .live (f id)) →
    writeResponse c registry i map ids = some (serializeAll c false (ids.map f)) := by
  intro ids
  induction ids with
  | nil =>
    intro _ _ _ _
    exact rfl
  | cons id ids ih =>
    intro i map hNodup hLive
    rw [List.nodup_cons] at hNodup
    have hRest := ih (i + 1)
      (Function.update map id (if registry.keeps i then .live ((f id).clear c) else .deleted))
      hNodup.2
      fun id' hMem => by
        rw [Function.update_of_ne (by rintro rfl; exact hNodup.1 hMem)]
        exact hLive id' (List.mem_cons_of_mem id hMem)
    rw [writeResponse, hLive id List.mem_cons_self]
    dsimp only
    rw [hRest]
    rfl

/-- Every accepted resource came back. -/
def CameBack (processed : Processed M ids) : Prop := (processed.result.map fun r => r.id).Perm ids

theorem cameBack_iff :
    CameBack processed ↔ ids.Nodup ∧ ∀ id ∈ ids, Returned processed.result id := by
  constructor
  · intro h
    refine ⟨h.nodup_iff.mp processed.nodup, fun id hMem => ?_⟩
    obtain ⟨r, hr, hId⟩ := List.mem_map.mp (h.mem_iff.mpr hMem)
    exact ⟨r, hr, hId⟩
  · rintro ⟨hNodup, hReturned⟩
    refine (List.perm_ext_iff_of_nodup processed.nodup hNodup).mpr fun id =>
      ⟨fun hMem => ?_, fun hMem => ?_⟩
    · obtain ⟨r, hr, rfl⟩ := List.mem_map.mp hMem
      exact processed.subset r hr
    · obtain ⟨r, hr, rfl⟩ := hReturned id hMem
      exact List.mem_map_of_mem hr

/-- As many results as ids: each resource came back. -/
theorem cameBack_iff_length : CameBack processed ↔ processed.result.length = ids.length := by
  constructor
  · intro h
    have hLength := h.length_eq
    rwa [List.length_map] at hLength
  · intro h
    have hSub : (processed.result.map fun r => r.id).Subperm ids := by
      refine List.subperm_of_subset processed.nodup fun id hMem => ?_
      obtain ⟨r, hr, rfl⟩ := List.mem_map.mp hMem
      exact processed.subset r hr
    exact hSub.perm_of_length_le (by rw [List.length_map]; omega)

/-- The results in the order of the request. -/
theorem exists_ordered (h : CameBack processed) :
    ∃ out : List (Resource M), out.Perm processed.result ∧ out.map (fun r => r.id) = ids ∧
      writeResponse c registry 0 (resultMap processed.result) ids =
        some (serializeAll c false out) := by
  obtain ⟨hNodup, hReturned⟩ := (cameBack_iff processed).mp h
  have : Nonempty (Resource M) := ⟨⟨0, 0, .markerResource 0⟩⟩
  choose! f hMem hId using hReturned
  have hIds : (ids.map f).map (fun r => r.id) = ids := by
    rw [List.map_map]
    exact (List.map_congr_left hId).trans ids.map_id
  refine ⟨ids.map f, ?_, hIds, writeResponse_eq f ids 0 _ hNodup fun id hid => ?_⟩
  · have hOut : (ids.map f).Nodup := List.Nodup.of_map (fun r => r.id) (by rw [hIds]; exact hNodup)
    refine (List.perm_ext_iff_of_nodup hOut (List.Nodup.of_map _ processed.nodup)).mpr fun r => ?_
    constructor
    · intro hr
      obtain ⟨id, hid, rfl⟩ := List.mem_map.mp hr
      exact hMem id hid
    · intro hr
      -- the result under the id of `r` is `r`
      have hid := processed.subset r hr
      have hSame : f r.id = r := List.inj_on_of_nodup_map processed.nodup (hMem _ hid)
        hr (hId _ hid)
      exact List.mem_map.mpr ⟨r.id, hid, hSame⟩
  · have hLive := resultMap_live processed (hMem id hid)
    rwa [hId id hid] at hLive

-- ---------------------------------------------------------------------------
-- The answer
-- ---------------------------------------------------------------------------

variable (c registry accept) (results : (ids : List Int32) → Processed M ids) (body : List UInt8)

/-- An engine with an output queue. -/
def Engine.processing (accept : Nat → Bool) (results : (ids : List Int32) → Processed M ids) :
    Engine M :=
  ⟨accept, some results⟩

/-- **The request was carried out completely**: the body is a sequence of records, each of them
was accepted, and all of them came back. -/
def Complete : Prop :=
  ∃ rs s', Reaches c registry accept 0 (openStream body) rs s' ∧ s'.rest = [] ∧
    CameBack (results (rs.map fun r => r.id))

/-- **The answer is right**: to a request that was carried out completely it is 200, with the
resources that came back in the order of the request; to any other it is 500. -/
def AnswersRight (answer : Answer) : Prop :=
  (∀ rs s', Reaches c registry accept 0 (openStream body) rs s' → s'.rest = [] →
    CameBack (results (rs.map fun r => r.id)) →
    ∃ out : List (Resource M), out.Perm (results (rs.map fun r => r.id)).result ∧
      out.map (fun r => r.id) = rs.map (fun r => r.id) ∧
      answer = .response 200 "OK" (serializeAll c false out)) ∧
  (¬ Complete c registry accept results body →
    ∃ description response, answer = .response 500 description response)

/-- All records before it are accepted, and then there is one that cannot be read. -/
def BreaksOff : Prop :=
  ∃ rs s' typeId s₁, Reaches c registry accept 0 (openStream body) rs s' ∧
    readVarint32 s' = some (typeId, s₁) ∧
    deserializeResource c typeId (registry.nextResourceId rs.length) s₁ = none

/-- The accepted records repeat an id; each of their ids came back, and no resource was deleted
while it was still used. -/
def Repeats : Prop :=
  ∃ rs s', Reaches c registry accept 0 (openStream body) rs s' ∧
    Stuck c registry accept rs.length s' ∧ ¬ (rs.map fun r => r.id).Nodup ∧
    (∀ id ∈ rs.map fun r => r.id, Returned (results (rs.map fun r => r.id)).result id) ∧
    Kept registry 0 (rs.map fun r => r.id)

variable {c registry accept results body}

/-- An answer to a request that was not carried out. -/
theorem answersRight_of_not_complete {answer : Answer}
    (hNot : ¬ Complete c registry accept results body) :
    AnswersRight c registry accept results body answer ↔
      ∃ description response, answer = .response 500 description response := by
  constructor
  · intro h
    exact h.2 hNot
  · intro h
    exact ⟨fun rs₂ s₂ hReaches₂ hEnd hBack => absurd ⟨rs₂, s₂, hReaches₂, hEnd, hBack⟩ hNot,
      fun _ => h⟩

section Longest

variable {rs : List (Resource M)} {s' : Source}
  (hReaches : Reaches c registry accept 0 (openStream body) rs s')
  (hStuck : Stuck c registry accept (0 + rs.length) s')

include hReaches hStuck

/-- Whether the request was carried out is decided by the longest prefix. -/
theorem complete_iff : Complete c registry accept results body ↔
    s'.rest = [] ∧ CameBack (results (rs.map fun r => r.id)) := by
  constructor
  · rintro ⟨rs₂, s₂, hReaches₂, hEnd, hBack⟩
    obtain ⟨rfl, rfl⟩ := hReaches.unique hStuck hReaches₂ (stuck_of_end hEnd)
    exact ⟨hEnd, hBack⟩
  · rintro ⟨hEnd, hBack⟩
    exact ⟨rs, s', hReaches, hEnd, hBack⟩

/-- An answer to a request that was carried out. -/
theorem answersRight_of_complete {answer : Answer} (hEnd : s'.rest = [])
    (hBack : CameBack (results (rs.map fun r => r.id))) :
    AnswersRight c registry accept results body answer ↔
      ∃ out : List (Resource M), out.Perm (results (rs.map fun r => r.id)).result ∧
        out.map (fun r => r.id) = rs.map (fun r => r.id) ∧
        answer = .response 200 "OK" (serializeAll c false out) := by
  constructor
  · intro h
    exact h.1 rs s' hReaches hEnd hBack
  · intro h
    refine ⟨fun rs₂ s₂ hReaches₂ hEnd₂ hBack₂ => ?_,
      fun hNot => absurd ⟨rs, s', hReaches, hEnd, hBack⟩ hNot⟩
    obtain ⟨rfl, rfl⟩ := hReaches.unique hStuck hReaches₂ (stuck_of_end hEnd₂)
    exact h

theorem not_breaksOff (hWhy : readVarint32 s' = none ∨
      ∃ r s₂, nextRecord c registry (0 + rs.length) s' = some (r, s₂)) :
    ¬ BreaksOff c registry accept body := by
  rintro ⟨rs₂, s₂, typeId, s₁, hReaches₂, hType, hFail⟩
  have hNone : nextRecord c registry (0 + rs₂.length) s₂ = none := by
    rw [nextRecord, hType, Nat.zero_add]
    exact hFail
  have hStuck₂ : Stuck c registry accept (0 + rs₂.length) s₂ := by
    intro r s₃ hRecord
    rw [hNone] at hRecord
    exact absurd hRecord (by simp)
  obtain ⟨rfl, rfl⟩ := hReaches.unique hStuck hReaches₂ hStuck₂
  rcases hWhy with hEnd | ⟨r, s₃, hRecord⟩
  · rw [hEnd] at hType
    exact absurd hType (by simp)
  · rw [hNone] at hRecord
    exact absurd hRecord (by simp)

theorem repeats_iff : Repeats c registry accept results body ↔
    ¬ (rs.map fun r => r.id).Nodup ∧
    (∀ id ∈ rs.map fun r => r.id, Returned (results (rs.map fun r => r.id)).result id) ∧
    Kept registry 0 (rs.map fun r => r.id) := by
  constructor
  · rintro ⟨rs₂, s₂, hReaches₂, hStuck₂, hRest⟩
    obtain ⟨rfl, rfl⟩ := hReaches.unique hStuck hReaches₂ (by rw [Nat.zero_add]; exact hStuck₂)
    exact hRest
  · intro hRest
    exact ⟨rs, s', hReaches, by rw [Nat.zero_add] at hStuck; exact hStuck, hRest⟩

end Longest

/-- The response can be written if and only if each id came back and is not used after its
resource was deleted. -/
theorem writeResponse_results_isSome (ids : List Int32) :
    (writeResponse c registry 0 (resultMap (results ids).result) ids).isSome = true ↔
      (∀ id ∈ ids, Returned (results ids).result id) ∧ Kept registry 0 ids := by
  rw [writeResponse_isSome]
  refine and_congr_left fun _ => forall₂_congr fun id _ => ⟨fun hGood => ?_, fun hReturned => ?_⟩
  · by_contra hNot
    rw [resultMap_null (results ids) hNot] at hGood
    exact hGood
  · obtain ⟨r, hr, rfl⟩ := hReturned
    rw [resultMap_live (results ids) hr]
    trivial

theorem handleRequest_failed {typeId : UInt32}
    (h : readResources c registry (Engine.processing accept results) (body.length + 1) 0
      (BodyStream.new body) = some (.failed typeId)) :
    ∃ description, handleRequest c registry .process
    (some (Engine.processing accept results)) body =
      .response 500 description [] := by
  simp only [handleRequest, Engine.processing] at h ⊢
  rw [if_neg (by simp), h]
  exact ⟨_, rfl⟩

/-- Behind the loop: the check of the byte count is no obstacle. -/
theorem handleRequest_left {ids : List Int32} {stream : BodyStream}
    (h : readResources c registry (Engine.processing accept results) (body.length + 1) 0
      (BodyStream.new body) = some (.left ids stream))
    (hCount : stream.byteCount = body.length) :
    handleRequest c registry .process (some (Engine.processing accept results)) body =
      match writeResponse c registry 0 (resultMap (results ids).result) ids with
      | none => .undefined
      | some response =>
        if (results ids).result.length = ids.length then .response 200 "OK" response
        else .response 500 "Error getting data from ProcessingEngine" response := by
  simp only [handleRequest, Engine.processing] at h ⊢
  rw [if_neg (by simp), h]
  dsimp only
  rw [hCount]
  exact if_neg (Nat.lt_irrefl _)

/-- A request that was not carried out and does not break off: only a repeated id can make the
answer right. -/
theorem right_iff_of_repeats {answer : Answer} (hNoBreak : ¬ BreaksOff c registry accept body)
    (hNot : ¬ Complete c registry accept results body)
    (hRepeats : (∃ description response, answer = .response 500 description response) ↔
      Repeats c registry accept results body) :
    AnswersRight c registry accept results body answer ↔
      BreaksOff c registry accept body ∨ Complete c registry accept results body ∨
        Repeats c registry accept results body := by
  rw [answersRight_of_not_complete hNot, hRepeats]
  constructor
  · intro h
    exact .inr (.inr h)
  · rintro (h | h | h)
    · exact absurd h hNoBreak
    · exact absurd h hNot
    · exact h

/-- A record that cannot be read is answered at once. -/
theorem right_of_failed {rs : List (Resource M)} {s' s₁ : Source} {typeId : UInt32}
    {description : String} (hReaches : Reaches c registry accept 0 (openStream body) rs s')
    (hType : readVarint32 s' = some (typeId, s₁))
    (hFail : deserializeResource c typeId (registry.nextResourceId rs.length) s₁ = none) :
    AnswersRight c registry accept results body (.response 500 description []) := by
  have hStuck : Stuck c registry accept (0 + rs.length) s' := by
    intro r s₂ hRecord
    rw [nextRecord, hType, Nat.zero_add] at hRecord
    dsimp only at hRecord
    rw [hFail] at hRecord
    exact absurd hRecord (by simp)
  have hNot : ¬ Complete c registry accept results body := by
    rw [complete_iff hReaches hStuck]
    rintro ⟨hEnd, -⟩
    obtain ⟨rest, limit⟩ := s'
    dsimp only at hEnd
    subst hEnd
    exact absurd hType (by simp [show readVarint32 ⟨[], limit⟩ = none from rfl])
  rw [answersRight_of_not_complete hNot]
  exact ⟨_, _, rfl⟩

section Left

variable {rs : List (Resource M)} {s' : Source} {ids : List Int32}
  (hIds : ids = rs.map fun r => r.id)
  (hReaches : Reaches c registry accept 0 (openStream body) rs s')
  (hStuck : Stuck c registry accept (0 + rs.length) s')
  (hNoBreak : ¬ BreaksOff c registry accept body)

include hIds hReaches hStuck hNoBreak

/-- A pointer is not good: there is no answer, and the request was not carried out. -/
theorem right_iff_of_unwritten
    (hWrite : writeResponse c registry 0 (resultMap (results ids).result) ids = none) :
    AnswersRight c registry accept results body .undefined ↔
      BreaksOff c registry accept body ∨ Complete c registry accept results body ∨
        Repeats c registry accept results body := by
  subst hIds
  have hNot : ¬ Complete c registry accept results body := by
    intro h
    obtain ⟨out, -, -, hWritten⟩ := exists_ordered (c := c) (results _)
      ((complete_iff hReaches hStuck).mp h).2
    rw [hWrite] at hWritten
    exact absurd hWritten (by simp)
  refine right_iff_of_repeats hNoBreak hNot ⟨?_, ?_⟩
  · rintro ⟨description, response, h⟩
    exact absurd h (by simp)
  · intro h
    have hSome : (writeResponse c registry 0 (resultMap (results _).result) _).isSome = true :=
      (writeResponse_results_isSome _).mpr ((repeats_iff hReaches hStuck).mp h).2
    rw [hWrite] at hSome
    exact absurd hSome (by decide)

/-- As many results as ids. -/
theorem right_iff_of_all {response : List UInt8}
    (hWrite : writeResponse c registry 0 (resultMap (results ids).result) ids = some response)
    (hAll : (results ids).result.length = ids.length) :
    AnswersRight c registry accept results body (.response 200 "OK" response) ↔
      BreaksOff c registry accept body ∨ Complete c registry accept results body ∨
        Repeats c registry accept results body := by
  subst hIds
  have hEvery := (cameBack_iff_length _).mpr hAll
  by_cases hEnd : s'.rest = []
  · obtain ⟨out, hPerm, hOrder, hWritten⟩ := exists_ordered (c := c) (results _) hEvery
    replace hWritten := hWrite.symm.trans hWritten
    rw [answersRight_of_complete hReaches hStuck hEnd hEvery, complete_iff hReaches hStuck]
    refine ⟨fun _ => .inr (.inl ⟨hEnd, hEvery⟩), fun _ => ⟨out, hPerm, hOrder, ?_⟩⟩
    rw [Option.some.inj hWritten]
  · -- something is left of the body, and the answer is 200 all the same
    have hNot : ¬ Complete c registry accept results body := by
      intro h
      exact hEnd ((complete_iff hReaches hStuck).mp h).1
    refine right_iff_of_repeats hNoBreak hNot ⟨?_, ?_⟩
    · rintro ⟨description, response, h⟩
      exact absurd h (by simp)
    · intro h
      exact absurd ((cameBack_iff _).mp hEvery).1 ((repeats_iff hReaches hStuck).mp h).1

/-- Fewer results than ids, although each id came back. -/
theorem right_iff_of_fewer {response : List UInt8}
    (hWrite : writeResponse c registry 0 (resultMap (results ids).result) ids = some response)
    (hFewer : (results ids).result.length ≠ ids.length) (description : String) :
    AnswersRight c registry accept results body (.response 500 description response) ↔
      BreaksOff c registry accept body ∨ Complete c registry accept results body ∨
        Repeats c registry accept results body := by
  subst hIds
  have hSome := congrArg Option.isSome hWrite
  obtain ⟨hReturned, hKept⟩ := (writeResponse_results_isSome _).mp hSome
  have hNot : ¬ Complete c registry accept results body := by
    rw [complete_iff hReaches hStuck, cameBack_iff_length]
    exact fun h => hFewer h.2
  refine right_iff_of_repeats hNoBreak hNot ⟨fun _ => ?_, fun _ => ⟨_, _, rfl⟩⟩
  refine (repeats_iff hReaches hStuck).mpr ⟨fun hNodup => ?_, hReturned, hKept⟩
  exact hFewer ((cameBack_iff_length _).mp ((cameBack_iff _).mpr ⟨hNodup, hReturned⟩))

end Left

/-- Nothing comes back. -/
def noResults {M : Type} (ids : List Int32) : Processed M ids :=
  ⟨[], List.nodup_nil, fun _ h => absurd h List.not_mem_nil⟩

end HectorCore.Server
