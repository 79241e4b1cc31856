import HectorCore.Server.Answers

/-!
# Failed — what a failed PROCESS request leaves behind

`HandleRequest` returns at once when a record cannot be decoded, although resources before it are
already in the engine: nobody asks for them any more. When results are missing, the loop that
writes the response takes a NULL pointer from the map before the results are counted.

The engine decides which resources it accepts, which of them come back, and which ones it releases
itself (one that no output filter takes is released by the processor). A resource that is accepted
and neither returned to the request nor released stays in the output queue or in
`finishedResources`.

* `requestEffects`           — what the request does to resources, beside its answer;
* `null_mem_pointers_iff`    — when the response loop meets a NULL pointer;
* `failed_request_clean_iff` — when a failed request leaves nothing behind.
-/

namespace HectorCore.Server

open HectorCore.Stream
open Lib (Source)

variable {M : Type}

-- ---------------------------------------------------------------------------
-- Effects
-- ---------------------------------------------------------------------------

/-- The resources that the loop over the body puts into the engine. -/
def acceptedResources (c : MessageCodec M) (registry : Registry) (accept : Nat → Bool) :
    Nat → Nat → Source → List (Resource M)
  | 0, _, _ => []
  | fuel + 1, k, s =>
    match nextRecord c registry k s with
    | none => []
    | some (r, s) =>
      if accept k then r :: acceptedResources c registry accept fuel (k + 1) s else []

/-- The pointers that the response loop serializes and releases, up to the first one that is not
good: nothing is known behind it. -/
def pointers (c : MessageCodec M) (registry : Registry) :
    Nat → (Int32 → Slot M) → List Int32 → List (Slot M)
  | _, _, [] => []
  | i, map, id :: ids =>
    match map id with
    | .null => [.null]
    | .deleted => [.deleted]
    | .live r =>
      let released := if registry.keeps i then .live (r.clear c) else .deleted
      .live r :: pointers c registry (i + 1) (Function.update map id released) ids

/-- What a request does to resources: those that the engine accepted, those that came back to it,
and the pointers that it serialized and released. -/
structure Effects (M : Type) where
  accepted : List (Resource M)
  returned : List (Resource M)
  pointers : List (Slot M)

/-- The effects of `HandleRequest` for PROCESS. `GetProcessedResources` is not called when the
request ends early. -/
def requestEffects (c : MessageCodec M) (registry : Registry) (accept : Nat → Bool)
    (results : (ids : List Int32) → Processed M ids) (body : List UInt8) : Effects M :=
  let accepted := acceptedResources c registry accept (body.length + 1) 0 (openStream body)
  match readResources c registry (Engine.processing accept results) (body.length + 1) 0
      (BodyStream.new body) with
  | none | some (.failed _) => ⟨accepted, [], []⟩
  | some (.left ids stream) =>
    if stream.byteCount < body.length then ⟨accepted, [], []⟩
    else
      let result := (results ids).result
      ⟨accepted, result, pointers c registry 0 (resultMap result) ids⟩

/-- What the engine does with the resources it accepts: which ones it releases itself, and which
one came back under an id. -/
structure Fates where
  released : Nat → Bool
  origin : Int32 → Nat

/-- The `k`-th accepted resource came back. -/
def Fates.Back (fates : Fates) (result : List (Resource M)) (k : Nat) : Prop :=
  ∃ r ∈ result, fates.origin r.id = k

/-- **A failed request leaves nothing behind**: unless it was carried out completely, no NULL
pointer is serialized or released, and every resource that the engine accepted is returned to the
request or released. -/
def FailsCleanly (c : MessageCodec M) (registry : Registry) (accept : Nat → Bool)
    (results : (ids : List Int32) → Processed M ids) (fates : Fates) (body : List UInt8) : Prop :=
  ¬ Complete c registry accept results body →
    .null ∉ (requestEffects c registry accept results body).pointers ∧
    ∀ k < (requestEffects c registry accept results body).accepted.length,
      fates.Back (requestEffects c registry accept results body).returned k ∨
        fates.released k = true

-- ---------------------------------------------------------------------------
-- The response loop
-- ---------------------------------------------------------------------------

variable {c : MessageCodec M} {registry : Registry} {accept : Nat → Bool}
  {results : (ids : List Int32) → Processed M ids} {fates : Fates} {body : List UInt8}

/-- The response is written if all the pointers are good. -/
theorem writeResponse_isSome_iff_pointers : ∀ (ids : List Int32) (i : Nat) (map : Int32 → Slot M),
    (writeResponse c registry i map ids).isSome = true ↔ ∀ x ∈ pointers c registry i map ids,
    x.Good := by
  intro ids
  induction ids with
  | nil =>
    intro i map
    simp [writeResponse, pointers]
  | cons id ids ih =>
    intro i map
    rw [writeResponse, pointers]
    cases map id with
    | null => simp [Slot.Good]
    | deleted => simp [Slot.Good]
    | live r =>
      dsimp only
      rw [Option.isSome_map, ih, List.forall_mem_cons]
      exact (and_iff_right trivial).symm

/-- An element of `x :: xs` and what is in front of it: `x` itself, or `x` is in front. -/
theorem exists_prefix_cons {α : Type} {P : List α → α → Prop} {x : α} {xs : List α} :
    (∃ before a, before ++ [a] <+: x :: xs ∧ P before a) ↔
      P [] x ∨ ∃ before a, before ++ [a] <+: xs ∧ P (x :: before) a := by
  constructor
  · rintro ⟨before, a, hPrefix, hP⟩
    cases before with
    | nil =>
      obtain ⟨rfl, -⟩ := List.cons_prefix_cons.mp hPrefix
      exact .inl hP
    | cons y before =>
      obtain ⟨rfl, hRest⟩ := List.cons_prefix_cons.mp hPrefix
      exact .inr ⟨before, a, hRest, hP⟩
  · rintro (hP | ⟨before, a, hPrefix, hP⟩)
    · exact ⟨[], x, List.cons_prefix_cons.mpr ⟨rfl, List.nil_prefix⟩, hP⟩
    · exact ⟨x :: before, a, List.cons_prefix_cons.mpr ⟨rfl, hPrefix⟩, hP⟩

/-- The response loop takes a NULL pointer exactly behind a part of the ids that it can write. -/
theorem null_mem_pointers : ∀ (ids : List Int32) (i : Nat) (map : Int32 → Slot M),
    .null ∈ pointers c registry i map ids ↔
      ∃ before id, before ++ [id] <+: ids ∧
        (writeResponse c registry i map before).isSome = true ∧ map id = .null := by
  intro ids
  induction ids with
  | nil =>
    intro i map
    refine ⟨fun h => absurd h List.not_mem_nil, ?_⟩
    rintro ⟨before, id, hPrefix, -⟩
    exact absurd (List.prefix_nil.mp hPrefix) (by simp)
  | cons x ids ih =>
    intro i map
    rw [exists_prefix_cons]
    cases hSlot : map x with
    | null =>
      have hHere : .null ∈ pointers c registry i map (x :: ids) := by
        rw [pointers, hSlot]
        exact List.mem_singleton.mpr rfl
      exact iff_of_true hHere (.inl ⟨rfl, rfl⟩)
    | deleted =>
      have hNot : .null ∉ pointers c registry i map (x :: ids) := by
        rw [pointers, hSlot]
        simp
      refine iff_of_false hNot ?_
      rintro (h | ⟨before, id, -, hWrite, -⟩)
      · exact absurd h (by simp)
      · rw [writeResponse, hSlot] at hWrite
        exact absurd hWrite (by simp)
    | live r =>
      have hStill : ∀ id, Function.update map x
          (if registry.keeps i then .live (r.clear c) else .deleted) id = .null ↔
            map id = .null := by
        intro id
        by_cases hSame : id = x
        · rw [hSame, Function.update_self, hSlot]
          split <;> simp
        · rw [Function.update_of_ne hSame]
      have hStep : (.null ∈ pointers c registry i map (x :: ids)) ↔
          .null ∈ pointers c registry (i + 1) (Function.update map x
            (if registry.keeps i then .live (r.clear c) else .deleted)) ids := by
        rw [pointers, hSlot]
        simp
      rw [hStep, ih]
      have hFirst : (Slot.live r = .null) = False := by simp
      rw [hFirst, and_false, false_or]
      refine exists₂_congr fun before id => and_congr_right fun _ => ?_
      rw [writeResponse, hSlot, Option.isSome_map, hStill]

/-- The response loop comes to an id under which nothing came back: everything before it came
back, and is not used after its resource was deleted. -/
def MeetsMissing (registry : Registry) (result : List (Resource M)) (ids : List Int32) : Prop :=
  ∃ before id, before ++ [id] <+: ids ∧ (∀ id' ∈ before, Returned result id') ∧
    Kept registry 0 before ∧ ¬ Returned result id

/-- **When the response loop meets a NULL pointer.** -/
theorem null_mem_pointers_iff {ids : List Int32} (processed : Processed M ids) (used : List Int32) :
    .null ∈ pointers c registry 0 (resultMap processed.result) used ↔
      MeetsMissing registry processed.result used := by
  have hNull : ∀ id, resultMap processed.result id = .null ↔ ¬ Returned processed.result id := by
    intro id
    refine ⟨?_, resultMap_null processed⟩
    rintro hNull ⟨r, hr, rfl⟩
    rw [resultMap_live processed hr] at hNull
    exact absurd hNull (by simp)
  have hGood : ∀ id, (resultMap processed.result id).Good ↔ Returned processed.result id := by
    intro id
    constructor
    · intro hGood
      by_contra hNot
      rw [resultMap_null processed hNot] at hGood
      exact hGood
    · rintro ⟨r, hr, rfl⟩
      rw [resultMap_live processed hr]
      trivial
  rw [null_mem_pointers]
  refine exists₂_congr fun before id => and_congr_right fun _ => ?_
  rw [writeResponse_isSome, hNull, and_assoc]
  exact and_congr_left fun _ => forall₂_congr fun id _ => hGood id

-- ---------------------------------------------------------------------------
-- The loop over the body
-- ---------------------------------------------------------------------------

theorem acceptedResources_eq {k : Nat} {s s' : Source} {rs : List (Resource M)}
    (h : Reaches c registry accept k s rs s')
    (hStuck : Stuck c registry accept (k + rs.length) s') :
    ∀ fuel, s.rest.length < fuel → acceptedResources c registry accept fuel k s = rs := by
  induction h with
  | @stop k s =>
    intro fuel hFuel
    obtain ⟨fuel, rfl⟩ : ∃ n, fuel = n + 1 := ⟨fuel - 1, by omega⟩
    rw [acceptedResources]
    cases hRecord : nextRecord c registry k s with
    | none => rfl
    | some x =>
      have hRefused : accept k = false := hStuck x.1 x.2 hRecord
      dsimp only
      rw [hRefused]
      exact if_neg Bool.false_ne_true
  | @next k s s₁ s' r rs hRecord hAccept _ ih =>
    intro fuel hFuel
    obtain ⟨fuel, rfl⟩ : ∃ n, fuel = n + 1 := ⟨fuel - 1, by omega⟩
    have hShort := nextRecord_shortens hRecord
    rw [List.length_cons, Nat.add_comm _ 1, ← Nat.add_assoc] at hStuck
    rw [acceptedResources, hRecord]
    dsimp only
    rw [if_pos hAccept, ih hStuck fuel (by omega)]

/-- The request ends early, and the engine releases everything that it has accepted. -/
def EndsEmpty (c : MessageCodec M) (registry : Registry) (accept : Nat → Bool) (fates : Fates)
    (body : List UInt8) : Prop :=
  ∃ rs s' typeId s₁, Reaches c registry accept 0 (openStream body) rs s' ∧
    readVarint32 s' = some (typeId, s₁) ∧
    deserializeResource c typeId (registry.nextResourceId rs.length) s₁ = none ∧
    ∀ k < rs.length, fates.released k = true

/-- The request asks for its results, meets no missing one, and the engine releases what does not
come back. -/
def AsksForAll (c : MessageCodec M) (registry : Registry) (accept : Nat → Bool)
    (results : (ids : List Int32) → Processed M ids) (fates : Fates) (body : List UInt8) : Prop :=
  ∃ rs s', Reaches c registry accept 0 (openStream body) rs s' ∧
    Stuck c registry accept rs.length s' ∧ ¬ BreaksOff c registry accept body ∧
    ¬ MeetsMissing registry (results (rs.map fun r => r.id)).result (rs.map fun r => r.id) ∧
    ∀ k < rs.length, fates.Back (results (rs.map fun r => r.id)).result k ∨ fates.released k = true

/-- A record that cannot be read is the end of the loop. -/
theorem stuck_of_unreadable {k : Nat} {s s₁ : Source} {typeId : UInt32}
    (hType : readVarint32 s = some (typeId, s₁))
    (hFail : deserializeResource c typeId (registry.nextResourceId k) s₁ = none) :
    Stuck c registry accept k s := by
  intro r s' hRecord
  rw [nextRecord, hType] at hRecord
  dsimp only at hRecord
  rw [hFail] at hRecord
  exact absurd hRecord (by simp)

/-- A request that breaks off is not carried out. -/
theorem BreaksOff.not_complete (h : BreaksOff c registry accept body) :
    ¬ Complete c registry accept results body := by
  rintro ⟨rs₂, s₂, hReaches₂, hEnd, -⟩
  obtain ⟨rs, s', typeId, s₁, hReaches, hType, hFail⟩ := h
  have hStuck : Stuck c registry accept (0 + rs.length) s' :=
    stuck_of_unreadable hType (by rw [Nat.zero_add]; exact hFail)
  obtain ⟨-, rfl⟩ := hReaches.unique hStuck hReaches₂ (stuck_of_end hEnd)
  obtain ⟨rest, limit⟩ := s'
  dsimp only at hEnd
  subst hEnd
  exact absurd hType (by simp [show readVarint32 ⟨[], limit⟩ = none from rfl])

theorem requestEffects_failed {typeId : UInt32}
    (h : readResources c registry (Engine.processing accept results) (body.length + 1) 0
      (BodyStream.new body) = some (.failed typeId)) :
    requestEffects c registry accept results body =
      ⟨acceptedResources c registry accept (body.length + 1) 0 (openStream body), [], []⟩ := by
  rw [requestEffects, h]

theorem requestEffects_left {ids : List Int32} {stream : BodyStream}
    (h : readResources c registry (Engine.processing accept results) (body.length + 1) 0
      (BodyStream.new body) = some (.left ids stream)) (hCount : stream.byteCount = body.length) :
    requestEffects c registry accept results body =
      ⟨acceptedResources c registry accept (body.length + 1) 0 (openStream body),
      (results ids).result,
        pointers c registry 0 (resultMap (results ids).result) ids⟩ := by
  rw [requestEffects, h]
  dsimp only
  rw [hCount, if_neg (Nat.lt_irrefl _)]

/-- **When a failed PROCESS request leaves nothing behind**: if it did not fail; or if it broke off
at a record that cannot be read, and everything before it is released by the engine; or if it asked
for its results, none of those that the response loop came to was missing, and what did not come
back is released by the engine. -/
theorem failed_request_clean_iff (c : MessageCodec M) (registry : Registry) (accept : Nat → Bool)
    (results : (ids : List Int32) → Processed M ids) (fates : Fates) (body : List UInt8) :
    FailsCleanly c registry accept results fates body ↔
      Complete c registry accept results body ∨ EndsEmpty c registry accept fates body ∨
        AsksForAll c registry accept results fates body := by
  by_cases hComplete : Complete c registry accept results body
  · exact ⟨fun _ => .inl hComplete, fun _ hNot => absurd hComplete hNot⟩
  obtain ⟨loop, hLoop, hSpec⟩ : ∃ loop,
      readResources c registry (Engine.processing accept results) (body.length + 1) 0
        (BodyStream.new body) = some loop ∧
      LoopSpec c registry accept 0 (BodyStream.new body) loop :=
    readResources_spec _ _ _ (by simp [BodyStream.new, openStream]) rfl
  -- each record takes at least a byte, so the fuel is enough
  have hFuel : (openStream body).rest.length < body.length + 1 := Nat.lt_succ_self _
  rw [FailsCleanly, imp_iff_right hComplete, or_iff_right hComplete]
  cases loop with
  | failed typeId =>
    -- a record cannot be decoded: the loop has answered and nothing is asked for any more
    obtain ⟨rs, s', s₁, hReaches, hType, hFail⟩ := hSpec
    have hStuck : Stuck c registry accept (0 + rs.length) s' := stuck_of_unreadable hType hFail
    have hAccepted := acceptedResources_eq hReaches hStuck _ hFuel
    rw [Nat.zero_add] at hFail
    have hBreaks : BreaksOff c registry accept body := ⟨rs, s', typeId, s₁, hReaches, hType, hFail⟩
    rw [requestEffects_failed hLoop, show acceptedResources c registry accept (body.length + 1) 0
      (openStream body) = rs from hAccepted]
    constructor
    · rintro ⟨-, hClaimed⟩
      refine .inl ⟨rs, s', typeId, s₁, hReaches, hType, hFail, fun k hk => ?_⟩
      refine (hClaimed k hk).resolve_left ?_
      rintro ⟨r, hr, -⟩
      exact absurd hr List.not_mem_nil
    · rintro (⟨rs₂, s₂, typeId₂, s₃, hReaches₂, hType₂, hFail₂, hReleased⟩ | ⟨-, -, -, -,
        hNoBreak, -⟩)
      · -- there is one end of the records only
        have hStuck₂ : Stuck c registry accept (0 + rs₂.length) s₂ :=
          stuck_of_unreadable hType₂ (by rw [Nat.zero_add]; exact hFail₂)
        obtain ⟨rfl, -⟩ := hReaches.unique hStuck hReaches₂ hStuck₂
        exact ⟨List.not_mem_nil, fun k hk => .inr (hReleased k hk)⟩
      · exact absurd hBreaks hNoBreak
  | left ids stream =>
    -- the loop was left, and the results are asked for
    obtain ⟨hCount, rs, s', hReaches, hStuck, hWhy, rfl⟩ := hSpec
    have hNoBreak := not_breaksOff hReaches hStuck hWhy
    have hAccepted := acceptedResources_eq hReaches hStuck _ hFuel
    rw [requestEffects_left hLoop hCount,
      show acceptedResources c registry accept (body.length + 1) 0 (openStream body) = rs from
        hAccepted]
    dsimp only
    rw [null_mem_pointers_iff]
    constructor
    · rintro ⟨hNull, hClaimed⟩
      rw [Nat.zero_add] at hStuck
      exact .inr ⟨rs, s', hReaches, hStuck, hNoBreak, hNull, hClaimed⟩
    · rintro (⟨rs₂, s₂, typeId, s₁, hReaches₂, hType, hFail, -⟩ | ⟨rs₂, s₂, hReaches₂,
        hStuck₂, -, hRest⟩)
      · exact absurd ⟨rs₂, s₂, typeId, s₁, hReaches₂, hType, hFail⟩ hNoBreak
      · obtain ⟨rfl, -⟩ := hReaches.unique hStuck hReaches₂ (by rw [Nat.zero_add]; exact hStuck₂)
        exact hRest

/-- One marker is accepted, and then there is a record of a type that nobody knows: the marker
stays in the engine. When it is alone and does not come back, a NULL pointer is serialized. -/
theorem failed_request_leaves_marker :
    handleRequest testProtobufCodec ⟨fun _ => 1, fun _ => true⟩ .process
        (some (Engine.processing (fun _ => true) noResults)) [3, 5, 9] =
      .response 500 "Cannot deserialize resource of type 9" [] ∧
    ¬ FailsCleanly testProtobufCodec ⟨fun _ => 1, fun _ => true⟩ (fun _ => true) noResults
      ⟨fun _ => false, fun _ => 0⟩ [3, 5, 9] ∧
    (requestEffects testProtobufCodec ⟨fun _ => 1, fun _ => true⟩ (fun _ => true) noResults
      [3, 5]).pointers = [.null] := by
  refine ⟨by decide, fun h => ?_, rfl⟩
  have hBreaks : BreaksOff testProtobufCodec ⟨fun _ => 1, fun _ => true⟩ (fun _ => true)
    [3, 5, 9] :=
    ⟨_, _, 9, _, .next rfl rfl .stop, rfl, rfl⟩
  have hReturned : (requestEffects testProtobufCodec ⟨fun _ => 1, fun _ => true⟩ (fun _ => true)
      noResults [3, 5, 9]).returned = [] := rfl
  have hClaimed := (h hBreaks.not_complete).2 0 (by decide)
  rw [hReturned] at hClaimed
  rcases hClaimed with ⟨r, hr, -⟩ | hReleased
  · exact absurd hr List.not_mem_nil
  · exact absurd hReleased (by decide)

end HectorCore.Server
