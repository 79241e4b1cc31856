import HectorCore.Stream.Binary

/-!
# Round trip — what is written to a binary stream is read back

Every field is self-delimiting, so that a record is read back whatever follows it. The one
limit is that of the coded input stream: it is replaced after every record, so the limit is one
on the length of a record, not of the stream.

* `replaceNewlines_eq`    — the loop of `TestResource::Serialize` replaces every newline;
* `deserializeResource_record` — one record;
* `binary_stream_round_trips`  — any list of records none of which is longer than the limit;
* `not_roundTrips_of_long`     — a string of 512 MiB and more;
* `not_roundTrips_of_large`    — a stream on a string of 2 GiB and more.
-/

namespace HectorCore.Stream

open Lib (Source Reader Reads toInt32 toInt32_of_lt)

-- ---------------------------------------------------------------------------
-- Newlines
-- ---------------------------------------------------------------------------

/-- A newline becomes a space. -/
def blank (c : UInt8) : UInt8 := if c = 10 then 32 else c

theorem blank_blank (c : UInt8) : blank (blank c) = blank c := by
  unfold blank
  split_ifs with h1 h2
  · exact absurd h2 (by decide)
  · rfl
  · rfl

/-- The payload that is read back. -/
def Payload.stored {M : Type} : Payload M → Payload M
  | .testResource str => .testResource (str.map blank)
  | .testProtobufResource r => .testProtobufResource r
  | .markerResource mark => .markerResource mark

/-- Without newlines nothing is replaced. -/
theorem map_blank_of_replaceNewline_eq_none :
    ∀ {s : List UInt8}, replaceNewline s = none → s.map blank = s := by
  intro s
  induction s with
  | nil =>
    intro _
    exact rfl
  | cons c cs ih =>
    intro h
    rw [replaceNewline] at h
    split at h
    · exact absurd h (by simp)
    · rename_i hc
      rw [List.map_cons, ih (Option.map_eq_none_iff.mp h), blank,
        if_neg hc]

/-- One turn of the loop: the result is the same in the end, with one newline less. -/
theorem replaceNewline_step :
    ∀ {s s' : List UInt8}, replaceNewline s = some s' →
      s'.map blank = s.map blank ∧ s'.count 10 + 1 = s.count 10 := by
  intro s
  induction s with
  | nil =>
    intro _ h
    rw [replaceNewline] at h
    exact absurd h (by simp)
  | cons c cs ih =>
    intro s' h
    rw [replaceNewline] at h
    split at h
    · rename_i hc
      obtain rfl := Option.some.inj h
      subst hc
      exact ⟨rfl, by simp⟩
    · rename_i hc
      obtain ⟨t, hRest, rfl⟩ := Option.map_eq_some_iff.mp h
      obtain ⟨hMap, hCount⟩ := ih hRest
      refine ⟨by rw [List.map_cons, List.map_cons, hMap], ?_⟩
      rw [List.count_cons_of_ne hc, List.count_cons_of_ne hc]
      exact hCount

/-- **Every newline is replaced**, if the loop is given a turn for each of them. -/
theorem replaceNewlines_eq :
    ∀ (n : Nat) {s : List UInt8}, s.count 10 ≤ n → replaceNewlines n s = s.map blank := by
  intro n
  induction n with
  | zero =>
    intro s h
    rw [replaceNewlines]
    refine (map_blank_of_replaceNewline_eq_none ?_).symm
    -- a turn would take the count below zero
    cases hStep : replaceNewline s with
    | none => rfl
    | some t =>
      have := (replaceNewline_step hStep).2
      omega
  | succ n ih =>
    intro s h
    rw [replaceNewlines]
    split
    · rename_i hStep
      exact (map_blank_of_replaceNewline_eq_none hStep).symm
    · rename_i t hStep
      obtain ⟨hMap, hCount⟩ := replaceNewline_step hStep
      rw [ih (by omega), hMap]

-- ---------------------------------------------------------------------------
-- Fields
-- ---------------------------------------------------------------------------

/-- A number is read back. -/
theorem reads_varint32 (v : UInt32) : Reads readVarint32 (writeVarint32 v) v := by
  have hFits : v.toNat < 128 ^ (4 + 1) := Nat.lt_trans v.toNat_lt (by decide)
  have h := (Lib.reads_varint 4 (j := 10) hFits (by decide)).map UInt32.ofNat
  rwa [UInt32.ofNat_toNat] at h

theorem toNat_ofNat_length {bs : List UInt8} (h : bs.length < 2 ^ 32) :
    (UInt32.ofNat bs.length).toNat = bs.length := by
  simpa using h

/-- A string is read back if an `uint32` holds its length. -/
theorem reads_string {bs : List UInt8} (h : bs.length < 2 ^ 32) :
    Reads readString (writeString bs) bs := by
  refine (reads_varint32 _).bind ?_
  rw [toNat_ofNat_length h]
  exact Lib.reads_bytes bs

variable {M : Type} {c : MessageCodec M}

/-- The documented behaviour of a message codec: messages of less than 2 GiB round-trip. -/
def MessageCodec.RoundTrips (c : MessageCodec M) : Prop :=
  ∀ r, (c.serialize r).length < 2 ^ 31 → c.parse (c.serialize r) = some (r, [])

/-- A message is read back if an `int` holds its length. -/
theorem reads_message (hCodec : c.RoundTrips) {r : M} (h : (c.serialize r).length < 2 ^ 31) :
    Reads (parseMessage c) (writeVarint32 (UInt32.ofNat (c.serialize r).length) ++ c.serialize r)
      r := by
  refine (reads_varint32 _).bind ?_
  intro rest limit hLimit
  rw [parseWindow, toNat_ofNat_length (by omega)]
  -- what the parser sees is exactly the message
  have hWindow : ((c.serialize r ++ rest).take limit).take (c.serialize r).length =
    c.serialize r := by
    rw [List.take_take, Nat.min_eq_left hLimit, List.take_left]
  dsimp only
  rw [hWindow, hCodec r h]
  simp

/-- Where the decoder goes for a payload. -/
def Payload.kind : Payload M → Kind
  | .testResource _ => .testResource
  | .testProtobufResource _ => .testProtobufResource
  | .markerResource _ => .markerResource

theorem acquireResource_typeId (p : Payload M) : acquireResource p.typeId = some p.kind := by
  cases p <;> rfl

/-- **Every payload is read back**, whatever follows it. -/
theorem reads_payload (hCodec : c.RoundTrips) (p : Payload M)
    (h : (p.serialize c).length < 2 ^ 31) :
    Reads (p.kind.deserialize c) (p.serialize c) p.stored := by
  cases p with
  | testResource str =>
    have hLoop : replaceNewlines str.length str = str.map blank :=
      replaceNewlines_eq _ List.count_le_length
    have hLength : (str.map blank).length < 2 ^ 32 := by
      simp only [Payload.serialize, hLoop, writeString, List.length_append] at h
      omega
    rw [Payload.serialize, hLoop]
    exact (reads_string hLength).map Payload.testResource
  | testProtobufResource r =>
    simp only [Payload.serialize, List.length_append] at h
    exact (reads_message hCodec (by omega)).map Payload.testProtobufResource
  | markerResource mark =>
    have h := (reads_varint32 mark.toUInt32).map fun x => Payload.markerResource (M := M) x.toInt32
    rwa [Int32.toInt32_toUInt32] at h

-- ---------------------------------------------------------------------------
-- Records
-- ---------------------------------------------------------------------------

/-- Like `Reads`, and then the coded stream is replaced. -/
def ReadsRecord {α : Type} (p : Reader α) (bs : List UInt8) (a : α) : Prop :=
  ∀ rest limit, bs.length ≤ limit → p ⟨bs ++ rest, limit⟩ = some (a, ⟨rest, totalBytesLimit⟩)

theorem readsRecord_bind {α β : Type} {p : Reader α} {q : α → Reader β} {bs cs : List UInt8}
    {a : α} {b : β} (hp : Reads p bs a) (hq : ReadsRecord (q a) cs b) :
    ReadsRecord (p >>= q) (bs ++ cs) b := by
  intro rest limit hLimit
  rw [List.length_append] at hLimit
  have hFirst := hp (cs ++ rest) limit (by omega)
  have hThen := hq rest (limit - bs.length) (by omega)
  rw [Reader.bind_run, List.append_assoc, hFirst, Option.bind_some, hThen]

theorem readsRecord_refresh {α : Type} (a : α) :
    ReadsRecord (refresh >>= fun _ => pure a) [] a := by
  intro rest limit _
  rfl

/-- The type byte carries the flag and loses it again. -/
theorem typeId_flag (p : Payload M) (saveIdStatus : Bool) :
    ((if saveIdStatus then p.typeId ||| 0x80 else p.typeId) &&& 0x7f,
      decide ((if saveIdStatus then p.typeId ||| 0x80 else p.typeId) &&& 0x80 ≠ 0)) =
    (p.typeId, saveIdStatus) := by
  have hType : p.typeId = 1 ∨ p.typeId = 2 ∨ p.typeId = 3 := by
    cases p
    · exact .inl rfl
    · exact .inr (.inl rfl)
    · exact .inr (.inr rfl)
  rcases hType with h | h | h <;> rw [h] <;> cases saveIdStatus <;> decide

theorem reads_type (p : Payload M) (saveIdStatus : Bool) :
    Reads (readType 0) (writeVarint32 (if saveIdStatus then p.typeId ||| 0x80 else p.typeId))
      (p.typeId, saveIdStatus) := by
  have h := (reads_varint32 (if saveIdStatus then p.typeId ||| 0x80 else p.typeId)).map
    fun type => (type &&& 0x7f, decide (type &&& 0x80 ≠ 0))
  rwa [typeId_flag] at h

/-- The record that is read back. -/
def Resource.stored (saveIdStatus : Bool) (nextResourceId : Int32) (r : Resource M) : Resource M :=
  if saveIdStatus then { r with payload := r.payload.stored }
  else ⟨nextResourceId, 0, r.payload.stored⟩

/-- **One record.** -/
theorem deserializeResource_record (hCodec : c.RoundTrips) (r : Resource M) (saveIdStatus : Bool)
    (nextResourceId : Int32)
    (hFits : (serializeResource c r true saveIdStatus).length ≤ totalBytesLimit) :
    ReadsRecord (deserializeResource c 0 nextResourceId) (serializeResource c r true saveIdStatus)
      (r.stored saveIdStatus nextResourceId) := by
  have hShort : (r.payload.serialize c).length < 2 ^ 31 := by
    simp only [serializeResource, List.length_append, totalBytesLimit] at hFits
    omega
  have hPayload := reads_payload hCodec r.payload hShort
  have hLast : ∀ id status : Int32, ReadsRecord
      (r.payload.kind.deserialize c >>= fun payload => do
        refresh
        pure (⟨id, status, payload⟩ : Resource M))
      (r.payload.serialize c) ⟨id, status, r.payload.stored⟩ := by
    intro id status
    have h := readsRecord_bind hPayload
      (q := fun payload => do refresh; pure (⟨id, status, payload⟩ : Resource M))
      (readsRecord_refresh (⟨id, status, r.payload.stored⟩ : Resource M))
    rwa [List.append_nil] at h
  unfold serializeResource deserializeResource
  rw [if_pos rfl, List.append_assoc]
  refine readsRecord_bind (reads_type r.payload saveIdStatus) ?_
  dsimp only
  rw [acquireResource_typeId]
  cases saveIdStatus with
  | false => exact hLast nextResourceId 0
  | true =>
    rw [if_pos rfl, List.append_assoc]
    refine readsRecord_bind (reads_varint32 r.id.toUInt32) ?_
    refine readsRecord_bind (reads_varint32 r.status.toUInt32) ?_
    rw [Int32.toInt32_toUInt32, Int32.toInt32_toUInt32]
    exact hLast r.id r.status

-- ---------------------------------------------------------------------------
-- Streams
-- ---------------------------------------------------------------------------

/-- **A stream round-trips** if as many calls as there are resources read them back in order,
with id and status if these were saved, the next call returns NULL at the end of the stream,
and what was read is written as before. -/
def StreamRoundTrips (c : MessageCodec M) (origin : Origin) (saveIdStatus : Bool)
    (rs : List (Resource M)) : Prop :=
  ∀ nextResourceId : Nat → Int32, ∃ out : List (Resource M),
    (deserializeCalls c nextResourceId (rs.length + 1)
      (origin.openStream (serializeAll c saveIdStatus rs))).1 = out.map some ++ [none] ∧
    (deserializeCalls c nextResourceId (rs.length + 1)
      (origin.openStream (serializeAll c saveIdStatus rs))).2.rest = [] ∧
    out.map (fun r => r.payload) = rs.map (fun r => r.payload.stored) ∧
    (saveIdStatus = true → out.map (fun r => (r.id, r.status)) = rs.map fun r => (r.id, r.status)) ∧
    serializeAll c saveIdStatus out = serializeAll c saveIdStatus rs

theorem Payload.serialize_stored (p : Payload M) : p.stored.serialize c = p.serialize c := by
  cases p with
  | testResource str =>
    simp only [Payload.stored, Payload.serialize, replaceNewlines_eq _ List.count_le_length,
      List.map_map]
    congr 1
    exact List.map_congr_left fun x _ => blank_blank x
  | testProtobufResource r => rfl
  | markerResource mark => rfl

theorem Payload.typeId_stored (p : Payload M) : p.stored.typeId = p.typeId := by
  cases p <;> rfl

/-- What is read back is written as before. -/
theorem serializeResource_stored (r : Resource M) (saveIdStatus : Bool) (nextResourceId : Int32) :
    serializeResource c (r.stored saveIdStatus nextResourceId) true saveIdStatus =
      serializeResource c r true saveIdStatus := by
  cases saveIdStatus <;>
    simp [serializeResource, Resource.stored, Payload.serialize_stored, Payload.typeId_stored]

/-- The resources that are read back; the calls are numbered backwards. -/
def storedAll (saveIdStatus : Bool) (nextResourceId : Nat → Int32) :
    List (Resource M) → List (Resource M)
  | [] => []
  | r :: rs =>
    r.stored saveIdStatus (nextResourceId (rs.length + 1)) :: storedAll saveIdStatus
      nextResourceId rs

theorem deserializeCalls_all (hCodec : c.RoundTrips) (saveIdStatus : Bool)
    (nextResourceId : Nat → Int32) :
    ∀ {rs : List (Resource M)},
      (∀ r ∈ rs, (serializeResource c r true saveIdStatus).length ≤ totalBytesLimit) →
      deserializeCalls c nextResourceId (rs.length + 1)
        (openStream (serializeAll c saveIdStatus rs)) =
        ((storedAll saveIdStatus nextResourceId rs).map some ++ [none], openStream []) := by
  intro rs
  induction rs with
  | nil =>
    intro _
    exact rfl
  | cons r rs ih =>
    intro hFits
    have hHere := hFits r List.mem_cons_self
    have hRecord := deserializeResource_record hCodec r saveIdStatus
      (nextResourceId (rs.length + 1))
      hHere (serializeAll c saveIdStatus rs) totalBytesLimit hHere
    have hRest := ih
      fun r' hr' => hFits r' (List.mem_cons_of_mem r hr')
    have hFirst : serializeAll c saveIdStatus (r :: rs) =
        serializeResource c r true saveIdStatus ++ serializeAll c saveIdStatus rs := rfl
    rw [List.length_cons, deserializeCalls, openStream, hFirst, hRecord]
    dsimp only
    rw [← openStream, hRest]
    rfl

theorem storedAll_payload (saveIdStatus : Bool) (nextResourceId : Nat → Int32) :
    ∀ rs : List (Resource M), (storedAll saveIdStatus nextResourceId rs).map (fun r => r.payload) =
      rs.map fun r => r.payload.stored := by
  intro rs
  induction rs with
  | nil =>
    exact rfl
  | cons r rs ih =>
    rw [storedAll, List.map_cons, List.map_cons, ih]
    cases saveIdStatus <;> rfl

theorem storedAll_id_status (nextResourceId : Nat → Int32) :
    ∀ rs : List (Resource M), (storedAll true nextResourceId rs).map (fun r => (r.id, r.status)) =
      rs.map fun r => (r.id, r.status) := by
  intro rs
  induction rs with
  | nil =>
    exact rfl
  | cons r rs ih =>
    rw [storedAll, List.map_cons, List.map_cons, ih]
    rfl

theorem serializeAll_storedAll (saveIdStatus : Bool) (nextResourceId : Nat → Int32) :
    ∀ rs : List (Resource M),
      serializeAll c saveIdStatus (storedAll saveIdStatus nextResourceId rs) =
        serializeAll c saveIdStatus rs := by
  intro rs
  induction rs with
  | nil =>
    exact rfl
  | cons r rs ih =>
    have hRest := ih
    simp only [serializeAll] at hRest ⊢
    rw [storedAll, List.flatMap_cons, List.flatMap_cons, serializeResource_stored, hRest]

theorem openString_of_lt {bytes : List UInt8} (h : bytes.length < 2 ^ 31) :
    openString bytes = openStream bytes := by
  rw [openString, toInt32_of_lt h, Int.toNat_natCast, List.take_length]

/-- A stream on a string is one on a file, below 2 GiB. -/
theorem Origin.openStream_eq {origin : Origin} {bytes : List UInt8}
    (h : origin = .string → bytes.length < 2 ^ 31) :
    origin.openStream bytes = Stream.openStream bytes := by
  cases origin with
  | descriptor => rfl
  | string => exact openString_of_lt (h rfl)

/-- **Binary streams round-trip**, for every list of resources none of whose records is longer
than what one coded input stream hands out, and which all together fit into the stream. -/
theorem binary_stream_round_trips (c : MessageCodec M) (hCodec : c.RoundTrips) (origin : Origin)
    (saveIdStatus : Bool) (rs : List (Resource M))
    (hFits : ∀ r ∈ rs, (serializeResource c r true saveIdStatus).length ≤ totalBytesLimit)
    (hSize : origin = .string → (serializeAll c saveIdStatus rs).length < 2 ^ 31) :
    StreamRoundTrips c origin saveIdStatus rs := by
  intro nextResourceId
  have hCalls := deserializeCalls_all hCodec saveIdStatus nextResourceId hFits
  rw [origin.openStream_eq hSize]
  refine ⟨storedAll saveIdStatus nextResourceId rs, ?_, ?_,
    storedAll_payload saveIdStatus nextResourceId rs, ?_,
    serializeAll_storedAll saveIdStatus nextResourceId rs⟩
  · rw [hCalls]
  · rw [hCalls]
    rfl
  · rintro rfl
    exact storedAll_id_status nextResourceId rs

/-- The codec of `message TestProtobufResource { optional string str = 1; }`, on what it writes
itself: the field's tag and the string. -/
def testProtobufCodec : MessageCodec (Option (List UInt8)) where
  empty := none
  serialize
    | none => []
    | some str => 0x0a :: writeString str
  parse
    | [] => some (none, [])
    | tag :: rest =>
      if tag = 0x0a then
        match readString ⟨rest, rest.length⟩ with
        | some (str, ⟨[], _⟩) => some (some str, [])
        | _ => none
      else none

theorem testProtobufCodec_roundTrips : testProtobufCodec.RoundTrips := by
  intro r h
  cases r with
  | none => rfl
  | some str =>
    have hLength : str.length < 2 ^ 32 := by
      simp only [testProtobufCodec, writeString, List.length_cons, List.length_append] at h
      omega
    have hString := reads_string hLength [] (writeString str).length (Nat.le_refl _)
    rw [List.append_nil] at hString
    simp only [testProtobufCodec, if_pos, hString]

/-- A resource of each type, with a newline and negative numbers. -/
def threeResources : List (Resource (Option (List UInt8))) :=
  [⟨-1, 7, .testResource [97, 10, 98]⟩, ⟨2, -2147483648, .markerResource (-5)⟩,
    ⟨3, 0, .testProtobufResource (some [97, 10])⟩]

theorem binary_stream_round_trips_three :
    (∀ r ∈ threeResources, (serializeResource testProtobufCodec r true true).length ≤
      totalBytesLimit) ∧
      (serializeAll testProtobufCodec true threeResources).length < 2 ^ 31 ∧
      StreamRoundTrips testProtobufCodec .string true threeResources := by
  have hFits : ∀ r ∈ threeResources,
      (serializeResource testProtobufCodec r true true).length ≤ totalBytesLimit := by
    decide
  have hSize : (serializeAll testProtobufCodec true threeResources).length < 2 ^ 31 := by decide
  exact ⟨hFits, hSize, binary_stream_round_trips testProtobufCodec testProtobufCodec_roundTrips
    .string true threeResources hFits fun _ => hSize⟩

/-- The length of a string that is too long for the coded stream is read, the string is not. -/
theorem readString_long {bs : List UInt8} {limit : Nat} (hLength : bs.length < 2 ^ 32)
    (hRoom : 5 ≤ limit) (hLong : limit < bs.length) :
    readString ⟨writeString bs, limit⟩ = none := by
  have hVarint : (writeVarint32 (UInt32.ofNat bs.length)).length ≤ limit :=
    Nat.le_trans (Lib.length_encodeVarint_le 5 _) hRoom
  have hSize := reads_varint32 (UInt32.ofNat bs.length) bs limit hVarint
  rw [readString, writeString, Reader.bind_run, hSize, Option.bind_some, toNat_ofNat_length hLength,
    Reader.bytes, if_neg]
  rintro ⟨-, hLe⟩
  dsimp only at hLe
  omega

/-- A string that the limit does not let through is not read. -/
theorem deserializeResource_long {str : List UInt8} (hLong : totalBytesLimit ≤ str.length)
    (hLength : str.length < 2 ^ 32) (id status nextResourceId : Int32) :
    deserializeResource c 0 nextResourceId
      (openStream (serializeResource c ⟨id, status, .testResource str⟩ true false)) = none := by
  have hLoop : replaceNewlines str.length str = str.map blank :=
    replaceNewlines_eq _ List.count_le_length
  have hRecord : serializeResource c ⟨id, status, .testResource str⟩ true false =
      writeVarint32 1 ++ writeString (str.map blank) := by
    simp [serializeResource, Payload.serialize, Payload.typeId, hLoop]
  have hType : readType 0 ⟨writeVarint32 1 ++ writeString (str.map blank), totalBytesLimit⟩ =
      some ((1, false), ⟨writeString (str.map blank), totalBytesLimit - 1⟩) :=
    reads_type (Payload.testResource str : Payload M) false _ totalBytesLimit
      (Nat.le_trans (Lib.length_encodeVarint_le 5 _) (by decide))
  -- the limit has shrunk by the type, so that no string of this length fits
  have hString : readString ⟨writeString (str.map blank), totalBytesLimit - 1⟩ = none := by
    have hPos : 0 < totalBytesLimit := by decide
    refine readString_long ?_ (by decide) ?_
    · rw [List.length_map]
      exact hLength
    · rw [List.length_map]
      omega
  have hPayload : (Kind.testResource.deserialize c >>= fun payload => do
      refresh
      pure (⟨nextResourceId, 0, payload⟩ : Resource M))
      ⟨writeString (str.map blank), totalBytesLimit - 1⟩ = none := by
    rw [Reader.bind_run, Kind.deserialize, Reader.bind_run, hString, Option.bind_none,
      Option.bind_none]
  rw [hRecord, openStream, deserializeResource, Reader.bind_run, hType, Option.bind_some]
  exact hPayload

theorem length_testResource (id status : Int32) (str : List UInt8) :
    (serializeResource c ⟨id, status, .testResource str⟩ true false).length =
      (writeVarint32 1).length +
      ((writeVarint32 (UInt32.ofNat str.length)).length + str.length) := by
  have hLoop : replaceNewlines str.length str = str.map blank :=
    replaceNewlines_eq _ List.count_le_length
  simp [serializeResource, Payload.serialize, Payload.typeId, hLoop, writeString]

theorem length_testResource_le (id status : Int32) (str : List UInt8) :
    (serializeResource c ⟨id, status, .testResource str⟩ true false).length ≤ str.length + 6 := by
  have hType : (writeVarint32 1).length = 1 := by decide
  have hVarint : (writeVarint32 (UInt32.ofNat str.length)).length ≤ 5 :=
    Lib.length_encodeVarint_le 5 _
  rw [length_testResource, hType]
  omega

theorem le_length_testResource (id status : Int32) (str : List UInt8) :
    str.length ≤ (serializeResource c ⟨id, status, .testResource str⟩ true false).length := by
  rw [length_testResource]
  omega

/-- So a resource with such a string is not read back. -/
theorem not_roundTrips_of_long {str : List UInt8} (hLong : totalBytesLimit ≤ str.length)
    (hLength : str.length < 2 ^ 31 - 6) (origin : Origin) (id status : Int32) :
    ¬ StreamRoundTrips c origin false [⟨id, status, .testResource str⟩] := by
  intro h
  obtain ⟨out, hCalls, -, hPayload, -⟩ := h fun _ => 0
  have hBytes : serializeAll c false [⟨id, status, .testResource str⟩] =
      serializeResource c ⟨id, status, .testResource str⟩ true false := by
    rw [serializeAll, List.flatMap_singleton]
  have hSize : origin = .string →
      (serializeResource c ⟨id, status, .testResource str⟩ true false).length < 2 ^ 31 := by
    intro _
    have hLe := length_testResource_le (c := c) id status str
    omega
  rw [hBytes, List.length_singleton, deserializeCalls, origin.openStream_eq hSize,
    deserializeResource_long hLong (by omega) id status 0] at hCalls
  cases out with
  | nil => exact absurd (congrArg List.length hPayload) (by simp)
  | cons r out => exact absurd (congrArg List.head? hCalls) (by simp)

/-- There is nothing to read in a stream on a string from 2 GiB to 4 GiB. -/
theorem openString_of_large {bytes : List UInt8} (hLow : 2 ^ 31 ≤ bytes.length)
    (hHigh : bytes.length < 2 ^ 32) : openString bytes = openStream [] := by
  have hWraps : toInt32 bytes.length = bytes.length - 2 ^ 32 := by
    rw [toInt32, Int.bmod_eq_emod, if_pos (by omega), Int.emod_eq_of_lt (by omega) (by omega)]
    rfl
  rw [openString, hWraps, Int.toNat_of_nonpos (by omega), List.take_zero]

/-- Nor is a string stream of 2 GiB or more. -/
theorem not_roundTrips_of_large {saveIdStatus : Bool} {rs : List (Resource M)}
    (hLow : 2 ^ 31 ≤ (serializeAll c saveIdStatus rs).length)
    (hHigh : (serializeAll c saveIdStatus rs).length < 2 ^ 32) :
    ¬ StreamRoundTrips c .string saveIdStatus rs := by
  intro h
  obtain ⟨out, hCalls, -, hPayload, -⟩ := h fun _ => 0
  have hNothing : deserializeResource c 0 0 (openStream []) = none := rfl
  rw [Origin.openStream, openString_of_large hLow hHigh, deserializeCalls, hNothing] at hCalls
  cases out with
  | nil =>
    have hNone : rs = [] := List.map_eq_nil_iff.mp hPayload.symm
    have hZero : (serializeAll c saveIdStatus ([] : List (Resource M))).length = 0 := rfl
    rw [hNone, hZero] at hLow
    exact absurd hLow (by decide)
  | cons r out => exact absurd (congrArg List.head? hCalls) (by simp)

/-- Many resources none of which is too long. -/
theorem not_roundTrips_of_many {n k : Nat} {str : List UInt8} (hLength : str.length = k)
    (hLow : 2 ^ 31 ≤ n * k) (hHigh : n * (k + 6) < 2 ^ 32) (id status : Int32) :
    ¬ StreamRoundTrips c .string false (List.replicate n ⟨id, status, .testResource str⟩) := by
  have hAll : (serializeAll c false (List.replicate n ⟨id, status, .testResource str⟩)).length =
      n * (serializeResource c ⟨id, status, .testResource str⟩ true false).length := by
    rw [serializeAll, List.length_flatMap, List.map_replicate, List.sum_replicate, smul_eq_mul]
  have hLe := Nat.mul_le_mul_left n (length_testResource_le (c := c) id status str)
  have hGe := Nat.mul_le_mul_left n (le_length_testResource (c := c) id status str)
  rw [hLength] at hLe hGe
  refine not_roundTrips_of_large ?_ ?_
  · rw [hAll]
    exact Nat.le_trans hLow hGe
  · rw [hAll]
    exact Nat.lt_of_le_of_lt hLe hHigh

/-- A string of 512 MiB is written, but not read back, whatever the stream is opened on; and five
strings of 450 MiB are not read back from a string. -/
theorem long_string_does_not_round_trip :
    (∀ origin, ¬ StreamRoundTrips testProtobufCodec origin false
      [⟨1, 0, .testResource (List.replicate totalBytesLimit 97)⟩]) ∧
    ¬ StreamRoundTrips testProtobufCodec .string false
      (List.replicate 5 ⟨1, 0, .testResource (List.replicate (450 * 1024 * 1024) 97)⟩) :=
  ⟨fun origin => not_roundTrips_of_long (Nat.le_of_eq List.length_replicate.symm)
      (Nat.lt_of_le_of_lt (Nat.le_of_eq List.length_replicate) (by decide)) origin 1 0,
    not_roundTrips_of_many List.length_replicate (by decide) (by decide) 1 0⟩

end HectorCore.Stream
