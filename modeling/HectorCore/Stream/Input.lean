import HectorCore.Stream.Text

/-!
# Input — the two kinds of resource input streams

`ResourceInputStream` as `Resource::DeserializeResource` and the modules use it: binary or text,
with `ByteCount`, `Skip` and `Refresh`.

* `ByteCount` of a binary stream is that of the file stream under the coded one: what has been
  fetched, and not what has been read. A coded stream gives back what it did not use when it is
  destroyed. `fetched p q` is the number of bytes fetched when the coded stream was created at
  position `p` and has read up to position `q`.
* A read of the coded stream that fails has consumed bytes, and the next `DeserializeResource` goes
  on behind them. How many is not documented: `lost`. Where the program gives up on its own (a type
  that no class has), it goes on behind what it has read.
* A compressed file is the stream of its uncompressed contents; only `fetched` differs.
* `int` wraps around.
-/

namespace HectorCore.Stream

open Lib (Source Reader toInt32)

/-- The reads of a coded stream. -/
inductive CodedRead where
  | varint
  | string (size : UInt32)
  | message (size : UInt32)
  deriving DecidableEq, Repr

/-- What the protocol buffer library does. -/
structure Protobuf (M : Type) where
  codec : MessageCodec M
  parseText : List UInt8 → Option M
  fetched : Nat → Nat → Nat
  lost : CodedRead → Source → Nat

/-- `ResourceInputStreamBinary`: what is left to read, how much has been read, and where the
coded stream was created. -/
structure BinaryStream where
  source : Lib.Source
  pos : Nat
  created : Nat
  deriving DecidableEq, Repr

inductive InputStream where
  | binary (s : BinaryStream)
  | text (is : IStream)
  deriving DecidableEq, Repr

variable {M : Type}

-- ---------------------------------------------------------------------------
-- A coded stream that goes on after a failure
-- ---------------------------------------------------------------------------

/-- A reader of which something is left also when it fails. -/
abbrev CodedReader := OptionT (StateM Source)

namespace Coded

variable (pb : Protobuf M)

/-- A read of the coded stream, and what is left. -/
def attempt {α : Type} (what : CodedRead) (p : Reader α) : CodedReader α := fun s =>
  match p s with
  | some (a, s) => (some a, s)
  | none => (none, ⟨s.rest.drop (pb.lost what s), s.limit - pb.lost what s⟩)

def readVarint32 : CodedReader UInt32 := attempt pb .varint HectorCore.Stream.readVarint32

def readString : CodedReader (List UInt8) := do
  let size ← readVarint32 pb
  attempt pb (.string size) (Reader.bytes size.toNat)

/-- `ParseMessage(msg)` -/
def parseMessage : CodedReader M := do
  let size ← readVarint32 pb
  attempt pb (.message size) (parseWindow pb.codec size)

/-- `Deserialize` -/
def deserialize : Kind → CodedReader (Payload M)
  | .testResource => do
    let str ← readString pb
    pure (.testResource str)
  | .testProtobufResource => do
    let r ← parseMessage pb
    pure (.testProtobufResource r)
  | .markerResource => do
    let mark ← readVarint32 pb
    pure (.markerResource mark.toInt32)

/-- The type of the record, and whether its id and status follow. -/
def readType (resourceType : UInt32) : CodedReader (UInt32 × Bool) :=
  if resourceType = 0 then do
    let type ← readVarint32 pb
    pure (type &&& 0x7f, decide (type &&& 0x80 ≠ 0))
  else pure (resourceType, false)

/-- `Refresh` -/
def refresh : CodedReader Unit := fun s => (some (), ⟨s.rest, totalBytesLimit⟩)

/-- `Resource::DeserializeResource` -/
def deserializeResource (resourceType : UInt32) (nextResourceId : Int32) :
    CodedReader (Resource M) := do
  let (type, readIdStatus) ← readType pb resourceType
  match acquireResource type with
  | none => fun s => (none, s)
  | some kind => do
    let (id, status) ←
      if readIdStatus then do
        let id ← readVarint32 pb
        let status ← readVarint32 pb
        pure (id.toInt32, status.toInt32)
      else pure (nextResourceId, 0)
    let payload ← deserialize pb kind
    refresh
    pure ⟨id, status, payload⟩

-- A read that succeeds is the one of `Stream.Binary`; one that fails, fails there.
section Agrees

variable {pb} {α β : Type}

/-- `f` answers like the reader `p`, and leaves the same where `p` succeeds. -/
def Agrees (f : CodedReader α) (p : Reader α) : Prop :=
  ∀ s, (p s = none ∧ ∃ s', f s = (none, s')) ∨ ∃ a s', p s = some (a, s') ∧ f s = (some a, s')

theorem agrees_attempt (what : CodedRead) (p : Reader α) : Agrees (attempt pb what p) p := by
  intro s
  rcases h : p s with _ | ⟨a, s'⟩
  · refine .inl ⟨rfl, ⟨s.rest.drop (pb.lost what s), s.limit - pb.lost what s⟩, ?_⟩
    rw [attempt, h]
  · refine .inr ⟨a, s', rfl, ?_⟩
    rw [attempt, h]

theorem agrees_pure (a : α) : Agrees (pure a) (pure a) := by
  intro s
  exact .inr ⟨a, s, rfl, rfl⟩

theorem bind_of_none {f : CodedReader α} {k : α → CodedReader β} {s s' : Source}
    (h : f s = (none, s')) : (f >>= k) s = (none, s') := by
  simp only [bind, OptionT.bind, OptionT.mk, StateT.bind, h]
  rfl

theorem bind_of_some {f : CodedReader α} {k : α → CodedReader β} {a : α} {s s' : Source}
    (h : f s = (some a, s')) : (f >>= k) s = k a s' := by
  simp only [bind, OptionT.bind, OptionT.mk, StateT.bind, h]

/-- One after the other. -/
theorem Agrees.bind {f : CodedReader α} {p : Reader α} {k : α → CodedReader β} {q : α → Reader β}
    (hf : Agrees f p) (hk : ∀ a, Agrees (k a) (q a)) : Agrees (f >>= k) (p >>= q) := by
  intro s
  rw [Reader.bind_run]
  rcases hf s with ⟨hp, s', hFail⟩ | ⟨a, s', hp, hRead⟩
  · rw [hp, bind_of_none hFail]
    exact .inl ⟨rfl, s', rfl⟩
  · rw [hp, bind_of_some hRead]
    exact hk a s'

theorem agrees_readVarint32 : Agrees (readVarint32 pb) HectorCore.Stream.readVarint32 :=
  agrees_attempt .varint _

theorem agrees_deserialize (kind : Kind) :
    Agrees (deserialize pb kind) (kind.deserialize pb.codec) := by
  cases kind with
  | testResource =>
    refine (agrees_readVarint32.bind fun size => ?_).bind fun str => agrees_pure _
    exact agrees_attempt (.string size) _
  | testProtobufResource =>
    refine (agrees_readVarint32.bind fun size => ?_).bind fun r => agrees_pure _
    exact agrees_attempt (.message size) _
  | markerResource => exact agrees_readVarint32.bind fun mark => agrees_pure _

theorem agrees_readType (resourceType : UInt32) :
    Agrees (readType pb resourceType) (HectorCore.Stream.readType resourceType) := by
  unfold readType HectorCore.Stream.readType
  split
  · exact agrees_readVarint32.bind fun type => agrees_pure _
  · exact agrees_pure _

theorem agrees_refresh : Agrees refresh HectorCore.Stream.refresh := by
  intro s
  exact .inr ⟨_, _, rfl, rfl⟩

/-- **`DeserializeResource` succeeds as in `Stream.Binary`.** -/
theorem agrees_deserializeResource (pb : Protobuf M) (resourceType : UInt32)
    (nextResourceId : Int32) :
    Agrees (deserializeResource pb resourceType nextResourceId)
      (HectorCore.Stream.deserializeResource pb.codec resourceType nextResourceId) := by
  refine (agrees_readType resourceType).bind ?_
  rintro ⟨type, readIdStatus⟩
  dsimp only
  have hRest : ∀ kind id status, Agrees
      (deserialize pb kind >>= fun payload => do refresh; pure (⟨id, status, payload⟩ : Resource M))
      (kind.deserialize pb.codec >>= fun payload => do
        HectorCore.Stream.refresh
        pure (⟨id, status, payload⟩ : Resource M)) := by
    intro kind id status
    exact (agrees_deserialize kind).bind fun payload => agrees_refresh.bind fun _ => agrees_pure _
  cases acquireResource type with
  | none =>
    intro s
    exact .inl ⟨rfl, s, rfl⟩
  | some kind =>
    cases readIdStatus with
    | false => exact hRest kind nextResourceId 0
    | true =>
      exact agrees_readVarint32.bind fun id => agrees_readVarint32.bind fun status =>
        hRest kind id.toInt32 status.toInt32

end Agrees

end Coded

namespace InputStream

def rest : InputStream → List UInt8
  | .binary s => s.source.rest
  | .text is => is.rest

/-- `ByteCount` -/
def byteCount (pb : Protobuf M) : InputStream → Int × InputStream
  | .binary s => (toInt32 (pb.fetched s.created s.pos), .binary s)
  | .text is =>
    let (pos, is) := is.tellg
    (toInt32 pos, .text is)

/-- `Skip` -/
def skip (count : Int) : InputStream → Bool × InputStream
  | .binary s =>
    let n := min count.toNat (min s.source.rest.length s.source.limit)
    (decide (0 ≤ count ∧ count.toNat = n),
      .binary { s with
        source := ⟨s.source.rest.drop n, s.source.limit - n⟩, pos := s.pos + n })
  | .text is =>
    let (ok, is) := Text.skip count is
    (ok, .text is)

/-- The body of `DeserializeResource` between the two calls of `ByteCount`. -/
def read (pb : Protobuf M) (resourceType : UInt32) (nextResourceId : Int32) :
    InputStream → Option (Resource M) × InputStream
  | .binary s =>
    let (r, source) := Coded.deserializeResource pb resourceType nextResourceId s.source
    (r, .binary { s with source, pos := s.pos + (s.source.rest.length - source.rest.length) })
  | .text is =>
    let (r, is) := Text.deserializeResource pb.parseText resourceType nextResourceId is
    (r, .text is)

section Read

variable {pb : Protobuf M} {resourceType : UInt32} {nextResourceId : Int32} {s : BinaryStream}

theorem read_binary {r : Resource M} {source : Source}
    (h : HectorCore.Stream.deserializeResource pb.codec resourceType nextResourceId s.source =
      some (r, source)) :
    (InputStream.binary s).read pb resourceType nextResourceId =
      (some r, .binary
        { s with source, pos := s.pos + (s.source.rest.length - source.rest.length) }) := by
  have hAgrees := Coded.agrees_deserializeResource pb resourceType nextResourceId s.source
  rw [h] at hAgrees
  obtain ⟨hNone, -⟩ | ⟨r', source', hSome, hRead⟩ := hAgrees
  · exact absurd hNone (by simp)
  · cases hSome
    rw [read, hRead]

theorem read_binary_eq_none :
    ((InputStream.binary s).read pb resourceType nextResourceId).1 = none ↔
      HectorCore.Stream.deserializeResource pb.codec resourceType nextResourceId
        s.source = none := by
  obtain ⟨hNone, s', hFail⟩ | ⟨r, source, hSome, hRead⟩ :=
    Coded.agrees_deserializeResource pb resourceType nextResourceId s.source
  · rw [hNone, read, hFail]
    exact iff_of_true rfl rfl
  · rw [hSome, read, hRead]
    exact iff_of_false (by simp) (by simp)

end Read

/-- `Refresh` -/
def refresh : InputStream → InputStream
  | .binary s => .binary { s with created := s.pos }
  | .text is => .text is

/-- `DeserializeResource(stream, resourceType, &size)` -/
def deserializeResource (pb : Protobuf M) (resourceType : UInt32) (nextResourceId : Int32)
    (stream : InputStream) : Option (Resource M × Int) × InputStream :=
  let (current, stream) := stream.byteCount pb
  match stream.read pb resourceType nextResourceId with
  | (none, stream) => (none, stream)
  | (some r, stream) =>
    let (now, stream) := stream.byteCount pb
    (some (r, toInt32 (now - current)), stream.refresh)

end InputStream

end HectorCore.Stream
