import HectorCore.Lib.Find
import HectorCore.Stream.Text

/-!
# TextRoundTrip — what a text stream gives back

`ResourceOutputStreamText`, the other methods of `ResourceInputStreamText`, and what is read of a
sequence of values that was written.

* Numbers and raw blocks come back, and every value ends where the next one begins.
* A string is escaped by two replacements, backslashes first. It is unescaped by two others,
  newlines first: a backslash that was doubled and an `n` behind it make one, and come back as a
  backslash and a newline.

* `readAll_writeAll`     — what is read, for every sequence;
* `text_round_trips_iff` — which sequences come back: those without backslash and `n` in a string.
-/

namespace HectorCore.Stream

open Lib (Replaces isSpace isDigit digits digits_ne_nil isDigit_digits not_isSpace_of_isDigit
  decimal_digits takeWhile_stop)

/-- `is.read(data, size)` -/
def IStream.read (size : Nat) (is : IStream) : List UInt8 × IStream :=
  if is.good then
    if size ≤ is.rest.length then (is.rest.take size, is.advance size)
    else (is.rest, { is.advance is.rest.length with eof := true, fail := true })
  else ([], { is with fail := true })

namespace Text

-- ---------------------------------------------------------------------------
-- ResourceOutputStreamText
-- ---------------------------------------------------------------------------

/-- Backslashes are doubled first, so that the `n` behind one is not taken for a newline. -/
def writeString (buffer : List UInt8) : List UInt8 :=
  let s := replaceAll [92] [92, 92] buffer.length 0 buffer
  let s := replaceAll [10] [92, 110] s.length 0 s
  s ++ [10]

/-- `*os << value << "\n"` -/
def writeNumber (value : Nat) : List UInt8 := digits value ++ [10]

def writeLittleEndian32 (value : UInt32) : List UInt8 := writeNumber value.toNat

def writeVarint32 (value : UInt32) : List UInt8 := writeNumber value.toNat

def writeLittleEndian64 (value : UInt64) : List UInt8 := writeNumber value.toNat

def writeVarint64 (value : UInt64) : List UInt8 := writeNumber value.toNat

/-- The bytes as they are; the newline behind them belongs to the record. -/
def writeRaw (data : List UInt8) (size : Nat) : List UInt8 := data.take size ++ [10]

-- ---------------------------------------------------------------------------
-- ResourceInputStreamText
-- ---------------------------------------------------------------------------

/-- `*is >> *value`, and the rest of the line. -/
def readNumber (bits : Nat) (is : IStream) : Option Nat × IStream :=
  match is.extract bits with
  | (none, is) => (none, is)
  | (some value, is) => (some value, is.getline.2)

def readLittleEndian32 (is : IStream) : Option UInt32 × IStream :=
  let (value, is) := readNumber 32 is
  (value.map UInt32.ofNat, is)

def readLittleEndian64 (is : IStream) : Option UInt64 × IStream :=
  let (value, is) := readNumber 64 is
  (value.map UInt64.ofNat, is)

def readVarint64 (is : IStream) : Option UInt64 × IStream :=
  let (value, is) := readNumber 64 is
  (value.map UInt64.ofNat, is)

/-- `ReadRaw`; the stream is not bad, also when there are not as many bytes. -/
def readRaw (size : Nat) (is : IStream) : Option (List UInt8) × IStream :=
  let (data, is) := is.read size
  (some data, is.getline.2)

-- ---------------------------------------------------------------------------
-- Sequences of values
-- ---------------------------------------------------------------------------

/-- A value, and the method that writes it. -/
inductive Value where
  | string (buffer : List UInt8)
  | littleEndian32 (value : UInt32)
  | varint32 (value : UInt32)
  | littleEndian64 (value : UInt64)
  | varint64 (value : UInt64)
  | raw (data : List UInt8)
  deriving DecidableEq, Repr

/-- The method that reads a value. -/
inductive Request where
  | string
  | littleEndian32
  | varint32
  | littleEndian64
  | varint64
  | raw (size : Nat)
  deriving DecidableEq, Repr

/-- The method that corresponds to the one that wrote the value. -/
def Value.request : Value → Request
  | .string _ => .string
  | .littleEndian32 _ => .littleEndian32
  | .varint32 _ => .varint32
  | .littleEndian64 _ => .littleEndian64
  | .varint64 _ => .varint64
  | .raw data => .raw data.length

/-- Each kind of value has its own `Write` function. -/
def Value.write : Value → List UInt8
  | .string buffer => writeString buffer
  | .littleEndian32 value => writeLittleEndian32 value
  | .varint32 value => writeVarint32 value
  | .littleEndian64 value => writeLittleEndian64 value
  | .varint64 value => writeVarint64 value
  | .raw data => writeRaw data data.length

/-- The reader has to know what comes next: nothing in the stream says so. -/
def Request.read : Request → IStream → Option Value × IStream
  | .string, is => (readString is).map (Option.map .string) id
  | .littleEndian32, is => (readLittleEndian32 is).map (Option.map .littleEndian32) id
  | .varint32, is => (readVarint32 is).map (Option.map .varint32) id
  | .littleEndian64, is => (readLittleEndian64 is).map (Option.map .littleEndian64) id
  | .varint64, is => (readVarint64 is).map (Option.map .varint64) id
  | .raw size, is => (readRaw size is).map (Option.map .raw) id

def writeAll (vs : List Value) : List UInt8 := vs.flatMap Value.write

/-- One method after the other. -/
def readAll : List Request → IStream → List (Option Value) × IStream
  | [], is => ([], is)
  | r :: rs, is =>
    let (v, is) := r.read is
    let (vs, is) := readAll rs is
    (v :: vs, is)

/-- A stream without flags, at `pos`. -/
def streamAt (rest : List UInt8) (pos : Nat) : IStream := ⟨rest, pos, false, false⟩

/-- The values that are read are those that were written, and the stream is at its end. -/
def TextRoundTrips (vs : List Value) : Prop :=
  readAll (vs.map Value.request) (IStream.ofBytes (writeAll vs)) =
    (vs.map some, streamAt [] (writeAll vs).length)

instance (vs : List Value) : Decidable (TextRoundTrips vs) :=
  inferInstanceAs (Decidable (_ = _))

-- ---------------------------------------------------------------------------
-- Lines
-- ---------------------------------------------------------------------------

/-- A line that has no newline in it is read back, and the stream stands behind its newline. -/
theorem getline_line {line : List UInt8} (h : 10 ∉ line) (rest : List UInt8) (pos : Nat) :
    (streamAt (line ++ 10 :: rest) pos).getline =
      (line, streamAt rest (pos + line.length + 1)) := by
  have hLine : (line ++ 10 :: rest).takeWhile (· ≠ 10) = line := by
    rw [takeWhile_stop (by decide), List.takeWhile_eq_self_iff]
    intro c hc
    have hNe : c ≠ 10 := fun hSame => h (hSame ▸ hc)
    exact decide_eq_true hNe
  have hShort : line.length < (line ++ 10 :: rest).length := by
    rw [List.length_append, List.length_cons]
    omega
  have hDrop : (line ++ 10 :: rest).drop (line.length + 1) = rest := by
    rw [List.drop_append, List.drop_eq_nil_of_le (Nat.le_succ _), Nat.add_sub_cancel_left]
    rfl
  generalize line ++ 10 :: rest = s at hLine hShort hDrop
  have hGood : (streamAt s pos).good = true := rfl
  simp only [IStream.getline, hGood, if_true]
  simp only [streamAt, hLine, hShort, if_true, IStream.advance, hDrop, Nat.add_assoc]

/-- A number at the beginning of a line. -/
theorem extract_digits {bits n : Nat} (h : n < 2 ^ bits) (rest : List UInt8) (pos : Nat) :
    (streamAt (digits n ++ 10 :: rest) pos).extract bits =
      (some n, streamAt (10 :: rest) (pos + (digits n).length)) := by
  obtain ⟨d, ds, hDigits⟩ := List.exists_cons_of_ne_nil (digits_ne_nil n)
  have hFirst : isDigit d = true := isDigit_digits (n := n) (by rw [hDigits]; simp)
  have hSpace : (digits n ++ 10 :: rest).takeWhile isSpace = [] := by
    rw [hDigits, List.cons_append, List.takeWhile_cons_of_neg]
    rw [not_isSpace_of_isDigit hFirst]
    decide
  have hSign : ∀ c, isDigit c = false → (digits n ++ 10 :: rest).head? ≠ some c := by
    intro c hc hSame
    rw [hDigits, List.cons_append, List.head?_cons, Option.some.injEq] at hSame
    rw [← hSame, hFirst] at hc
    exact absurd hc (by decide)
  have hMinus := hSign 45 (by decide)
  have hPlus := hSign 43 (by decide)
  have hTake : (digits n ++ 10 :: rest).takeWhile isDigit = digits n := by
    rw [takeWhile_stop (by decide), List.takeWhile_eq_self_iff]
    exact fun c hc => isDigit_digits hc
  have hEnd : (digits n).length ≠ (digits n ++ 10 :: rest).length := by
    rw [List.length_append, List.length_cons]
    omega
  have hDrop : (digits n ++ 10 :: rest).drop (digits n).length = 10 :: rest := List.drop_left
  generalize digits n ++ 10 :: rest = s at hSpace hMinus hPlus hTake hEnd hDrop
  have hGood : (streamAt s pos).good = true := rfl
  simp only [IStream.extract, hGood, if_true]
  simp only [streamAt, hSpace, IStream.advance, List.length_nil, List.drop_zero,
    Nat.add_zero, hMinus,
    hPlus, or_self, if_false, hTake, ne_eq, digits_ne_nil n, not_false_eq_true, decimal_digits,
      h, and_self,
    if_true, Nat.zero_add, hDrop, hEnd, decide_false]

/-- A number is read back if it fits into the bits that the reader asks for. -/
theorem readNumber_writeNumber {bits n : Nat} (h : n < 2 ^ bits) (rest : List UInt8) (pos : Nat) :
    readNumber bits (streamAt (writeNumber n ++ rest) pos) =
      (some n, streamAt rest (pos + (writeNumber n).length)) := by
  have hLine : (streamAt ([] ++ 10 :: rest) (pos + (digits n).length)).getline = _ :=
    getline_line List.not_mem_nil rest (pos + (digits n).length)
  rw [List.nil_append] at hLine
  rw [readNumber, writeNumber, List.append_assoc, List.singleton_append, extract_digits h]
  dsimp only
  rw [hLine, List.length_append, List.length_nil, List.length_singleton]
  rfl

theorem readVarint32_eq (is : IStream) :
    readVarint32 is = ((readNumber 32 is).1.map UInt32.ofNat, (readNumber 32 is).2) := by
  rw [readVarint32, readNumber]
  rcases is.extract 32 with ⟨_ | value, is⟩ <;> rfl

/-- Raw bytes may hold newlines: their number says where they end. -/
theorem readRaw_writeRaw (data rest : List UInt8) (pos : Nat) :
    readRaw data.length (streamAt (writeRaw data data.length ++ rest) pos) =
      (some data, streamAt rest (pos + (writeRaw data data.length).length)) := by
  have hLine : (streamAt ([] ++ 10 :: rest) (pos + data.length)).getline = _ :=
    getline_line List.not_mem_nil rest (pos + data.length)
  rw [List.nil_append] at hLine
  have hEnough : data.length ≤ (data ++ 10 :: rest).length := by
    rw [List.length_append]
    omega
  have hGood : (streamAt (data ++ 10 :: rest) pos).good = true := rfl
  have hRead : (streamAt (data ++ 10 :: rest) pos).read data.length =
      (data, streamAt (10 :: rest) (pos + data.length)) := by
    rw [IStream.read, if_pos hGood]
    simp only [streamAt, hEnough, if_true, IStream.advance, List.take_left, List.drop_left]
  rw [writeRaw, List.take_length, List.append_assoc, List.singleton_append, readRaw, hRead]
  dsimp only
  rw [hLine, List.length_append, List.length_nil, List.length_singleton]
  rfl

-- ---------------------------------------------------------------------------
-- Replacing
-- ---------------------------------------------------------------------------

/-- **`replace_all` replaces**, from left to right. What is already replaced is a prefix `p`. -/
theorem replaceAll_replaces {sub other s t : List UInt8} (hSub : sub ≠ [])
    (h : Replaces sub other s t) :
    ∀ (n : Nat) (p : List UInt8), s.length ≤ n → replaceAll sub other n p.length (p ++ s) =
      p ++ t := by
  induction h with
  | nil =>
    intro n p _
    rw [List.append_nil]
    cases n with
    | zero => rfl
    | succ n => rw [replaceAll, Lib.find_length]
  | @hit s t _ ih =>
    intro n p hn
    have hPos := List.length_pos_of_ne_nil hSub
    rw [List.length_append] at hn
    obtain ⟨n, rfl⟩ : ∃ m, n = m + 1 := ⟨n - 1, by omega⟩
    have hHere : Lib.OccursAt (p ++ (sub ++ s)) sub p.length := by
      refine ⟨s, ?_⟩
      rw [List.drop_left]
    have hTake : (p ++ (sub ++ s)).take p.length = p := List.take_left
    have hDrop : (p ++ (sub ++ s)).drop (p.length + sub.length) = s := by
      rw [← List.append_assoc, ← List.length_append]
      exact List.drop_left
    have hRest := ih n (p ++ other) (by omega)
    rw [replaceAll, Lib.find_of_occursAt hSub hHere]
    dsimp only
    rw [hTake, hDrop, ← List.length_append, hRest, List.append_assoc]
  | @miss c s t hMiss _ ih =>
    intro n p hn
    rw [List.length_cons] at hn
    obtain ⟨n, rfl⟩ : ∃ m, n = m + 1 := ⟨n - 1, by omega⟩
    have hNot : ¬ Lib.OccursAt (p ++ c :: s) sub p.length := by
      rw [Lib.OccursAt, List.drop_left]
      exact hMiss
    have hRest := ih (n + 1) (p ++ [c]) (by omega)
    rw [List.length_append, List.length_singleton, List.append_assoc, List.append_assoc,
      List.singleton_append, List.singleton_append] at hRest
    rw [← hRest, replaceAll, replaceAll, Lib.find_succ hNot]

theorem replaceAll_eq {sub other s t : List UInt8} (hSub : sub ≠ []) (h : Replaces sub other s t) :
    replaceAll sub other s.length 0 s = t :=
  replaceAll_replaces hSub h s.length [] (Nat.le_refl _)

-- ---------------------------------------------------------------------------
-- Strings
-- ---------------------------------------------------------------------------

/-- A byte as it is written. -/
def escapeByte (c : UInt8) : List UInt8 :=
  if c = 92 then [92, 92] else if c = 10 then [92, 110] else [c]

/-- What both passes of `WriteString` come to, byte by byte. -/
def escape (buffer : List UInt8) : List UInt8 := buffer.flatMap escapeByte

/-- The two replacements of `WriteString` work on every byte on its own. -/
theorem writeString_eq (buffer : List UInt8) : writeString buffer = escape buffer ++ [10] := by
  have hFirst := replaceAll_eq (by decide) (Lib.replaces_singleton 92 [92, 92] buffer)
  have hSecond := replaceAll_eq (by decide) (Lib.replaces_singleton 10 [92, 110]
    (buffer.flatMap fun c => if c = 92 then [92, 92] else [c]))
  have hBytes : ((buffer.flatMap fun c => if c = 92 then [92, 92] else [c]).flatMap
      fun c => if c = 10 then [92, 110] else [c]) = escape buffer := by
    rw [escape, List.flatMap_assoc]
    refine List.flatMap_congr fun c _ => ?_
    rw [escapeByte]
    split
    · decide
    · rw [List.flatMap_singleton]
  rw [writeString, hFirst, hSecond, hBytes]

/-- No newline is left within the line. -/
theorem newline_not_mem_escape (buffer : List UInt8) : 10 ∉ escape buffer := by
  intro h
  obtain ⟨c, -, hc⟩ := List.mem_flatMap.mp h
  rw [escapeByte] at hc
  split at hc
  · exact absurd hc (by decide)
  · split at hc
    · exact absurd hc (by decide)
    · next hNot => exact hNot (List.mem_singleton.mp hc).symm

/-- What comes back: an `n` behind a backslash is a newline. `after` says that the byte before
was a backslash. -/
def readBack : Bool → List UInt8 → List UInt8
  | _, [] => []
  | after, c :: s => (if after ∧ c = 110 then 10 else c) :: readBack (decide (c = 92)) s

/-- The second half of a backslash that has been written twice. -/
def pending (after : Bool) : List UInt8 := if after then [92] else []

theorem not_prefix_of_first {a b c : UInt8} {s : List UInt8} (h : c ≠ a) : ¬ [a, b] <+: c :: s := by
  rintro ⟨t, ht⟩
  exact h (List.cons.inj ht).1.symm

theorem not_prefix_of_second {a b c d : UInt8} {s : List UInt8} (h : d ≠ b) :
    ¬ [a, b] <+: c :: d :: s := by
  rintro ⟨t, ht⟩
  exact h (List.cons.inj (List.cons.inj ht).2).1.symm

/-- The two replacements of `ReadString`. Between the two bytes of a backslash, the first is
passed and the second one is `pending`: the first replacement takes it with an `n` that follows,
otherwise the second replacement joins the two. -/
theorem unescape_replaces : ∀ (s : List UInt8) (after : Bool), ∃ t,
    Replaces [92, 110] [10] (pending after ++ escape s) t ∧
      Replaces [92, 92] [92] (pending after ++ t) (pending after ++ readBack after s) := by
  intro s
  induction s with
  | nil =>
    intro after
    cases after with
    | false => exact ⟨[], .nil, .nil⟩
    | true => exact ⟨[92], .miss (by decide) .nil, .hit .nil⟩
  | cons c s ih =>
    intro after
    have hEscape : escape (c :: s) = escapeByte c ++ escape s := List.flatMap_cons
    rw [hEscape]
    by_cases hBackslash : c = 92
    · -- the second byte of this backslash is the pending one of the rest
      subst hBackslash
      obtain ⟨t, hFirst, hSecond⟩ := ih true
      cases after with
      | false => exact ⟨92 :: t, .miss (not_prefix_of_second (by decide)) hFirst, hSecond⟩
      | true =>
        refine ⟨92 :: 92 :: t, ?_, .hit hSecond⟩
        exact .miss (not_prefix_of_second (by decide))
          (.miss (not_prefix_of_second (by decide)) hFirst)
    · obtain ⟨t, hFirst, hSecond⟩ := ih false
      have hRest : readBack (decide (c = 92)) s = readBack false s := by
        rw [decide_eq_false hBackslash]
      by_cases hNewline : c = 10
      · subst hNewline
        have hHit : Replaces [92, 110] [10] (92 :: 110 :: escape s) (10 :: t) := .hit hFirst
        have hPass : Replaces [92, 92] [92] (10 :: t) (10 :: readBack false s) :=
          .miss (not_prefix_of_first (by decide)) hSecond
        cases after with
        | false => exact ⟨10 :: t, hHit, hPass⟩
        | true => exact ⟨92 :: 10 :: t, .miss (not_prefix_of_second (by decide)) hHit, .hit hPass⟩
      · have hByte : escapeByte c = [c] := by rw [escapeByte, if_neg hBackslash, if_neg hNewline]
        have hPass : Replaces [92, 110] [10] (c :: escape s) (c :: t) :=
          .miss (not_prefix_of_first hBackslash) hFirst
        have hPass' : Replaces [92, 92] [92] (c :: t) (c :: readBack false s) :=
          .miss (not_prefix_of_first hBackslash) hSecond
        rw [hByte, readBack, hRest]
        cases after with
        | false =>
          rw [if_neg (by simp)]
          exact ⟨c :: t, hPass, hPass'⟩
        | true =>
          by_cases hN : c = 110
          · subst hN
            refine ⟨10 :: t, .hit hFirst, ?_⟩
            exact .miss (not_prefix_of_second (by decide))
              (.miss (not_prefix_of_first (by decide)) hSecond)
          · rw [if_neg (by simp [hN])]
            exact ⟨92 :: c :: t, .miss (not_prefix_of_second hN) hPass, .hit hPass'⟩

/-- **A string is read back** but for its newlines behind backslashes. -/
theorem readString_writeString (buffer rest : List UInt8) (pos : Nat) :
    readString (streamAt (writeString buffer ++ rest) pos) =
      (some (readBack false buffer), streamAt rest (pos + (writeString buffer).length)) := by
  obtain ⟨t, hFirst, hSecond⟩ := unescape_replaces buffer false
  have hLine := getline_line (newline_not_mem_escape buffer) rest pos
  have hUnescape := replaceAll_eq (by decide) hFirst
  have hJoin := replaceAll_eq (by decide) hSecond
  rw [pending, if_neg (by decide), List.nil_append] at hUnescape hJoin
  rw [writeString_eq, List.append_assoc, List.singleton_append, readString, hLine]
  dsimp only
  rw [hUnescape, hJoin, List.length_append, List.length_singleton]
  rfl

/-- Only a backslash can begin a backslash with an `n`. -/
theorem infix_cons_pending (c : UInt8) (s : List UInt8) :
    [92, 110] <:+: c :: s ↔ [92, 110] <:+: pending (decide (c = 92)) ++ s := by
  by_cases hc : c = 92
  · rw [hc]
    exact Iff.rfl
  · rw [List.infix_cons_iff, decide_eq_false hc]
    exact or_iff_right (not_prefix_of_first hc)

/-- The strings that are read back as they are. -/
theorem readBack_eq_iff : ∀ (s : List UInt8) (after : Bool),
    readBack after s = s ↔ ¬ [92, 110] <:+: pending after ++ s := by
  intro s
  induction s with
  | nil =>
    intro after
    cases after with
    | false => decide
    | true => decide
  | cons c s ih =>
    intro after
    rw [readBack, List.cons.injEq, ih, ← infix_cons_pending]
    cases after with
    | false =>
      rw [if_neg (by simp)]
      exact and_iff_right rfl
    | true =>
      have hCons : [92, 110] <:+: 92 :: c :: s ↔ [92, 110] <+: 92 :: c :: s ∨
        [92, 110] <:+: c :: s :=
        List.infix_cons_iff
      show _ ↔ ¬ [92, 110] <:+: 92 :: c :: s
      rw [hCons, not_or]
      refine and_congr_left fun _ => ?_
      by_cases hN : c = 110
      · rw [hN]
        simp
      · rw [if_neg (by simp [hN])]
        exact iff_of_true rfl (not_prefix_of_second hN)

-- ---------------------------------------------------------------------------
-- Sequences
-- ---------------------------------------------------------------------------

/-- What is read of a value. -/
def Value.readBack : Value → Value
  | .string buffer => .string (Text.readBack false buffer)
  | v => v

/-- One value at a time, whatever comes behind it. -/
theorem read_write (v : Value) (rest : List UInt8) (pos : Nat) :
    v.request.read (streamAt (v.write ++ rest) pos) =
      (some v.readBack, streamAt rest (pos + v.write.length)) := by
  cases v with
  | string buffer =>
    simp only [Value.request, Value.write, Request.read, readString_writeString]
    rfl
  | littleEndian32 value =>
    simp only [Value.request, Value.write, Request.read, readLittleEndian32, writeLittleEndian32,
      readNumber_writeNumber value.toNat_lt, Option.map_some, UInt32.ofNat_toNat]
    rfl
  | varint32 value =>
    simp only [Value.request, Value.write, Request.read, readVarint32_eq, writeVarint32,
      readNumber_writeNumber value.toNat_lt, Option.map_some, UInt32.ofNat_toNat]
    rfl
  | littleEndian64 value =>
    simp only [Value.request, Value.write, Request.read, readLittleEndian64, writeLittleEndian64,
      readNumber_writeNumber value.toNat_lt, Option.map_some, UInt64.ofNat_toNat]
    rfl
  | varint64 value =>
    simp only [Value.request, Value.write, Request.read, readVarint64, writeVarint64,
      readNumber_writeNumber value.toNat_lt, Option.map_some, UInt64.ofNat_toNat]
    rfl
  | raw data =>
    simp only [Value.request, Value.write, Request.read, readRaw_writeRaw]
    rfl

/-- **What is read of a sequence**, and where: at its end. -/
theorem readAll_writeAll : ∀ (vs : List Value) (rest : List UInt8) (pos : Nat),
    readAll (vs.map Value.request) (streamAt (writeAll vs ++ rest) pos) =
      (vs.map fun v => some v.readBack, streamAt rest (pos + (writeAll vs).length)) := by
  intro vs
  induction vs with
  | nil =>
    intro rest pos
    rfl
  | cons v vs ih =>
    intro rest pos
    have hCons : writeAll (v :: vs) = v.write ++ writeAll vs := List.flatMap_cons
    rw [List.map_cons, readAll, hCons, List.append_assoc, read_write]
    dsimp only
    rw [ih, List.length_append, Nat.add_assoc]
    rfl

/-- Only a string in which a backslash is followed by an `n` comes back as another one. -/
theorem readBack_eq_self_iff (v : Value) :
    v.readBack = v ↔ ∀ buffer, v = .string buffer → ¬ [92, 110] <:+: buffer := by
  cases v with
  | string buffer =>
    rw [Value.readBack, Value.string.injEq, readBack_eq_iff]
    refine ⟨?_, fun h => h buffer rfl⟩
    rintro h _ ⟨⟩
    exact h
  | _ => exact ⟨fun _ _ h => absurd h (by simp), fun _ => rfl⟩

/-- **Text streams round-trip** exactly for the sequences none of whose strings has a backslash
and an `n` behind it. -/
theorem text_round_trips_iff (vs : List Value) :
    TextRoundTrips vs ↔ ∀ buffer, Value.string buffer ∈ vs → ¬ [92, 110] <:+: buffer := by
  have hRead := readAll_writeAll vs [] 0
  rw [List.append_nil, Nat.zero_add] at hRead
  have hStart : IStream.ofBytes (writeAll vs) = streamAt (writeAll vs) 0 := rfl
  rw [TextRoundTrips, hStart, hRead, Prod.mk.injEq, and_iff_left rfl, List.map_inj_left]
  constructor
  · intro h buffer hMem
    exact (readBack_eq_self_iff _).mp (Option.some.inj (h _ hMem)) buffer rfl
  · intro h v hMem
    refine congrArg some ((readBack_eq_self_iff v).mpr fun buffer hString => h buffer ?_)
    rw [← hString]
    exact hMem

/-- A number, a block with a newline, and a string that comes back with a newline for its `n`. -/
theorem backslash_n_does_not_round_trip :
    ¬ TextRoundTrips [.varint64 18446744073709551615, .raw [10, 92], .string [99, 92, 110]] := by
  decide

end Text

end HectorCore.Stream
