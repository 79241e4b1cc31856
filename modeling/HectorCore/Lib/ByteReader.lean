import Mathlib

/-!
# Byte readers — self-delimiting records in a stream with a limit

A reader consumes bytes of a source that hands out no more than `limit` bytes. The notion that
composes is `Reads p bs a`: from every source that begins with `bs`, and whose limit allows it,
`p` reads exactly `bs` and returns `a`, whatever follows.

* `Reads.bind`    — one after the other;
* `reads_bytes`   — a number of raw bytes;
* `reads_varint`  — the varint encoding of a number that fits;
* `Needs.bind`    — a part of the bytes is not enough;
* `Consumes.bind` — how much readers consume at least, so that a loop over them ends.
-/

namespace HectorCore.Lib

/-- What can still be read, and how much of it may be. -/
structure Source where
  rest : List UInt8
  limit : Nat
  deriving DecidableEq, Repr

abbrev Reader := StateT Source Option

namespace Reader

/-- The next byte. -/
def byte : Reader UInt8 := fun s =>
  match s.rest, s.limit with
  | b :: rest, limit + 1 => some (b, ⟨rest, limit⟩)
  | _, _ => none

/-- The next `n` bytes, or nothing at all. -/
def bytes (n : Nat) : Reader (List UInt8) := fun s =>
  if n ≤ s.rest.length ∧ n ≤ s.limit then some (s.rest.take n, ⟨s.rest.drop n, s.limit - n⟩)
  else none

/-- A varint of at most `k` bytes: seven bits in each, the lowest first, the high bit on all
but the last. -/
def varint : Nat → Reader Nat
  | 0 => fun _ => none
  | k + 1 => do
    let b ← byte
    if b.toNat < 128 then pure b.toNat
    else do
      let n ← varint k
      pure (b.toNat - 128 + 128 * n)

theorem bind_run {α β : Type} (p : Reader α) (q : α → Reader β) (s : Source) :
    (p >>= q) s = (p s).bind fun x => q x.1 x.2 := rfl

end Reader

/-- The varint encoding of `n` in at most `k` bytes. -/
def encodeVarint : Nat → Nat → List UInt8
  | 0, _ => []
  | k + 1, n =>
    if n < 128 then [UInt8.ofNat n]
    else UInt8.ofNat (n % 128 + 128) :: encodeVarint k (n / 128)

/-- `k` turns write at most `k` bytes. -/
theorem length_encodeVarint_le : ∀ k n, (encodeVarint k n).length ≤ k := by
  intro k
  induction k with
  | zero =>
    intro _
    exact Nat.le_refl 0
  | succ k ih =>
    intro n
    rw [encodeVarint]
    split
    · simp
    · simpa using ih (n / 128)

/-- From every source that begins with `bs`, `p` reads `bs` and returns `a`. -/
def Reads {α : Type} (p : Reader α) (bs : List UInt8) (a : α) : Prop :=
  ∀ rest limit, bs.length ≤ limit → p ⟨bs ++ rest, limit⟩ = some (a, ⟨rest, limit - bs.length⟩)

variable {α β : Type}

theorem Reads.pure (a : α) : Reads (pure a) [] a := by
  intro rest limit _
  rfl

/-- One reader after the other. -/
theorem Reads.bind {p : Reader α} {q : α → Reader β} {bs cs : List UInt8} {a : α} {b : β}
    (hp : Reads p bs a) (hq : Reads (q a) cs b) : Reads (p >>= q) (bs ++ cs) b := by
  intro rest limit hLimit
  rw [List.length_append] at hLimit
  have hFirst := hp (cs ++ rest) limit (by omega)
  have hThen := hq rest (limit - bs.length) (by omega)
  rw [Reader.bind_run, List.append_assoc, hFirst, Option.bind_some, hThen, List.length_append,
    Nat.sub_sub]

theorem Reads.map {p : Reader α} {bs : List UInt8} {a : α} (hp : Reads p bs a) (f : α → β) :
    Reads (p >>= fun x => Pure.pure (f x)) bs (f a) := by
  have h := hp.bind (q := fun x => Pure.pure (f x)) (Reads.pure (f a))
  rwa [List.append_nil] at h

/-- A byte reads itself, and a string reads itself. -/
theorem reads_byte (b : UInt8) : Reads Reader.byte [b] b := by
  intro rest limit hLimit
  obtain ⟨k, rfl⟩ : ∃ k, limit = k + 1 := ⟨limit - 1, by simp at hLimit; omega⟩
  rfl

theorem reads_bytes (bs : List UInt8) : Reads (Reader.bytes bs.length) bs bs := by
  intro rest limit hLimit
  simp [Reader.bytes, hLimit]

/-- The last byte of a varint. -/
theorem reads_varint_last {b : UInt8} (hLast : b.toNat < 128) (j : Nat) :
    Reads (Reader.varint (j + 1)) [b] b.toNat := by
  show Reads (Reader.varint (j + 1)) ([b] ++ []) b.toNat
  refine (reads_byte b).bind ?_
  rw [if_pos hLast]
  exact Reads.pure b.toNat

/-- A byte with the high bit, and the varint that goes on. -/
theorem reads_varint_more {b : UInt8} {bs : List UInt8} {m j : Nat} (hMore : ¬ b.toNat < 128)
    (h : Reads (Reader.varint j) bs m) :
    Reads (Reader.varint (j + 1)) (b :: bs) (b.toNat - 128 + 128 * m) := by
  show Reads (Reader.varint (j + 1)) ([b] ++ bs) _
  refine (reads_byte b).bind ?_
  rw [if_neg hMore]
  exact h.map fun m => b.toNat - 128 + 128 * m

/-- A number that fits into `k + 1` bytes is read back. -/
theorem reads_varint (k : Nat) : ∀ {n j : Nat}, n < 128 ^ (k + 1) → k < j →
    Reads (Reader.varint j) (encodeVarint (k + 1) n) n := by
  -- on the bytes that are left; the reader's allowance `j` shrinks with them
  induction k with
  | zero =>
    intro n j hn hj
    obtain ⟨j, rfl⟩ : ∃ i, j = i + 1 := ⟨j - 1, by omega⟩
    have hByte : (UInt8.ofNat n).toNat = n := by simp; omega
    have h := reads_varint_last (b := UInt8.ofNat n) (by omega) j
    rw [hByte] at h
    rwa [encodeVarint, if_pos (by omega)]
  | succ k ih =>
    intro n j hn hj
    obtain ⟨j, rfl⟩ : ∃ i, j = i + 1 := ⟨j - 1, by omega⟩
    rw [encodeVarint]
    by_cases hSmall : n < 128
    · have hByte : (UInt8.ofNat n).toNat = n := by simp; omega
      have h := reads_varint_last (b := UInt8.ofNat n) (by omega) j
      rw [hByte] at h
      rwa [if_pos hSmall]
    · have hByte : (UInt8.ofNat (n % 128 + 128)).toNat = n % 128 + 128 := by simp; omega
      have hDiv : n / 128 < 128 ^ (k + 1) := by
        rw [Nat.div_lt_iff_lt_mul (by decide), ← Nat.pow_succ]
        exact hn
      have h := reads_varint_more (b := UInt8.ofNat (n % 128 + 128)) (by omega)
        (ih hDiv (by omega : k < j))
      rw [hByte, Nat.add_sub_cancel, Nat.mod_add_div] at h
      rwa [if_neg hSmall]

/-- `p` fails where less than `bs` is to be had. -/
def Needs (p : Reader α) (bs : List UInt8) : Prop :=
  ∀ s : Source, s.rest.take s.limit <+: bs → s.rest.take s.limit ≠ bs → p s = none

/-- Nothing is missing of nothing. -/
theorem Needs.nil (p : Reader α) : Needs p [] := by
  intro s hPrefix hNe
  exact absurd (List.prefix_nil.mp hPrefix) hNe

/-- One reader after the other: the first one has all it needs, or the second one lacks
something. -/
theorem Needs.bind {p : Reader α} {q : α → Reader β} {bs cs : List UInt8} {a : α}
    (hRead : Reads p bs a) (hp : Needs p bs) (hq : Needs (q a) cs) :
    Needs (p >>= q) (bs ++ cs) := by
  rintro ⟨rest, limit⟩ hPrefix hNe
  dsimp only at hPrefix hNe
  rw [Reader.bind_run]
  by_cases hFirst : bs <+: rest.take limit
  · obtain ⟨tail, rfl⟩ := hFirst.trans (List.take_prefix limit rest)
    have hLimit : bs.length ≤ limit := by
      have hLe := hFirst.length_le
      rw [List.length_take] at hLe
      omega
    have hWindow : (bs ++ tail).take limit = bs ++ tail.take (limit - bs.length) := by
      rw [List.take_append, List.take_of_length_le hLimit]
    rw [hWindow] at hPrefix hNe
    rw [hRead tail limit hLimit, Option.bind_some]
    refine hq _ ((List.prefix_append_right_inj bs).mp hPrefix) ?_
    intro hSame
    exact hNe (congrArg (bs ++ ·) hSame)
  · have hPart : rest.take limit <+: bs :=
      (List.prefix_or_prefix_of_prefix hPrefix (List.prefix_append bs cs)).resolve_right hFirst
    rw [hp ⟨rest, limit⟩ hPart fun hSame => hFirst (hSame ▸ List.prefix_refl _), Option.bind_none]

theorem Needs.map {p : Reader α} {bs : List UInt8} {a : α} (hRead : Reads p bs a) (hp : Needs p bs)
    (f : α → β) : Needs (p >>= fun x => Pure.pure (f x)) bs := by
  have h := Needs.bind (q := fun x => Pure.pure (f x)) hRead hp (Needs.nil _)
  rwa [List.append_nil] at h

/-- A part of what is needed, in a stream with any limit. -/
theorem Needs.of_prefix {p : Reader α} {bs bytes : List UInt8} (h : Needs p bs)
    (hPrefix : bytes <+: bs) (hNe : bytes ≠ bs) (limit : Nat) : p ⟨bytes, limit⟩ = none := by
  refine h ⟨bytes, limit⟩ ((List.take_prefix limit bytes).trans hPrefix) ?_
  intro hSame
  have hAll : bs <+: bytes := hSame ▸ List.take_prefix limit bytes
  exact hNe (hPrefix.eq_of_length (Nat.le_antisymm hPrefix.length_le hAll.length_le))

/-- A stream of which more is needed than its limit allows. -/
theorem Needs.of_limit {p : Reader α} {bs all bytes : List UInt8} (h : Needs p bs)
    (hAll : bs <+: all) (hPrefix : bytes <+: all) {limit : Nat} (hLimit : limit < bs.length) :
    p ⟨bytes, limit⟩ = none := by
  have hShort : (bytes.take limit).length < bs.length := by
    rw [List.length_take]
    omega
  have hWindow : bytes.take limit <+: all := (List.take_prefix limit bytes).trans hPrefix
  refine h ⟨bytes, limit⟩ (List.prefix_of_prefix_length_le hWindow hAll (Nat.le_of_lt hShort)) ?_
  intro hSame
  exact absurd (congrArg List.length hSame) (Nat.ne_of_lt hShort)

theorem needs_byte (b : UInt8) : Needs Reader.byte [b] := by
  rintro ⟨rest, limit⟩ hPrefix hNe
  dsimp only at hPrefix hNe
  cases rest with
  | nil => rfl
  | cons c rest =>
    cases limit with
    | zero => rfl
    | succ limit =>
      rw [List.take_succ_cons] at hPrefix hNe
      obtain ⟨rfl, hTail⟩ := List.cons_prefix_cons.mp hPrefix
      rw [List.prefix_nil.mp hTail] at hNe
      exact absurd rfl hNe

theorem needs_bytes (bs : List UInt8) : Needs (Reader.bytes bs.length) bs := by
  intro s hPrefix hNe
  rw [Reader.bytes, if_neg]
  rintro ⟨hRest, hLimit⟩
  refine hNe (hPrefix.eq_of_length ?_)
  have hLe := hPrefix.length_le
  rw [List.length_take] at hLe ⊢
  omega

/-- A varint needs its last byte. -/
theorem needs_varint_last (b : UInt8) (j : Nat) : Needs (Reader.varint (j + 1)) [b] := by
  show Needs (Reader.varint (j + 1)) ([b] ++ [])
  exact Needs.bind (reads_byte b) (needs_byte b) (Needs.nil _)

/-- It needs every byte that says that more will come. -/
theorem needs_varint_more {b : UInt8} {bs : List UInt8} {m j : Nat} (hMore : ¬ b.toNat < 128)
    (hRead : Reads (Reader.varint j) bs m) (h : Needs (Reader.varint j) bs) :
    Needs (Reader.varint (j + 1)) (b :: bs) := by
  show Needs (Reader.varint (j + 1)) ([b] ++ bs)
  refine Needs.bind (reads_byte b) (needs_byte b) ?_
  rw [if_neg hMore]
  exact Needs.map hRead h _

/-- A varint is read from all of its bytes only. -/
theorem needs_varint (k : Nat) : ∀ {n j : Nat}, n < 128 ^ (k + 1) → k < j →
    Needs (Reader.varint j) (encodeVarint (k + 1) n) := by
  induction k with
  | zero =>
    intro n j hn hj
    obtain ⟨j, rfl⟩ : ∃ i, j = i + 1 := ⟨j - 1, by omega⟩
    rw [encodeVarint, if_pos (by omega)]
    exact needs_varint_last _ j
  | succ k ih =>
    intro n j hn hj
    obtain ⟨j, rfl⟩ : ∃ i, j = i + 1 := ⟨j - 1, by omega⟩
    rw [encodeVarint]
    by_cases hSmall : n < 128
    · rw [if_pos hSmall]
      exact needs_varint_last _ j
    · have hDiv : n / 128 < 128 ^ (k + 1) := by
        rw [Nat.div_lt_iff_lt_mul (by decide), ← Nat.pow_succ]
        exact hn
      rw [if_neg hSmall]
      exact needs_varint_more (by simp; omega) (reads_varint k hDiv (by omega)) (ih hDiv (by omega))

/-- When `p` succeeds, it has read at least `n` bytes. -/
def Consumes (p : Reader α) (n : Nat) : Prop :=
  ∀ s s' a, p s = some (a, s') → s'.rest.length + n ≤ s.rest.length

theorem Consumes.pure (a : α) : Consumes (pure a) 0 := by
  intro s s' b h
  obtain ⟨-, rfl⟩ := Prod.mk.inj (Option.some.inj h)
  exact Nat.le_refl _

theorem Consumes.fail {n : Nat} : Consumes (fun _ => none : Reader α) n := by
  intro s s' a h
  exact absurd h (by simp)

/-- Two readers, one behind the other. -/
theorem Consumes.bind {p : Reader α} {q : α → Reader β} {n m : Nat} (hp : Consumes p n)
    (hq : ∀ a, Consumes (q a) m) : Consumes (p >>= q) (n + m) := by
  intro s s' b h
  rw [Reader.bind_run] at h
  obtain ⟨⟨a, t⟩, hFirst, hThen⟩ := Option.bind_eq_some_iff.mp h
  have h₁ := hp s t a hFirst
  have h₂ := hq a t s' b hThen
  omega

theorem consumes_byte : Consumes Reader.byte 1 := by
  intro s s' b h
  obtain ⟨rest, limit⟩ := s
  cases rest with
  | nil => exact absurd h (by simp [Reader.byte])
  | cons c rest =>
    cases limit with
    | zero => exact absurd h (by simp [Reader.byte])
    | succ limit =>
      obtain ⟨-, rfl⟩ := Prod.mk.inj (Option.some.inj h)
      exact Nat.le_refl _

theorem consumes_bytes (n : Nat) : Consumes (Reader.bytes n) 0 := by
  intro s s' bs h
  rw [Reader.bytes] at h
  split at h
  · obtain ⟨-, rfl⟩ := Prod.mk.inj (Option.some.inj h)
    simp
  · exact absurd h (by simp)

/-- A varint takes at least one byte. -/
theorem consumes_varint : ∀ k, Consumes (Reader.varint k) 1 := by
  intro k
  induction k with
  | zero =>
    exact Consumes.fail
  | succ k ih =>
    refine consumes_byte.bind (m := 0) fun b => ?_
    split
    · exact Consumes.pure _
    · intro s s' n h
      have hMore := (ih.bind (m := 0) fun m => Consumes.pure _) s s' n h
      omega

end HectorCore.Lib
