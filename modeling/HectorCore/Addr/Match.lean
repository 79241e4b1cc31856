import HectorCore.Addr.IpAddr
import Mathlib.Data.List.TakeWhile

/-!
# Match — whether an address lies within a prefix

`IpAddr::Match` and `Compare` of `lib/IpAddr.cc` against what they are for: the text is an address
of the family, and its first bits are those of the address. The comparison of IPv4 addresses is that
of the first bits, but shifts by 32 where there are none; the comparison of IPv6 addresses does not
look at the length. A text that is not an address is read as the empty address, or up to a zero
byte.

* `compare_answers`    — what is compared;
* `right_iff`          — when that is right, for whatever is handed to `inet_pton`;
* `match_right_iff`    — both `Match`es.
-/

namespace HectorCore.Addr

open Lib (cStr digits)

/-- The call returns, and `true` if and only if `P`. -/
def Answers (result : Option Bool) (P : Prop) : Prop := ∃ b, result = some b ∧ (b = true ↔ P)

theorem Answers.congr {result : Option Bool} {P Q : Prop} (h : Answers result P) (hPQ : P ↔ Q) :
    Answers result Q := by
  obtain ⟨b, hResult, hb⟩ := h
  exact ⟨b, hResult, hb.trans hPQ⟩

theorem Answers.iff {result : Option Bool} {P Q : Prop} (h : Answers result P)
    (h' : Answers result Q) : P ↔ Q := by
  obtain ⟨b, hResult, hb⟩ := h
  obtain ⟨c, hSame, hc⟩ := h'
  cases hResult.symm.trans hSame
  exact hb.symm.trans hc

/-- What `inet_pton` reads. -/
def Inet.read (inet : Inet) (ip4Addr : Bool) (s : Str) : Option IpAddr :=
  if ip4Addr then (inet.pton4 s).map .ip4 else (inet.pton6 s).map .ip6

/-- No address is empty or has a slash in it. -/
structure Inet.Documented (inet : Inet) : Prop where
  nonempty : ∀ ip4Addr, inet.read ip4Addr [] = none
  noSlash : ∀ ip4Addr s b, inet.read ip4Addr s = some b → slash ∉ s

namespace IpAddr

variable {inet : Inet} {host : Host} {a b : IpAddr} {text addr : Str} {length : Nat}

-- ---------------------------------------------------------------------------
-- Compare
-- ---------------------------------------------------------------------------

/-- The shift of `Match` is defined for these lengths only. -/
theorem mask_eq (hPos : 1 ≤ length) (hLe : length ≤ 32) :
    mask length = some (0xffffffff#32 <<< (32 - length)) := by
  have hShift : ((32 : Int) - length).toNat = 32 - length := by omega
  rw [mask, if_pos (by omega), hShift]

theorem mask_eq_none {n : Int} (h : ¬ (1 ≤ n ∧ n ≤ 32)) : mask n = none := by
  rw [mask, if_neg (by omega)]

/-- The mask keeps the bits at the top. -/
theorem getLsbD_and_mask (x : BitVec 32) (length : Nat) {i : Nat} (hi : i < 32) :
    (x &&& 0xffffffff#32 <<< (32 - length)).getLsbD (31 - i) =
      (x.getLsbD (31 - i) && decide (i < length)) := by
  have hOnes : 0xffffffff#32 = BitVec.allOnes 32 := rfl
  have hIn : 31 - i < 32 := by omega
  have hInShifted : 31 - i - (32 - length) < 32 := by omega
  have hKept : 31 - i < 32 - length ↔ ¬ i < length := by omega
  simp only [hOnes, BitVec.getLsbD_and, BitVec.getLsbD_shiftLeft, BitVec.getLsbD_allOnes, hIn,
    hInShifted, hKept, decide_true, Bool.true_and, Bool.and_true, decide_not, Bool.not_not]

/-- The comparison of the numbers under the mask is that of the first bits. -/
theorem and_mask_eq_iff (x y : BitVec 32) (hLe : length ≤ 32) :
    ntohl host x &&& 0xffffffff#32 <<< (32 - length) =
        ntohl host y &&& 0xffffffff#32 <<< (32 - length) ↔
      AgreeOn host length (.ip4 x) (.ip4 y) := by
  constructor
  · intro hEq i hi
    have hBit := congrArg (·.getLsbD (31 - i)) hEq
    simp only [getLsbD_and_mask _ _ (Nat.lt_of_lt_of_le hi hLe), hi, decide_true, Bool.and_true,
      ntohl_getLsbD _ (Nat.lt_of_lt_of_le hi hLe)] at hBit
    exact hBit
  · intro hAgree
    refine eq_of_top_bits fun i hi => ?_
    rw [getLsbD_and_mask _ _ hi, getLsbD_and_mask _ _ hi, ntohl_getLsbD _ hi, ntohl_getLsbD _ hi]
    by_cases hLength : i < length
    · rw [hAgree i hLength]
    · simp [hLength]

/-- The two words hold the whole address. -/
theorem ofWords_getIp6Addr (addr : Ip6) :
    ofWords (getIp6Addr addr true) (getIp6Addr addr false) = addr :=
  Fin.append_castAdd_natAdd

/-- Two addresses are equal if their words are. -/
theorem getIp6Addr_inj {x y : Ip6} :
    getIp6Addr x true = getIp6Addr y true ∧ getIp6Addr x false = getIp6Addr y false ↔ x = y := by
  constructor
  · rintro ⟨hFirst, hSecond⟩
    rw [← ofWords_getIp6Addr x, hFirst, hSecond, ofWords_getIp6Addr]
  · rintro rfl
    exact ⟨rfl, rfl⟩

theorem reverseIp6Addr_inj (x y : Ip6) :
    reverseIp6Addr host x = reverseIp6Addr host y ↔ x = y := by
  refine ⟨fun hEq => ?_, congrArg _⟩
  rw [← reverseIp6Addr_reverse host x, hEq, reverseIp6Addr_reverse]

/-- The shift is defined. -/
def Defined (a : IpAddr) (n : Int) : Prop := a.isIp4Addr = true → 1 ≤ n ∧ n ≤ 32

/-- What `Compare` compares. -/
def Same (host : Host) (a b : IpAddr) (n : Int) : Prop :=
  if a.isIp4Addr then AgreeOn host n.toNat a b else a = b

variable (host) in
/-- Two addresses of one family: the comparison is of the first `n` bits, where it is defined. -/
theorem compare_answers (hFamily : a.isIp4Addr = b.isIp4Addr) {n : Int} (hDefined : a.Defined n) :
    Answers (a.compare host b n) (Same host a b n) := by
  cases a with
  | ip4 x =>
    cases b with
    | ip6 y => cases hFamily
    | ip4 y =>
      obtain ⟨hPos, hLe⟩ := hDefined rfl
      obtain ⟨length, rfl⟩ := Int.eq_ofNat_of_zero_le (by omega : 0 ≤ n)
      rw [compare, mask_eq (by omega) (by omega)]
      refine ⟨_, rfl, ?_⟩
      rw [decide_eq_true_iff, and_mask_eq_iff x y (by omega)]
      exact Iff.rfl
  | ip6 x =>
    cases b with
    | ip4 y => cases hFamily
    | ip6 y =>
      refine ⟨_, rfl, ?_⟩
      rw [Bool.and_eq_true, decide_eq_true_iff, decide_eq_true_iff, getIp6Addr_inj,
        ofWords_getIp6Addr]
      exact (reverseIp6Addr_inj x y).trans (IpAddr.ip6.injEq x y).symm.to_iff

/-- Elsewhere a shift is by too many bits, or by a negative number. -/
theorem compare_eq_none {n : Int} (h : ¬ a.Defined n) : a.compare host b n = none := by
  cases a with
  | ip6 x => exact absurd nofun h
  | ip4 x =>
    cases b with
    | ip6 y => rfl
    | ip4 y =>
      rw [compare, mask_eq_none fun hRange => h fun _ => hRange]
      rfl

-- ---------------------------------------------------------------------------
-- Match
-- ---------------------------------------------------------------------------

/-- The text is this address, of the family of `a`. -/
def Valid (inet : Inet) (a : IpAddr) (text : Str) (b : IpAddr) : Prop :=
  0 ∉ text ∧ inet.read a.isIp4Addr text = some b

/-- The call says whether the text is an address that agrees with `a` on the first bits. -/
def Right (inet : Inet) (host : Host) (a : IpAddr) (text : Str) (length : Nat)
    (result : Option Bool) : Prop :=
  Answers result (∃ b, Valid inet a text b ∧ AgreeOn host length a b)

/-- The family of the result is the one that was asked for, whatever the text is. -/
theorem parse_isIp4Addr (ip4Addr : Bool) (s : Str) :
    (parse inet ip4Addr s).isIp4Addr = ip4Addr := by
  cases ip4Addr with
  | true =>
    unfold parse
    rw [if_pos rfl]
    split <;> rfl
  | false =>
    unfold parse
    rw [if_neg Bool.false_ne_true]
    split <;> rfl

theorem cStr_of_not_mem {s : Str} (h : 0 ∉ s) : cStr s = s := by
  refine List.takeWhile_eq_self_iff.mpr fun c hc => ?_
  exact decide_eq_true fun hZero => h (hZero ▸ hc)

theorem Valid.parse_eq (h : Valid inet a text b) : parse inet a.isIp4Addr text = b := by
  obtain ⟨hZero, hRead⟩ := h
  unfold Inet.read at hRead
  unfold parse
  rw [cStr_of_not_mem hZero]
  cases hFamily : a.isIp4Addr with
  | true =>
    rw [hFamily, if_pos rfl] at hRead
    obtain ⟨x, hx, rfl⟩ := Option.map_eq_some_iff.mp hRead
    rw [if_pos rfl, hx]
  | false =>
    rw [hFamily, if_neg Bool.false_ne_true] at hRead
    obtain ⟨x, hx, rfl⟩ := Option.map_eq_some_iff.mp hRead
    rw [if_neg Bool.false_ne_true, hx]

/-- When a call is right that hands `addr` to `inet_pton` and compares so many bits as `seen` says.
Nothing goes wrong with an IPv4 address and a length that is not zero. The rest of an IPv6 address
must not differ where the first bits agree. What is read from a text that is no address must not
look like `a`. -/
structure MatchesRight (inet : Inet) (host : Host) (a : IpAddr) (text : Str) (length : Nat)
    (addr : Str) (seen : Option Int) : Prop where
  defined : ∃ n, seen = some n ∧ a.Defined n
  valid : a.isIp4Addr = false → ∀ b, Valid inet a text b → AgreeOn host length a b → a = b
  invalid : (∀ b, ¬ Valid inet a text b) →
    ∀ n, seen = some n → ¬ Same host a (parse inet a.isIp4Addr addr) n

/-- The common part of both forms of `Match`: `addr` and `seen` are what it has read. -/
theorem right_iff (seen : Option Int)
    (hRead : ∀ b, Valid inet a text b → addr = text ∧ seen = some (length : Int)) :
    Right inet host a text length (seen.bind fun n => a.matchLength inet host addr n) ↔
      MatchesRight inet host a text length addr seen := by
  have hCompare : ∀ n, a.Defined n →
      Answers (a.matchLength inet host addr n) (Same host a (parse inet a.isIp4Addr addr) n) :=
    fun n hDefined => compare_answers host (parse_isIp4Addr _ _).symm hDefined
  constructor
  · intro hRight
    -- an answer needs a prefix for which the shift is defined
    obtain ⟨n, rfl, hDefined⟩ : ∃ n, seen = some n ∧ a.Defined n := by
      obtain ⟨r, hResult, -⟩ := hRight
      obtain ⟨n, hn, hMatch⟩ := Option.bind_eq_some_iff.mp hResult
      refine ⟨n, hn, ?_⟩
      by_contra hUndefined
      rw [matchLength, compare_eq_none hUndefined] at hMatch
      cases hMatch
    have hSame := (hCompare n hDefined).iff hRight
    refine ⟨⟨n, rfl, hDefined⟩, ?_, ?_⟩
    · intro hFamily b hValid hAgree
      obtain ⟨rfl, -⟩ := hRead b hValid
      rw [hValid.parse_eq] at hSame
      have hEq := hSame.mpr ⟨b, hValid, hAgree⟩
      rw [Same, hFamily] at hEq
      exact hEq
    · rintro hInvalid m ⟨⟩ hLooks
      obtain ⟨b, hValid, -⟩ := hSame.mp hLooks
      exact hInvalid b hValid
  · rintro ⟨⟨n, rfl, hDefined⟩, hValid, hInvalid⟩
    refine (hCompare n hDefined).congr ?_
    -- the text is an address of this family, or it is not
    by_cases hText : ∃ b, Valid inet a text b
    · obtain ⟨b, hb⟩ := hText
      obtain ⟨rfl, hLength⟩ := hRead b hb
      cases hLength
      have hAgree : Same host a b length ↔ AgreeOn host length a b := by
        cases hFamily : a.isIp4Addr with
        | true => rw [Same, hFamily, if_pos rfl, Int.toNat_natCast]
        | false =>
          rw [Same, hFamily, if_neg Bool.false_ne_true]
          exact ⟨fun hEq i _ => hEq ▸ rfl, hValid hFamily b hb⟩
      rw [hb.parse_eq, hAgree]
      refine ⟨fun hSame => ⟨b, hb, hSame⟩, ?_⟩
      rintro ⟨b', hb', hSame⟩
      obtain rfl : b' = b := hb'.parse_eq.symm.trans hb.parse_eq
      exact hSame
    · have hNone : ∀ b, ¬ Valid inet a text b := fun b hb => hText ⟨b, hb⟩
      exact iff_of_false (hInvalid hNone n rfl) fun ⟨b, hb, _⟩ => hNone b hb

-- ---------------------------------------------------------------------------
-- "text/prefix"
-- ---------------------------------------------------------------------------

/-- A prefix length is read back as it was written. -/
theorem atoi_decimal (hLength : length ≤ 128) : atoi (digits length) = some (length : Int) := by
  have hAll : ∀ n < 129, atoi (digits n) = some (n : Int) := by decide +kernel
  exact hAll length (by omega)

/-- `addr/length` comes apart at its only slash. -/
theorem split_text (ip4Addr : Bool) (hNonempty : text ≠ []) (hSlash : slash ∉ text)
    (hLength : length ≤ 128) :
    split ip4Addr (text ++ slash :: digits length) = (text, some (length : Int)) := by
  have hFind : (text ++ slash :: digits length).findIdx? (· = slash) = some text.length := by
    have hNone : text.findIdx? (· = slash) = none :=
      List.findIdx?_eq_none_iff.mpr fun c hc => decide_eq_false fun hSame => hSlash (hSame ▸ hc)
    rw [List.findIdx?_append, hNone, List.findIdx?_cons, decide_eq_true rfl]
    simp
  have hPos : ¬ text.length < 1 := by
    have := List.length_pos_iff.mpr hNonempty
    omega
  have hDrop : (text ++ slash :: digits length).drop (text.length + 1) = digits length := by
    rw [List.append_cons]
    exact List.drop_left' (by simp)
  rw [split, hFind]
  simp only [hPos, if_false, List.take_left, hDrop, atoi_decimal hLength]

/-- Both `Match`es are right if and only if what is handed to `Compare` makes them so. -/
theorem match_right_iff (hInet : inet.Documented) (hLength : length ≤ a.bits) :
    (Right inet host a text length (a.matchLength inet host text length) ∧
        Right inet host a text length
          (a.matchText inet host (text ++ slash :: digits length))) ↔
      (MatchesRight inet host a text length text (some length) ∧
        MatchesRight inet host a text length
          (split a.isIp4Addr (text ++ slash :: digits length)).1
          (split a.isIp4Addr (text ++ slash :: digits length)).2) := by
  have hBits : length ≤ 128 := by
    cases a with
    | ip4 => exact Nat.le_trans hLength (Nat.le_of_ble_eq_true rfl)
    | ip6 => exact hLength
  refine and_congr (right_iff (some length) fun b _ => ⟨rfl, rfl⟩) (right_iff _ ?_)
  rintro b ⟨-, hRead⟩
  have hNonempty : text ≠ [] := by
    rintro rfl
    rw [hInet.nonempty] at hRead
    cases hRead
  rw [split_text _ hNonempty (hInet.noSlash _ _ _ hRead) hBits]
  exact ⟨rfl, rfl⟩

end IpAddr

-- ---------------------------------------------------------------------------
-- Examples
-- ---------------------------------------------------------------------------

/-- It knows `10.0.0.0` and `::`, on a little-endian host. -/
def twoAddresses : Inet where
  pton4 s := if s = [49, 48, 46, 48, 46, 48, 46, 48] then some 0x0000000a#32 else none
  pton6 s := if s = [58, 58] then some fun _ => 0 else none

theorem twoAddresses_documented : twoAddresses.Documented := by
  constructor
  · intro ip4Addr
    cases ip4Addr <;> rfl
  · intro ip4Addr s b hRead
    cases ip4Addr with
    | true =>
      obtain ⟨x, hx, -⟩ := Option.map_eq_some_iff.mp hRead
      obtain ⟨rfl, -⟩ := Option.ite_none_right_eq_some.mp hx
      decide
    | false =>
      obtain ⟨x, hx, -⟩ := Option.map_eq_some_iff.mp hRead
      obtain ⟨rfl, -⟩ := Option.ite_none_right_eq_some.mp hx
      decide

/-- `10.0.0.1` within `10.0.0.0/24` -/
theorem match_right_iff_ten :
    twoAddresses.Documented ∧
      ((IpAddr.Right twoAddresses .little (.ip4 0x0100000a#32) [49, 48, 46, 48, 46, 48, 46, 48] 24
            (IpAddr.matchLength twoAddresses .little (.ip4 0x0100000a#32)
              [49, 48, 46, 48, 46, 48, 46, 48] (24 : Nat)) ∧
          IpAddr.Right twoAddresses .little (.ip4 0x0100000a#32) [49, 48, 46, 48, 46, 48, 46, 48] 24
            (IpAddr.matchText twoAddresses .little (.ip4 0x0100000a#32)
              ([49, 48, 46, 48, 46, 48, 46, 48] ++ slash :: digits 24))) ↔
        (IpAddr.MatchesRight twoAddresses .little (.ip4 0x0100000a#32)
            [49, 48, 46, 48, 46, 48, 46, 48] 24 [49, 48, 46, 48, 46, 48, 46, 48] (some (24 : Nat)) ∧
          IpAddr.MatchesRight twoAddresses .little (.ip4 0x0100000a#32)
            [49, 48, 46, 48, 46, 48, 46, 48] 24
            (IpAddr.split true ([49, 48, 46, 48, 46, 48, 46, 48] ++ slash :: digits 24)).1
            (IpAddr.split true ([49, 48, 46, 48, 46, 48, 46, 48] ++ slash :: digits 24)).2)) :=
  ⟨twoAddresses_documented, IpAddr.match_right_iff twoAddresses_documented (by decide)⟩

/-- `::1` -/
def loopback : IpAddr := .ip6 fun i => if i = 15 then 1 else 0

/-- `::1` does not match `::` with the length 64, and `0.0.0.0` matches the text `x`. -/
theorem match_wrong :
    (loopback.matchLength twoAddresses .little [58, 58] 64 = some false ∧
      ¬ IpAddr.Right twoAddresses .little loopback [58, 58] 64
        (loopback.matchLength twoAddresses .little [58, 58] 64)) ∧
    (IpAddr.matchLength twoAddresses .little (.ip4 0) [120] 24 = some true ∧
      ¬ IpAddr.Right twoAddresses .little (.ip4 0) [120] 24
        (IpAddr.matchLength twoAddresses .little (.ip4 0) [120] 24)) := by
  have hFalse : loopback.matchLength twoAddresses .little [58, 58] 64 = some false := by decide
  have hTrue : IpAddr.matchLength twoAddresses .little (.ip4 0) [120] 24 = some true := by decide
  refine ⟨⟨hFalse, ?_⟩, hTrue, ?_⟩
  · rintro ⟨b, hResult, hb⟩
    cases hFalse.symm.trans hResult
    have hAgree : IpAddr.AgreeOn .little 64 loopback (.ip6 fun _ => 0) := by
      unfold IpAddr.AgreeOn
      decide
    exact Bool.false_ne_true (hb.mpr ⟨_, ⟨by decide, rfl⟩, hAgree⟩)
  · rintro ⟨b, hResult, hb⟩
    cases hTrue.symm.trans hResult
    obtain ⟨b, ⟨-, hRead⟩, -⟩ := hb.mp rfl
    cases hRead

end HectorCore.Addr
