import Mathlib.Algebra.Group.Int.Defs
import Mathlib.Algebra.Group.Nat.Defs
import Mathlib.Data.List.Basic

/-!
# CText — numbers and text as C has them

The conversion to `int` with its wrap-around, the classes of characters, and decimal numbers in
texts.

* `bmod_eq_self_iff`                — a number that fits into a signed integer with `m` values;
* `toInt32_eq_self`, `toInt32_le`   — what `int` makes of a number that is not negative;
* `toInt32_congr`, `toInt32_emod`   — it depends on the number modulo `2 ^ 32`, and keeps that;
* `decimal_digits`                  — a number that is written and read again.
-/

namespace HectorCore.Lib

-- ---------------------------------------------------------------------------
-- int
-- ---------------------------------------------------------------------------

/-- Conversion to `int`. -/
def toInt32 (n : Int) : Int := Int.bmod n (2 ^ 32)

/-- A number is its own representative if it lies in the lower half. -/
theorem bmod_eq_self_iff {x : Int} {m : Nat} (hPos : 0 < m) (hLow : -(m : Int) ≤ x * 2) :
    Int.bmod x m = x ↔ x * 2 < m := by
  constructor
  · intro hSame
    have hLess := Int.bmod_lt (x := x) hPos
    omega
  · exact Int.bmod_eq_of_le_mul_two hLow

/-- An `int` holds a number from 0 on if it is below 2^31. -/
theorem toInt32_eq_self_iff {x : Int} (h : 0 ≤ x) : toInt32 x = x ↔ x < 2 ^ 31 := by
  rw [toInt32, bmod_eq_self_iff (by decide) (by omega)]
  omega

theorem toInt32_eq_self {x : Int} (h : 0 ≤ x) (hLt : x < 2 ^ 31) : toInt32 x = x :=
  (toInt32_eq_self_iff h).mpr hLt

/-- The same for a length. -/
theorem toInt32_natCast_iff (n : Nat) : toInt32 n = n ↔ n < 2 ^ 31 := by
  rw [toInt32_eq_self_iff (Int.natCast_nonneg n)]
  omega

theorem toInt32_of_lt {n : Nat} (h : n < 2 ^ 31) : toInt32 n = n :=
  toInt32_eq_self (Int.natCast_nonneg n) (by omega)

theorem toInt32_lt (n : Int) : toInt32 n < 2 ^ 31 := by
  have := Int.bmod_lt (x := n) (m := 2 ^ 32) (by decide)
  unfold toInt32
  omega

/-- Cutting down makes nothing larger. -/
theorem toInt32_le_self {x : Int} (h : 0 ≤ x) : toInt32 x ≤ x := by
  unfold toInt32
  rw [Int.bmod_eq_emod]
  split
  · omega
  · omega

theorem toInt32_le (n : Nat) : toInt32 n ≤ n := toInt32_le_self (Int.natCast_nonneg n)

/-- Only the lower 32 bits count. -/
theorem toInt32_congr {x y : Int} (h : x % 2 ^ 32 = y % 2 ^ 32) : toInt32 x = toInt32 y := by
  unfold toInt32
  rw [← Int.emod_bmod x, ← Int.emod_bmod y]
  exact congrArg (fun z => Int.bmod z (2 ^ 32)) h

theorem toInt32_emod (x : Int) : toInt32 x % 2 ^ 32 = x % 2 ^ 32 := by
  have h := Int.bmod_emod (x := x) (m := 2 ^ 32)
  exact h

/-- It may be cut down at any time: before an addition, or behind it. -/
theorem toInt32_add (a b : Int) : toInt32 (toInt32 a + b) = toInt32 (a + b) := Int.bmod_add_bmod

theorem toInt32_sub (a b : Int) : toInt32 (toInt32 a - b) = toInt32 (a - b) := Int.bmod_sub_bmod

/-- A difference of two counts is exact up to a multiple of `2 ^ 32`. -/
theorem toInt32_sub_emod (x y : Int) :
    toInt32 (toInt32 x - toInt32 y) % 2 ^ 32 = (x - y) % 2 ^ 32 := by
  rw [toInt32_emod, Int.sub_emod, toInt32_emod, toInt32_emod, ← Int.sub_emod]

-- ---------------------------------------------------------------------------
-- Characters
-- ---------------------------------------------------------------------------

/-- `isspace` -/
def isSpace (c : UInt8) : Bool := c = 32 || (9 ≤ c && c ≤ 13)

/-- `isdigit` -/
def isDigit (c : UInt8) : Bool := 48 ≤ c && c ≤ 57

/-- `c_str()`, as far as C goes. -/
def cStr (s : List UInt8) : List UInt8 := s.takeWhile (· ≠ 0)

theorem not_isSpace_of_isDigit {c : UInt8} (h : isDigit c = true) : isSpace c = false := by
  simp only [isDigit, Bool.and_eq_true, decide_eq_true_eq, UInt8.le_iff_toNat_le] at h
  by_contra hSpace
  simp only [isSpace, Bool.not_eq_false, Bool.or_eq_true, Bool.and_eq_true, decide_eq_true_eq,
    UInt8.le_iff_toNat_le] at hSpace
  rcases hSpace with rfl | hSpace
  · exact absurd h (by decide)
  · have hLow : (48 : UInt8).toNat = 48 := rfl
    have hHigh : (13 : UInt8).toNat = 13 := rfl
    omega

/-- The first character that is not skipped ends the skipping. -/
theorem dropWhile_stop {p : UInt8 → Bool} {s t : List UInt8} {c : UInt8} (hc : p c = false) :
    (s ++ c :: t).dropWhile p = s.dropWhile p ++ c :: t := by
  rw [List.dropWhile_append]
  split
  · rename_i hEmpty
    rw [List.isEmpty_iff.mp hEmpty, List.dropWhile_cons_of_neg (by simp [hc])]
    rfl
  · rfl

theorem takeWhile_stop {p : UInt8 → Bool} {s t : List UInt8} {c : UInt8} (hc : p c = false) :
    (s ++ c :: t).takeWhile p = s.takeWhile p := by
  rw [List.takeWhile_append]
  split
  · rename_i hAll
    rw [List.takeWhile_cons_of_neg (by simp [hc]), List.append_nil]
    exact (List.IsPrefix.eq_of_length (List.takeWhile_prefix p) hAll).symm
  · rfl

-- ---------------------------------------------------------------------------
-- Decimal numbers
-- ---------------------------------------------------------------------------

/-- `%u` and `%llu`: the digits of a number. -/
def digits (n : Nat) : List UInt8 := (Nat.toDigits 10 n).map fun c => UInt8.ofNat c.toNat

/-- `%d` -/
def printInt (n : Int) : List UInt8 :=
  if n < 0 then 45 :: digits n.natAbs else digits n.natAbs

/-- The number that digits stand for. -/
def decimal (digits : List UInt8) : Nat := digits.foldl (fun n c => 10 * n + (c.toNat - 48)) 0

theorem digits_ne_nil (n : Nat) : digits n ≠ [] := by
  unfold digits
  rw [ne_eq, List.map_eq_nil_iff]
  exact Nat.toDigits_ne_nil

/-- What is printed of a number are digits. -/
theorem isDigit_digits {n : Nat} {c : UInt8} (h : c ∈ digits n) : isDigit c = true := by
  obtain ⟨d, hd, rfl⟩ := List.mem_map.mp h
  have hDigit : 48 ≤ d.toNat ∧ d.toNat ≤ 57 :=
    Char.isDigit_iff_toNat.mp (Nat.isDigit_of_mem_toDigits (by decide) (by decide) hd)
  have hByte : (UInt8.ofNat d.toNat).toNat = d.toNat := by
    rw [UInt8.toNat_ofNat']
    omega
  simp only [isDigit, Bool.and_eq_true, decide_eq_true_eq, UInt8.le_iff_toNat_le, hByte]
  exact hDigit

/-- They are as few as the number is small. -/
theorem length_digits_le {n k : Nat} (hPos : 0 < k) (h : n < 10 ^ k) : (digits n).length ≤ k := by
  unfold digits
  rw [List.length_map, Nat.length_toDigits_le_iff (by decide) hPos]
  exact h

/-- What was printed is read back. -/
theorem decimal_digits (n : Nat) : decimal (digits n) = n := by
  have hDigit : ∀ c ∈ Nat.toDigits 10 n, (UInt8.ofNat c.toNat).toNat - 48 =
    c.toNat - '0'.toNat := by
    intro c hc
    have hRange : 48 ≤ c.toNat ∧ c.toNat ≤ 57 :=
      Char.isDigit_iff_toNat.mp (Nat.isDigit_of_mem_toDigits (by decide) (by decide) hc)
    rw [UInt8.toNat_ofNat', Nat.mod_eq_of_lt (by omega)]
    rfl
  have hChars : decimal (digits n) = Nat.ofDigitChars 10 (Nat.toDigits 10 n) 0 := by
    unfold decimal digits Nat.ofDigitChars
    rw [List.foldl_map]
    exact List.foldl_ext _ _ _ fun acc c hc => by rw [hDigit c hc]
  rw [hChars, Nat.ofDigitChars_ten_toDigits]

end HectorCore.Lib
