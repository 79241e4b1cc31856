import HectorCore.Lib.CText
import Mathlib.Data.List.Basic
import Mathlib.Data.Int.ModEq

/-!
# SubstituteArgs — the arguments of the server in its config

`Config::SubstituteArgs` replaces `$N` in a value of the config file by the argument `N` of the
command line. It scans the string with an `unsigned` index that the scan of the number moves
forward and one back, and collects the number in an `int`.

* A string is a list of bytes. `unsigned` is a number below `2 ^ 32`, `int` is cut down by
  `toInt32` wherever the source computes with it.
* The loops have fuel: the index of a string of `2 ^ 32` bytes never comes to its end.
* `tokens` and `documented` are not in the source: what the function is for, in terms of the
  string alone.

Main result: `asDocumented_iff_of_lt`. The digits of a number are added up without a check, so that
`$4294967297` is `$1`. Longer strings are the subject of `Startup/WrapAround.lean`.
-/

namespace HectorCore.Startup

open Lib (toInt32 isDigit)

abbrev Str := List UInt8

/-- `'\\'`, `'$'`, `'\n'` -/
def backslash : UInt8 := 92
def dollar : UInt8 := 36
def newline : UInt8 := 10

/-- The number of values of `unsigned`. -/
def unsignedSize : Nat := 2 ^ 32

/-- `i++` and `i--` -/
def next (i : Nat) : Nat := (i + 1) % unsignedSize
def prev (i : Nat) : Nat := (i + (unsignedSize - 1)) % unsignedSize

/-- The arguments are those of `main`, which counts them with an `int`. -/
structure Config where
  args : List Str
  size_lt : args.length < 2 ^ 31

/-- `"Invalid argument, line %d: %.10s\n"`, `"Parameter %d missing, line %d: %.10s\n"` -/
inductive Message where
  | invalidArgument (lineno : Int) (text : Str)
  | parameterMissing (n lineno : Int) (text : Str)
  deriving DecidableEq, Repr

/-- The result, what `*s` is then, and what was written to `stderr`; or the exception of
`args.at`. -/
inductive Outcome where
  | returned (result : Bool) (s : Str) (stderr : Option Message)
  | outOfRange
  deriving DecidableEq, Repr

/-- What `%.10s` prints of the string, from 8 bytes before the number on. -/
def messageText (s : Str) (start : Nat) : Str :=
  let from_ := if 8 ≤ toInt32 start then (toInt32 start - 8).toNat else 0
  ((s.drop from_).takeWhile (· ≠ 0)).take 10

/-- Collect the number. -/
def collectNumber (s : Str) : Nat → Nat → Int → Option (Nat × Int)
  | 0, _, _ => none
  | fuel + 1, i, n =>
    match s[i]? with
    | none => some (i, n)
    | some c =>
      if isDigit c then
        collectNumber s fuel (next i) (toInt32 (toInt32 (n * 10) + ((c.toNat : Int) - 48)))
      else some (i, n)

/-- `args.at(i)`, where a negative `i` is a large `size_t`. -/
def Config.argAt (config : Config) (i : Int) : Option Str :=
  if 0 ≤ i then config.args[i.toNat]? else none

/-- The loop over the string. -/
def Config.scan (config : Config) (s : Str) : Nat → Nat → Bool → Str → Int → Option Outcome
  | 0, _, _, _, _ => none
  | fuel + 1, i, escape, tmp, lineno =>
    match s[i]? with
    | none => some (.returned true tmp none)
    | some c =>
      if c = backslash then
        if escape then config.scan s fuel (next i) false (tmp ++ [backslash]) lineno
        else config.scan s fuel (next i) true tmp lineno
      else if c = dollar then
        if escape then config.scan s fuel (next i) false (tmp ++ [dollar]) lineno
        else
          match collectNumber s fuel (next i) 0 with
          | none => none
          | some (j, n) =>
            if n = 0 ∨ j = next i then
              some (.returned false s (some (.invalidArgument lineno (messageText s (next i)))))
            else if toInt32 config.args.length < n then
              some (.returned false s (some (.parameterMissing n lineno (messageText s (next i)))))
            else
              match config.argAt (n - 1) with
              | none => some .outOfRange
              | some arg => config.scan s fuel (next (prev j)) false (tmp ++ arg) lineno
      else
        config.scan s fuel (next i) false (tmp ++ [c])
          (if c = newline then toInt32 (lineno + 1) else lineno)

/-- `SubstituteArgs`: the scan from the beginning. -/
def Config.substituteArgs (config : Config) (fuel : Nat) (s : Str) (lineno : Int) :
    Option Outcome := config.scan s fuel 0 false [] lineno

/-- The call comes back with this outcome. -/
def Config.Yields (config : Config) (s : Str) (lineno : Int) (outcome : Outcome) : Prop :=
  ∃ fuel, config.substituteArgs fuel s lineno = some outcome

-- ---------------------------------------------------------------------------
-- What the function is for
-- ---------------------------------------------------------------------------

/-- What a string is made of. -/
inductive Token where
  /-- a character that stands for itself -/
  | plain (c : UInt8)
  /-- a backslash and the character behind it -/
  | escaped (c : UInt8)
  /-- a backslash at the end of the string -/
  | trailing
  /-- a dollar sign and the digits behind it -/
  | parameter (digits : Str)
  deriving DecidableEq, Repr

/-- The string as a sequence of tokens. -/
def tokens : Str → List Token
  | [] => []
  | c :: s =>
    if c = backslash then
      match s with
      | [] => [.trailing]
      | d :: s => .escaped d :: tokens s
    else if c = dollar then .parameter (s.takeWhile isDigit) :: tokens (s.dropWhile isDigit)
    else .plain c :: tokens s
  termination_by s => s.length
  decreasing_by
  · simp only [List.length_cons]
    omega
  · have := (List.dropWhile_suffix (l := s) isDigit).length_le
    simp only [List.length_cons]
    omega
  · simp only [List.length_cons]
    omega

/-- The decimal number that the digits are. -/
def value (digits : Str) : Nat := digits.foldl (fun n c => n * 10 + (c.toNat - 48)) 0

/-- The number of an argument. -/
def Config.Names (config : Config) (digits : Str) : Prop :=
  1 ≤ value digits ∧ value digits ≤ config.args.length

instance (config : Config) (digits : Str) : Decidable (config.Names digits) :=
  inferInstanceAs (Decidable (1 ≤ value digits ∧ value digits ≤ config.args.length))

/-- The digits of a parameter. -/
def Token.digits? : Token → Option Str
  | .parameter digits => some digits
  | _ => none

/-- The digits behind the unescaped dollar signs. -/
def numbers (s : Str) : List Str := (tokens s).filterMap Token.digits?

/-- What a token stands for. -/
def Config.text (config : Config) : Token → Str
  | .plain c => [c]
  | .escaped c => [c]
  | .trailing => []
  | .parameter digits => config.args.getD (value digits - 1) []

/-- The result and the string that the documentation promises. -/
def Config.documented (config : Config) (s : Str) : Bool × Str :=
  if ∀ digits ∈ numbers s, config.Names digits then (true, (tokens s).flatMap config.text)
  else (false, s)

/-- The call comes back and does what is documented. -/
def Config.AsDocumented (config : Config) (s : Str) (lineno : Int) : Prop :=
  ∃ stderr, config.Yields s lineno
    (.returned (config.documented s).1 (config.documented s).2 stderr)

-- ---------------------------------------------------------------------------
-- The number
-- ---------------------------------------------------------------------------

theorem next_of_lt {i : Nat} (h : i + 1 < unsignedSize) : next i = i + 1 := Nat.mod_eq_of_lt h

/-- The index of the loop after a number was read: back and on. -/
theorem next_prev {i : Nat} (h : i < unsignedSize) : next (prev i) = i := by
  unfold next prev
  rw [Nat.mod_add_mod]
  have hSize : i + (unsignedSize - 1) + 1 = i + unsignedSize := by
    unfold unsignedSize
    omega
  rw [hSize, Nat.add_mod_right, Nat.mod_eq_of_lt h]

theorem next_lt (i : Nat) : next i < unsignedSize := Nat.mod_lt _ (by decide)

/-- The digits added up to `m`. -/
def addDigits (m : Nat) (digits : Str) : Nat :=
  digits.foldl (fun n c => n * 10 + (c.toNat - 48)) m

/-- Cutting down each time, or once at the end. -/
theorem toInt32_accumulate {c : UInt8} (hc : isDigit c = true) (m : Nat) :
    toInt32 (toInt32 (toInt32 m * 10) + ((c.toNat : Int) - 48)) =
      toInt32 ((m * 10 + (c.toNat - 48) : Nat) : Int) := by
  simp only [isDigit, Bool.and_eq_true, decide_eq_true_eq, UInt8.le_iff_toNat_le] at hc
  have hLow : 48 ≤ c.toNat := hc.1
  unfold toInt32
  rw [Int.bmod_add_bmod, Int.add_comm, ← Int.add_bmod_bmod, Int.bmod_mul_bmod, Int.add_bmod_bmod]
  congr 1
  omega

theorem dropWhile_eq_drop (s : Str) :
    s.dropWhile isDigit = s.drop (s.takeWhile isDigit).length := by
  induction s with
  | nil => rfl
  | cons c s ih =>
    by_cases hc : isDigit c = true
    · rw [List.dropWhile_cons_of_pos hc, List.takeWhile_cons_of_pos hc, ih]
      rfl
    · rw [List.dropWhile_cons_of_neg hc, List.takeWhile_cons_of_neg hc]
      rfl

/-- The scan of the number stops behind its digits. -/
theorem collectNumber_eq {s : Str} (hSize : s.length < unsignedSize) :
    ∀ (fuel i m : Nat), i ≤ s.length → s.length - i < fuel →
      collectNumber s fuel i (toInt32 m) =
        some (i + ((s.drop i).takeWhile isDigit).length,
          toInt32 (addDigits m ((s.drop i).takeWhile isDigit))) := by
  intro fuel
  induction fuel with
  | zero => exact fun i m hi hFuel => absurd hFuel (Nat.not_lt_zero _)
  | succ fuel ih =>
    intro i m hi hFuel
    unfold collectNumber
    by_cases hEnd : i = s.length
    · subst hEnd
      simp [addDigits]
    · have hLt : i < s.length := by omega
      rw [List.getElem?_eq_getElem hLt, List.drop_eq_getElem_cons hLt]
      by_cases hDigit : isDigit s[i] = true
      · simp only [hDigit, if_true, List.takeWhile_cons_of_pos]
        rw [next_of_lt (by omega), toInt32_accumulate hDigit,
          ih (i + 1) _ (by omega) (by omega)]
        simp only [addDigits, List.foldl_cons, List.length_cons, Option.some.injEq, Prod.mk.injEq,
          and_true]
        omega
      · rw [List.takeWhile_cons_of_neg hDigit]
        simp [hDigit, addDigits]

-- ---------------------------------------------------------------------------
-- The scan, token by token
-- ---------------------------------------------------------------------------

/-- What the source does with a number. -/
inductive Verdict where
  | replaced (arg : Str)
  | refused
  | thrown

/-- What follows from a verdict. -/
def Verdict.fold {β : Type} (refused thrown : β) (replaced : Str → β) : Verdict → β
  | .refused => refused
  | .thrown => thrown
  | .replaced arg => replaced arg

/-- The number as the `int` that it is collected in. -/
def number (digits : Str) : Int := toInt32 (value digits)

/-- The tests in front of `args.at`. -/
def Config.Refuses (config : Config) (digits : Str) : Prop :=
  number digits = 0 ∨ digits = [] ∨ (config.args.length : Int) < number digits

instance (config : Config) (digits : Str) : Decidable (config.Refuses digits) :=
  inferInstanceAs
    (Decidable (number digits = 0 ∨ digits = [] ∨ (config.args.length : Int) < number digits))

/-- The number gets through the tests and names an argument. -/
def Config.Takes (config : Config) (digits : Str) : Prop :=
  1 ≤ number digits ∧ number digits ≤ config.args.length

/-- What becomes of a parameter with these digits. -/
def Config.verdict (config : Config) (digits : Str) : Verdict :=
  if config.Refuses digits then .refused
  else (config.argAt (number digits - 1)).elim .thrown .replaced

/-- The outcome of the scan, without the message. -/
def Config.expand (config : Config) (s : Str) : List Token → Str → Outcome
  | [], tmp => .returned true tmp none
  | .plain c :: ts, tmp => config.expand s ts (tmp ++ [c])
  | .escaped c :: ts, tmp => config.expand s ts (tmp ++ [c])
  | .trailing :: ts, tmp => config.expand s ts tmp
  | .parameter digits :: ts, tmp =>
    (config.verdict digits).fold (.returned false s none) .outOfRange
      fun arg => config.expand s ts (tmp ++ arg)

/-- Without the message. -/
def Outcome.quiet : Outcome → Outcome
  | .returned result s _ => .returned result s none
  | .outOfRange => .outOfRange

theorem Config.toInt32_size (config : Config) :
    toInt32 config.args.length = config.args.length := by
  have := config.size_lt
  exact Int.bmod_eq_of_le_mul_two (by omega) (by omega)

theorem Config.verdict_of_refuses (config : Config) {digits : Str} (h : config.Refuses digits) :
    config.verdict digits = .refused := if_pos h

theorem Config.verdict_of_not_refuses (config : Config) {digits : Str}
    (h : ¬ config.Refuses digits) :
    config.verdict digits = (config.argAt (number digits - 1)).elim .thrown .replaced := if_neg h

theorem tokens_nil : tokens [] = [] := by
  unfold tokens
  rfl

theorem tokens_trailing : tokens [backslash] = [.trailing] := by
  unfold tokens
  rfl

theorem tokens_escaped (c : UInt8) (s : Str) :
    tokens (backslash :: c :: s) = .escaped c :: tokens s := by
  rw [tokens]
  rfl

theorem tokens_dollar (s : Str) :
    tokens (dollar :: s) = .parameter (s.takeWhile isDigit) :: tokens (s.dropWhile isDigit) := by
  conv_lhs => unfold tokens
  rw [if_neg (by decide), if_pos rfl]

theorem tokens_plain {c : UInt8} (s : Str) (hEscape : c ≠ backslash) (hDollar : c ≠ dollar) :
    tokens (c :: s) = .plain c :: tokens s := by
  conv_lhs => unfold tokens
  rw [if_neg hEscape, if_neg hDollar]

section Scan

variable (config : Config) {s : Str} (fuel : Nat) {i : Nat} (tmp : Str) (lineno : Int)

/-- The end of the string. -/
theorem scan_end (h : i = s.length) (escape : Bool) :
    config.scan s (fuel + 1) i escape tmp lineno = some (.returned true tmp none) := by
  unfold Config.scan
  rw [List.getElem?_eq_none (by omega)]

/-- The number of the line behind a character. -/
def lineAfter (c : UInt8) (lineno : Int) : Int :=
  if c = newline then toInt32 (lineno + 1) else lineno

/-- A character that an escape has been read for, whatever it is. -/
theorem scan_escaped {c : UInt8} (hc : s[i]? = some c) :
    config.scan s (fuel + 1) i true tmp lineno =
      config.scan s fuel (next i) false (tmp ++ [c]) (lineAfter c lineno) := by
  rw [Config.scan, hc]
  simp only [if_true]
  by_cases hEscape : c = backslash
  · rw [if_pos hEscape, hEscape]
    rfl
  · rw [if_neg hEscape]
    by_cases hDollar : c = dollar
    · rw [if_pos hDollar, hDollar]
      rfl
    · rw [if_neg hDollar]
      rfl

/-- A backslash. -/
theorem scan_backslash (hc : s[i]? = some backslash) :
    config.scan s (fuel + 1) i false tmp lineno =
      config.scan s fuel (next i) true tmp lineno := by
  rw [Config.scan, hc]
  simp only [if_true, Bool.false_eq_true, if_false]

/-- A character that stands for itself. -/
theorem scan_plain {c : UInt8} (hc : s[i]? = some c) (hEscape : c ≠ backslash)
    (hDollar : c ≠ dollar) :
    config.scan s (fuel + 1) i false tmp lineno =
      config.scan s fuel (next i) false (tmp ++ [c]) (lineAfter c lineno) := by
  rw [Config.scan, hc]
  exact (if_neg hEscape).trans (if_neg hDollar)

/-- An unescaped dollar sign: the verdict on the number that is collected behind it. -/
theorem scan_number (hc : s[i]? = some dollar) {digits : Str} {k : Nat}
    (hScan : collectNumber s fuel (next i) 0 = some (k, number digits))
    (hNone : k = next i ↔ digits = []) (hk : k < unsignedSize) :
    (config.scan s (fuel + 1) i false tmp lineno).map Outcome.quiet =
      (config.verdict digits).fold (some (.returned false s none)) (some .outOfRange) fun arg =>
        (config.scan s fuel k false (tmp ++ arg) lineno).map Outcome.quiet := by
  rw [Config.scan, hc]
  simp only [Bool.false_eq_true, if_false]
  rw [if_neg (show dollar ≠ backslash by decide), if_pos True.intro, hScan]
  simp only [hNone, config.toInt32_size, next_prev hk]
  by_cases hInvalid : number digits = 0 ∨ digits = []
  · rw [if_pos hInvalid, config.verdict_of_refuses (hInvalid.elim .inl fun h => .inr (.inl h))]
    rfl
  · rw [if_neg hInvalid]
    by_cases hMissing : (config.args.length : Int) < number digits
    · rw [if_pos hMissing, config.verdict_of_refuses (.inr (.inr hMissing))]
      rfl
    · have hNot : ¬ config.Refuses digits := by
        rintro (h | h | h)
        · exact hInvalid (.inl h)
        · exact hInvalid (.inr h)
        · exact hMissing h
      rw [if_neg hMissing, config.verdict_of_not_refuses hNot]
      cases config.argAt (number digits - 1) with
      | none => rfl
      | some arg => rfl

/-- A dollar sign and the digits behind it. -/
theorem scan_dollar (hSize : s.length < unsignedSize) (hi : i < s.length)
    (hFuel : s.length - i ≤ fuel) (hc : s[i]? = some dollar) {digits : Str}
    (hDigits : digits = (s.drop (i + 1)).takeWhile isDigit) :
    (config.scan s (fuel + 1) i false tmp lineno).map Outcome.quiet =
      (config.verdict digits).fold (some (.returned false s none)) (some .outOfRange) fun arg =>
        (config.scan s fuel (i + 1 + digits.length) false (tmp ++ arg) lineno).map
          Outcome.quiet := by
  have hLength : digits.length ≤ s.length - (i + 1) := by
    rw [hDigits, ← List.length_drop]
    exact (List.takeWhile_prefix isDigit).length_le
  have hNext : next i = i + 1 := next_of_lt (by omega)
  have hScan : collectNumber s fuel (i + 1) 0 = some (i + 1 + digits.length, number digits) := by
    rw [hDigits]
    exact collectNumber_eq hSize fuel (i + 1) 0 (by omega) (by omega)
  refine scan_number config fuel tmp lineno hc (hNext.symm ▸ hScan) ?_ (by omega)
  rw [hNext, ← List.length_eq_zero_iff]
  omega

/-- The scan does, token by token, what `expand` says. -/
theorem scan_eq (hSize : s.length < unsignedSize) :
    ∀ (fuel i : Nat) (tmp : Str) (lineno : Int), i ≤ s.length → s.length - i < fuel →
      (config.scan s fuel i false tmp lineno).map Outcome.quiet =
        some (config.expand s (tokens (s.drop i)) tmp) := by
  intro fuel
  -- an escaped character takes two turns of the loop
  induction fuel using Nat.strongRecOn with
  | ind fuel ih =>
    intro i tmp lineno hi hFuel
    obtain ⟨fuel, rfl⟩ : ∃ k, fuel = k + 1 := ⟨fuel - 1, by omega⟩
    by_cases hEnd : i = s.length
    · rw [scan_end _ _ _ _ hEnd, hEnd, List.drop_length, tokens_nil]
      rfl
    · have hLt : i < s.length := by omega
      have hc := List.getElem?_eq_getElem hLt
      have hDrop := List.drop_eq_getElem_cons hLt
      have hNext : next i = i + 1 := next_of_lt (by omega)
      by_cases hEscape : s[i] = backslash
      · rw [hEscape] at hc hDrop
        rw [scan_backslash _ _ _ _ hc, hNext, hDrop]
        obtain ⟨fuel, rfl⟩ : ∃ k, fuel = k + 1 := ⟨fuel - 1, by omega⟩
        by_cases hLast : i + 1 = s.length
        · rw [scan_end _ _ _ _ hLast, hLast, List.drop_length, tokens_trailing]
          rfl
        · have hLt' : i + 1 < s.length := by omega
          have hStep := scan_escaped config fuel tmp lineno (List.getElem?_eq_getElem hLt')
          rw [hStep, next_of_lt (by omega), ih fuel (by omega) (i + 1 + 1) _ _
            (by omega) (by omega),
            List.drop_eq_getElem_cons hLt', tokens_escaped]
          rfl
      · by_cases hDollar : s[i] = dollar
        · rw [hDollar] at hc hDrop
          rw [scan_dollar config fuel tmp lineno hSize hLt (by omega) hc rfl, hDrop, tokens_dollar,
            Config.expand]
          have hRest : (s.drop (i + 1)).dropWhile isDigit =
              s.drop (i + 1 + ((s.drop (i + 1)).takeWhile isDigit).length) := by
            rw [dropWhile_eq_drop, List.drop_drop]
          cases config.verdict ((s.drop (i + 1)).takeWhile isDigit) with
          | refused => rfl
          | thrown => rfl
          | replaced arg =>
            have hLength : ((s.drop (i + 1)).takeWhile isDigit).length ≤ s.length - (i + 1) := by
              rw [← List.length_drop]
              exact (List.takeWhile_prefix isDigit).length_le
            rw [hRest]
            exact ih fuel (by omega) _ _ _ (by omega) (by omega)
        · have hStep := scan_plain config fuel tmp lineno hc hEscape hDollar
          rw [hStep, hNext, ih fuel (by omega) (i + 1) _ _ (by omega) (by omega), hDrop,
            tokens_plain _ hEscape hDollar]
          rfl

-- ---------------------------------------------------------------------------
-- More fuel
-- ---------------------------------------------------------------------------

theorem collectNumber_mono : ∀ (fuel i : Nat) (n : Int) (r : Nat × Int),
    collectNumber s fuel i n = some r → collectNumber s (fuel + 1) i n = some r := by
  intro fuel
  induction fuel with
  | zero => exact fun i n r h => absurd h (by simp [collectNumber])
  | succ fuel ih =>
    intro i n r h
    rw [collectNumber] at h ⊢
    cases hc : s[i]? with
    | none =>
      rw [hc] at h
      exact h
    | some c =>
      rw [hc] at h
      simp only at h ⊢
      by_cases hDigit : isDigit c = true
      · rw [if_pos hDigit] at h ⊢
        exact ih _ _ _ h
      · rw [if_neg hDigit] at h ⊢
        exact h

/-- More fuel does not change what the scan returns. -/
theorem scan_mono (outcome : Outcome) :
    ∀ (fuel i : Nat) (escape : Bool) (tmp : Str) (lineno : Int),
      config.scan s fuel i escape tmp lineno = some outcome →
      config.scan s (fuel + 1) i escape tmp lineno = some outcome := by
  intro fuel
  induction fuel with
  | zero => exact fun i escape tmp lineno h => absurd h (by simp [Config.scan])
  | succ fuel ih =>
    intro i escape tmp lineno h
    rw [Config.scan] at h ⊢
    cases hc : s[i]? with
    | none =>
      rw [hc] at h
      exact h
    | some c =>
      rw [hc] at h
      simp only at h ⊢
      by_cases hEscape : c = backslash
      · rw [if_pos hEscape] at h ⊢
        cases escape with
        | true => exact ih _ _ _ _ h
        | false => exact ih _ _ _ _ h
      · rw [if_neg hEscape] at h ⊢
        by_cases hDollar : c = dollar
        · rw [if_pos hDollar] at h ⊢
          cases escape with
          | true => exact ih _ _ _ _ h
          | false =>
            cases hNumber : collectNumber s fuel (next i) 0 with
            | none =>
              rw [hNumber] at h
              exact absurd h (by simp)
            | some r =>
              rw [hNumber] at h
              rw [collectNumber_mono fuel _ _ _ hNumber]
              simp only [Bool.false_eq_true, if_false] at h ⊢
              split at h
              · rwa [if_pos ‹_›]
              · rw [if_neg ‹_›]
                split at h
                · rwa [if_pos ‹_›]
                · rw [if_neg ‹_›]
                  cases hArg : config.argAt (r.2 - 1) with
                  | none =>
                    rw [hArg] at h
                    exact h
                  | some arg =>
                    rw [hArg] at h
                    exact ih _ _ _ _ h
        · rw [if_neg hDollar] at h ⊢
          exact ih _ _ _ _ h

end Scan

theorem Config.scan_fuel_le (config : Config) {s : Str} {fuel fuel' i : Nat} {escape : Bool}
    {tmp : Str} {lineno : Int} {outcome : Outcome}
    (h : config.scan s fuel i escape tmp lineno = some outcome) (hLe : fuel ≤ fuel') :
    config.scan s fuel' i escape tmp lineno = some outcome := by
  induction hLe with
  | refl => exact h
  | step _ ih => exact scan_mono config outcome _ _ _ _ _ ih

/-- A call has one outcome. -/
theorem Config.Yields.unique {config : Config} {s : Str} {lineno : Int} {o o' : Outcome}
    (h : config.Yields s lineno o) (h' : config.Yields s lineno o') : o = o' := by
  obtain ⟨fuel, hFuel⟩ := h
  obtain ⟨fuel', hFuel'⟩ := h'
  have hMax := config.scan_fuel_le hFuel (Nat.le_max_left fuel fuel')
  rw [config.scan_fuel_le hFuel' (Nat.le_max_right fuel fuel')] at hMax
  exact (Option.some.inj hMax).symm

/-- **The call comes back**, with what the tokens of the string give. -/
theorem Config.yields_expand (config : Config) {s : Str} (lineno : Int)
    (hSize : s.length < unsignedSize) :
    ∃ outcome, config.Yields s lineno outcome ∧
      outcome.quiet = config.expand s (tokens s) [] := by
  have hScan := scan_eq config hSize (s.length + 1) 0 [] lineno (Nat.zero_le _) (by omega)
  obtain ⟨outcome, hSome, hQuiet⟩ := Option.map_eq_some_iff.mp hScan
  exact ⟨outcome, ⟨s.length + 1, hSome⟩, hQuiet⟩

/-- The scan does what is documented if and only if its tokens expand so. -/
theorem Config.asDocumented_iff_expand (config : Config) {s : Str} (lineno : Int)
    (hSize : s.length < unsignedSize) :
    config.AsDocumented s lineno ↔
      config.expand s (tokens s) [] =
        .returned (config.documented s).1 (config.documented s).2 none := by
  obtain ⟨outcome, hYields, hQuiet⟩ := config.yields_expand lineno hSize
  constructor
  · rintro ⟨stderr, hDocumented⟩
    rw [← hQuiet, hYields.unique hDocumented]
    rfl
  · intro hExpand
    rw [hExpand] at hQuiet
    cases outcome with
    | outOfRange => cases hQuiet
    | returned result s' stderr =>
      cases hQuiet
      exact ⟨stderr, hYields⟩

-- ---------------------------------------------------------------------------
-- The numbers
-- ---------------------------------------------------------------------------

variable (config : Config)

theorem number_nil : number [] = 0 := by simp [number, value, toInt32]

theorem Config.Names.number_eq {config : Config} {digits : Str} (h : config.Names digits) :
    number digits = value digits := by
  have := config.size_lt
  have hLe : value digits ≤ config.args.length := h.2
  unfold number toInt32
  exact Int.bmod_eq_of_le_mul_two (by omega) (by omega)

/-- The number of an argument gets through. -/
theorem Config.Names.takes {config : Config} {digits : Str} (h : config.Names digits) :
    config.Takes digits := by
  unfold Config.Takes
  rw [h.number_eq]
  exact ⟨by exact_mod_cast h.1, by exact_mod_cast h.2⟩

theorem Config.Takes.not_refuses {config : Config} {digits : Str} (h : config.Takes digits) :
    ¬ config.Refuses digits := by
  have hLow := h.1
  have hHigh := h.2
  rintro (hZero | rfl | hMissing)
  · omega
  · rw [number_nil] at hLow
    omega
  · omega

theorem Config.Takes.exists_arg {config : Config} {digits : Str} (h : config.Takes digits) :
    ∃ arg, config.args[(number digits).toNat - 1]? = some arg ∧
      config.verdict digits = .replaced arg := by
  have hLow := h.1
  have hHigh := h.2
  have hIndex : (number digits - 1).toNat = (number digits).toNat - 1 := by omega
  have hLt : (number digits).toNat - 1 < config.args.length := by omega
  refine ⟨_, List.getElem?_eq_getElem hLt, ?_⟩
  rw [config.verdict_of_not_refuses h.not_refuses, Config.argAt, if_pos (by omega), hIndex,
    List.getElem?_eq_getElem hLt]
  rfl

/-- A parameter that is there is replaced by it. -/
theorem Config.Names.verdict_eq {config : Config} {digits : Str} (h : config.Names digits) :
    config.verdict digits = .replaced (config.text (.parameter digits)) := by
  obtain ⟨arg, hArg, hVerdict⟩ := h.takes.exists_arg
  rw [h.number_eq, Int.toNat_natCast] at hArg
  rw [hVerdict, Config.text, List.getD_eq_getElem?_getD, hArg]
  rfl

/-- What is neither refused nor an argument is a negative number. -/
theorem Config.verdict_thrown {config : Config} {digits : Str} (hTakes : ¬ config.Takes digits)
    (hRefuses : ¬ config.Refuses digits) : config.verdict digits = .thrown := by
  have hNegative : number digits < 0 := by
    unfold Config.Takes at hTakes
    unfold Config.Refuses at hRefuses
    rw [not_or, not_or] at hRefuses
    omega
  rw [config.verdict_of_not_refuses hRefuses, Config.argAt, if_neg (by omega)]
  rfl

/-- The first number that does not get through is refused. -/
def Config.RefusesFirst (numbers : List Str) : Prop :=
  ∃ before digits after, numbers = before ++ digits :: after ∧
    (∀ d ∈ before, config.Takes d) ∧ config.Refuses digits

theorem Config.RefusesFirst.head {digits : Str} (ns : List Str) (h : config.Refuses digits) :
    config.RefusesFirst (digits :: ns) :=
  ⟨[], digits, ns, rfl, fun _ hd => absurd hd List.not_mem_nil, h⟩

theorem Config.RefusesFirst.cons {config : Config} {digits : Str} {ns : List Str}
    (h : config.Takes digits) (hRest : config.RefusesFirst ns) :
    config.RefusesFirst (digits :: ns) := by
  obtain ⟨before, d, after, rfl, hBefore, hd⟩ := hRest
  refine ⟨digits :: before, d, after, rfl, ?_, hd⟩
  intro d' hMem
  rcases List.mem_cons.mp hMem with rfl | hMem
  · exact h
  · exact hBefore d' hMem

theorem Config.RefusesFirst.cases {config : Config} {digits : Str} {ns : List Str}
    (h : config.RefusesFirst (digits :: ns)) :
    config.Refuses digits ∨ config.Takes digits ∧ config.RefusesFirst ns := by
  obtain ⟨before, d, after, hSplit, hBefore, hd⟩ := h
  cases before with
  | nil =>
    obtain ⟨rfl, -⟩ := List.cons.inj hSplit
    exact .inl hd
  | cons d' before =>
    obtain ⟨rfl, rfl⟩ := List.cons.inj hSplit
    exact .inr ⟨hBefore _ List.mem_cons_self, before, d, after, rfl,
      fun d hMem => hBefore d (List.mem_cons_of_mem _ hMem), hd⟩

-- ---------------------------------------------------------------------------
-- As documented
-- ---------------------------------------------------------------------------

variable {config} {s : Str}

/-- If all parameters are there, every token is replaced by its text. -/
theorem expand_of_names : ∀ (ts : List Token) (tmp : Str),
    (∀ digits ∈ ts.filterMap Token.digits?, config.Names digits) →
      config.expand s ts tmp = .returned true (tmp ++ ts.flatMap config.text) none := by
  intro ts
  induction ts with
  | nil =>
    intro tmp _
    rw [List.flatMap_nil, List.append_nil]
    rfl
  | cons t ts ih =>
    intro tmp hNames
    rw [List.flatMap_cons, ← List.append_assoc]
    cases t with
    | plain c => exact ih _ hNames
    | escaped c => exact ih _ hNames
    | trailing =>
      rw [Config.text, List.append_nil]
      exact ih _ hNames
    | parameter digits =>
      rw [Config.expand, (hNames digits List.mem_cons_self).verdict_eq]
      exact ih _ fun d hMem => hNames d (List.mem_cons_of_mem _ hMem)

/-- If one is refused first, the string stays as it is. -/
theorem expand_of_refusesFirst : ∀ (ts : List Token) (tmp : Str),
    config.RefusesFirst (ts.filterMap Token.digits?) →
      config.expand s ts tmp = .returned false s none := by
  intro ts
  induction ts with
  | nil =>
    rintro tmp ⟨before, digits, after, hSplit, -⟩
    exact absurd hSplit (by simp)
  | cons t ts ih =>
    intro tmp hFirst
    cases t with
    | plain c => exact ih _ hFirst
    | escaped c => exact ih _ hFirst
    | trailing => exact ih _ hFirst
    | parameter digits =>
      rw [Config.expand]
      rcases Config.RefusesFirst.cases hFirst with hRefuses | ⟨hTakes, hRest⟩
      · rw [config.verdict_of_refuses hRefuses]
        rfl
      · obtain ⟨arg, -, hVerdict⟩ := hTakes.exists_arg
        rw [hVerdict]
        exact ih _ hRest

/-- The scan returns false for one reason only. -/
theorem refusesFirst_of_expand {s' : Str} : ∀ (ts : List Token) (tmp : Str),
    config.expand s ts tmp = .returned false s' none →
      config.RefusesFirst (ts.filterMap Token.digits?) := by
  intro ts
  induction ts with
  | nil =>
    intro tmp hExpand
    cases hExpand
  | cons t ts ih =>
    intro tmp hExpand
    cases t with
    | plain c => exact ih _ hExpand
    | escaped c => exact ih _ hExpand
    | trailing => exact ih _ hExpand
    | parameter digits =>
      rw [Config.expand] at hExpand
      by_cases hRefuses : config.Refuses digits
      · exact .head config _ hRefuses
      · by_cases hTakes : config.Takes digits
        · obtain ⟨arg, -, hVerdict⟩ := hTakes.exists_arg
          rw [hVerdict] at hExpand
          exact .cons hTakes (ih _ hExpand)
        · rw [Config.verdict_thrown hTakes hRefuses] at hExpand
          cases hExpand

theorem documented_of_names (h : ∀ digits ∈ numbers s, config.Names digits) :
    config.documented s = (true, (tokens s).flatMap config.text) := if_pos h

theorem documented_of_not_names (h : ¬ ∀ digits ∈ numbers s, config.Names digits) :
    config.documented s = (false, s) := if_neg h

/-- The loop over a string of `2 ^ 32` bytes has no end. -/
theorem scan_ne_true (hSize : unsignedSize ≤ s.length) {out : Str} {stderr : Option Message} :
    ∀ (fuel i : Nat) (escape : Bool) (tmp : Str) (lineno : Int), i < unsignedSize →
      config.scan s fuel i escape tmp lineno ≠ some (.returned true out stderr) := by
  intro fuel
  induction fuel with
  | zero => exact fun i escape tmp lineno _ h => absurd h (by simp [Config.scan])
  | succ fuel ih =>
    intro i escape tmp lineno hi h
    have hNext := ih (next i)
    rw [Config.scan, List.getElem?_eq_getElem (show i < s.length by omega)] at h
    simp only at h
    split at h
    · split at h
      · exact hNext _ _ _ (next_lt i) h
      · exact hNext _ _ _ (next_lt i) h
    · split at h
      · split at h
        · exact hNext _ _ _ (next_lt i) h
        · split at h
          · cases h
          · split at h
            · cases h
            · split at h
              · cases h
              · split at h
                · cases h
                · exact ih _ _ _ _ (next_lt _) h
      · exact hNext _ _ _ (next_lt i) h

/-- A string that the index can count. -/
theorem asDocumented_iff_of_lt (config : Config) {s : Str} (lineno : Int)
    (hSize : s.length < unsignedSize) :
    config.AsDocumented s lineno ↔
      (∀ digits ∈ numbers s, config.Names digits) ∨ config.RefusesFirst (numbers s) := by
  rw [config.asDocumented_iff_expand lineno hSize]
  by_cases hNames : ∀ digits ∈ numbers s, config.Names digits
  · rw [documented_of_names hNames]
    exact ⟨fun _ => .inl hNames, fun _ => expand_of_names (tokens s) [] hNames⟩
  · rw [documented_of_not_names hNames]
    constructor
    · exact fun hExpand => .inr (refusesFirst_of_expand (tokens s) [] hExpand)
    · rintro (h | hFirst)
      · exact absurd h hNames
      · exact expand_of_refusesFirst (tokens s) [] hFirst

/-- One argument, `"x"`. -/
def oneArg : Config := ⟨[[120]], by decide⟩

end HectorCore.Startup
