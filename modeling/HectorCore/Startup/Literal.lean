import HectorCore.Startup.SubstituteArgs

/-!
# Literal — any text in the config

A backslash in front of each backslash and each dollar sign makes a text stand for itself. The
texts around a parameter do not change what the parameter is, and the argument in its place is
not looked into.

Main result: `escape_literal_iff`, for everything that the `unsigned` index of the scan can
count.
-/

namespace HectorCore.Startup

open Lib (isDigit digits isDigit_digits decimal_digits)

/-- A backslash in front of each backslash and each dollar sign. -/
def escape (s : Str) : Str :=
  s.flatMap fun c => if c = backslash ∨ c = dollar then [backslash, c] else [c]

/-- `$N` -/
def parameter (n : Nat) : Str := dollar :: digits n

/-- The call comes back with true and this string. -/
def Config.Gives (config : Config) (s : Str) (lineno : Int) (result : Str) : Prop :=
  ∃ stderr, config.Yields s lineno (.returned true result stderr)

/-- The token that stands for the byte `c`. -/
def Token.literal (c : UInt8) : Token :=
  if c = backslash ∨ c = dollar then .escaped c else .plain c

variable {config : Config}

-- ---------------------------------------------------------------------------
-- Tokens
-- ---------------------------------------------------------------------------

/-- Escaped text is taken apart byte by byte, whatever follows. -/
theorem tokens_escape_append (s u : Str) :
    tokens (escape s ++ u) = s.map Token.literal ++ tokens u := by
  induction s with
  | nil => rfl
  | cons c s ih =>
    unfold escape at ih ⊢
    rw [List.flatMap_cons, List.map_cons, List.append_assoc]
    by_cases hc : c = backslash ∨ c = dollar
    · rw [if_pos hc, Token.literal, if_pos hc]
      show tokens (backslash :: c :: (_ ++ u)) = _
      rw [tokens_escaped, ih]
      rfl
    · rw [if_neg hc, Token.literal, if_neg hc]
      obtain ⟨hEscape, hDollar⟩ := not_or.mp hc
      show tokens (c :: (_ ++ u)) = _
      rw [tokens_plain _ hEscape hDollar, ih]
      rfl

theorem tokens_escape (s : Str) : tokens (escape s) = s.map Token.literal := by
  have hTokens := tokens_escape_append s []
  rwa [List.append_nil, tokens_nil, List.append_nil] at hTokens

theorem digits?_literal (c : UInt8) : (Token.literal c).digits? = none := by
  unfold Token.literal
  split
  · rfl
  · rfl

theorem text_literal (c : UInt8) : config.text (Token.literal c) = [c] := by
  unfold Token.literal
  split
  · rfl
  · rfl

/-- Escaped text asks for no argument, -/
theorem numbers_literal (s : Str) : (s.map Token.literal).filterMap Token.digits? = [] := by
  induction s with
  | nil => rfl
  | cons c s ih => rw [List.map_cons, List.filterMap_cons_none (digits?_literal c), ih]

/-- and stands for itself. -/
theorem text_literals (s : Str) : (s.map Token.literal).flatMap config.text = s := by
  induction s with
  | nil => rfl
  | cons c s ih => rw [List.map_cons, List.flatMap_cons, text_literal, ih, List.singleton_append]

-- ---------------------------------------------------------------------------
-- The result
-- ---------------------------------------------------------------------------

/-- A string whose numbers are those of arguments is expanded, unless it is too long. -/
theorem gives_iff (config : Config) (s : Str) (lineno : Int)
    (hNames : ∀ digits ∈ numbers s, config.Names digits) :
    config.Gives s lineno ((tokens s).flatMap config.text) ↔ s.length < unsignedSize := by
  constructor
  · rintro ⟨stderr, fuel, hFuel⟩
    by_contra hSize
    exact scan_ne_true (by omega) fuel 0 false [] lineno (by decide) hFuel
  · intro hSize
    obtain ⟨outcome, hYields, hQuiet⟩ := config.yields_expand lineno hSize
    rw [expand_of_names (tokens s) [] hNames] at hQuiet
    cases outcome with
    | outOfRange => cases hQuiet
    | returned result s' stderr =>
      cases hQuiet
      exact ⟨stderr, hYields⟩

theorem value_digits (n : Nat) : value (digits n) = n := by
  conv_rhs => rw [← decimal_digits n]
  unfold value Lib.decimal
  congr 1
  funext m c
  rw [Nat.mul_comm]

/-- The number ends where the text behind it begins. -/
theorem tokens_parameter_append {n : Nat} {u : Str}
    (hu : ∀ c, u.head? = some c → isDigit c = false) :
    tokens (parameter n ++ u) = .parameter (digits n) :: tokens u := by
  show tokens (dollar :: (digits n ++ u)) = _
  have hAll : ∀ c ∈ digits n, isDigit c = true := fun c hc => isDigit_digits hc
  rw [tokens_dollar, List.takeWhile_append_of_pos hAll, List.dropWhile_append_of_pos hAll]
  cases u with
  | nil => rw [List.takeWhile_nil, List.dropWhile_nil, List.append_nil]
  | cons c u =>
    have hc : ¬ isDigit c = true := Bool.eq_false_iff.mp (hu c rfl)
    rw [List.takeWhile_cons_of_neg hc, List.dropWhile_cons_of_neg hc, List.append_nil]

/-- The escaped text begins with a digit only if the text does. -/
theorem head?_escape {t : Str} (ht : ∀ c, t.head? = some c → isDigit c = false) :
    ∀ c, (escape t).head? = some c → isDigit c = false := by
  intro c hc
  cases t with
  | nil => cases hc
  | cons d t =>
    unfold escape at hc
    rw [List.flatMap_cons] at hc
    by_cases hd : d = backslash ∨ d = dollar
    · rw [if_pos hd] at hc
      obtain rfl : backslash = c := Option.some.inj hc
      rfl
    · rw [if_neg hd] at hc
      obtain rfl : d = c := Option.some.inj hc
      exact ht d rfl

/-- **An escaped text stands for itself**, alone and around a parameter, if and only if the
`unsigned` index of the scan comes to its end. -/
theorem escape_literal_iff (config : Config) (s : Str) (lineno : Int) :
    (config.Gives (escape s) lineno s ↔ (escape s).length < unsignedSize) ∧
      ∀ (t : Str) (n : Nat), (∀ c, t.head? = some c → isDigit c = false) →
        ∀ hArg : 1 ≤ n ∧ n ≤ config.args.length,
          (config.Gives (escape s ++ parameter n ++ escape t) lineno
              (s ++ config.args.get ⟨n - 1, by omega⟩ ++ t) ↔
            (escape s ++ parameter n ++ escape t).length < unsignedSize) := by
  constructor
  · have hNumbers : numbers (escape s) = [] := by rw [numbers, tokens_escape, numbers_literal]
    have hGives := gives_iff config (escape s) lineno (by simp [hNumbers])
    rwa [tokens_escape, text_literals] at hGives
  · intro t n ht hArg
    have hTokens : tokens (escape s ++ parameter n ++ escape t) =
        s.map Token.literal ++ .parameter (digits n) :: t.map Token.literal := by
      rw [List.append_assoc, tokens_escape_append, tokens_parameter_append (head?_escape ht),
        tokens_escape]
    have hNumbers : numbers (escape s ++ parameter n ++ escape t) = [digits n] := by
      rw [numbers, hTokens, List.filterMap_append, numbers_literal, List.nil_append]
      show digits n :: (t.map Token.literal).filterMap Token.digits? = _
      rw [numbers_literal]
    have hNames : config.Names (digits n) := by
      unfold Config.Names
      rwa [value_digits]
    have hText : config.text (.parameter (digits n)) = config.args.get ⟨n - 1, by omega⟩ := by
      rw [Config.text, value_digits, List.getD_eq_getElem?_getD,
        List.getElem?_eq_getElem (by omega)]
      rfl
    have hGives := gives_iff config (escape s ++ parameter n ++ escape t) lineno
      (by rw [hNumbers]; simpa using hNames)
    rwa [hTokens, List.flatMap_append, List.flatMap_cons, text_literals, text_literals, hText,
      ← List.append_assoc] at hGives

/-- `"a$"` and `"b\\"` around `$1`. -/
theorem escape_literal_around :
    oneArg.Gives (escape [97, 36] ++ parameter 1 ++ escape [98, 92]) 1 [97, 36, 120, 98, 92] := by
  have hGives := ((escape_literal_iff oneArg [97, 36] 1).2 [98, 92] 1
    (by intro c hc; obtain rfl : 98 = c := Option.some.inj hc; rfl) (by decide)).mpr (by decide)
  exact hGives

/-- A text of `2 ^ 32` bytes is never given back. -/
theorem escape_literal_endless :
    ¬ oneArg.Gives (escape (List.replicate unsignedSize 97)) 1
      (List.replicate unsignedSize 97) := by
  rintro ⟨stderr, fuel, hFuel⟩
  refine scan_ne_true ?_ fuel 0 false [] 1 (by decide) hFuel
  have hPlain : ∀ n, escape (List.replicate n 97) = List.replicate n 97 := by
    intro n
    induction n with
    | zero => rfl
    | succ n ih =>
      rw [List.replicate_succ]
      exact congrArg (List.cons 97) ih
  rw [hPlain, List.length_replicate]

end HectorCore.Startup
