import HectorCore.Startup.SubstituteArgs
import Mathlib.Data.List.TakeWhile

/-!
# WrapAround — strings that the index cannot count

The index of `Config::SubstituteArgs` never comes to the end of a string of `2 ^ 32` bytes or more:
it goes round and round over the first `2 ^ 32` of them. The scan ends at a number that is refused,
or with an exception, or never.

A number may begin in front of the last of these bytes and go on at the first one. It cannot go
round, because the dollar sign is one of them.

Main results: `comesUpon_iff_refused`, `substituteArgs_documented_iff`.
-/

namespace HectorCore.Startup

open Lib (toInt32 isDigit)

/-- What the index comes by from `j` on, counted without end. -/
def Wraps (s : Str) (j : Nat) (u : Str) : Prop :=
  ∀ m < u.length, u[m]? = s[(j + m) % unsignedSize]?

/-- The first number that does not get through is refused, when the first `2 ^ 32` bytes are read
over and over from `j` on; `t` is the token behind it. -/
def Config.ComesUpon (config : Config) (s : Str) (j : Nat) : Prop :=
  ∃ u ts digits t, Wraps s j u ∧ tokens u = ts ++ [.parameter digits, t] ∧
    (∀ d ∈ ts.filterMap Token.digits?, config.Takes d) ∧ config.Refuses digits

-- ---------------------------------------------------------------------------
-- The bytes that the index comes by
-- ---------------------------------------------------------------------------

section Bytes

variable {s u v : Str} {j : Nat} {c : UInt8}

theorem next_mod (j : Nat) : next (j % unsignedSize) = (j + 1) % unsignedSize :=
  Nat.mod_add_mod j _ 1

theorem Wraps.head (h : Wraps s j (c :: u)) : s[j % unsignedSize]? = some c :=
  (h 0 (Nat.succ_pos _)).symm

theorem Wraps.left (h : Wraps s j (u ++ v)) : Wraps s j u := by
  intro m hm
  rw [← h m (by rw [List.length_append]; omega), List.getElem?_append_left hm]

theorem Wraps.append (h : Wraps s j (u ++ v)) : Wraps s (j + u.length) v := by
  intro m hm
  have hAt := h (u.length + m) (by rw [List.length_append]; omega)
  rwa [List.getElem?_append_right (Nat.le_add_right _ _), Nat.add_sub_cancel_left, ← Nat.add_assoc]
    at hAt

theorem Wraps.tail (h : Wraps s j (c :: u)) : Wraps s (j + 1) u := Wraps.append (u := [c]) h

theorem Wraps.cons (hc : s[j % unsignedSize]? = some c) (h : Wraps s (j + 1) u) :
    Wraps s j (c :: u) := by
  intro m hm
  cases m with
  | zero => exact hc.symm
  | succ m =>
    rw [List.getElem?_cons_succ, h m (Nat.lt_of_succ_lt_succ hm), Nat.add_right_comm, Nat.add_assoc]

theorem Wraps.join (h : Wraps s j u) (h' : Wraps s (j + u.length) v) : Wraps s j (u ++ v) := by
  intro m hm
  rw [List.length_append] at hm
  rcases Nat.lt_or_ge m u.length with hLt | hGe
  · rw [List.getElem?_append_left hLt, h m hLt]
  · rw [List.getElem?_append_right hGe, h' (m - u.length) (by omega), Nat.add_assoc,
      Nat.add_sub_cancel' hGe]

/-- Digits in front of something else. -/
theorem takeWhile_digits {digits : Str} (hDigits : ∀ d ∈ digits, isDigit d = true)
    (hStop : ∀ c ∈ u.head?, isDigit c = false) :
    (digits ++ u).takeWhile isDigit = digits ∧ (digits ++ u).dropWhile isDigit = u := by
  have hRest : u.takeWhile isDigit = [] ∧ u.dropWhile isDigit = u := by
    cases u with
    | nil => exact ⟨rfl, rfl⟩
    | cons c u =>
      have hc : ¬ isDigit c = true := by simp [hStop c rfl]
      exact ⟨List.takeWhile_cons_of_neg hc, List.dropWhile_cons_of_neg hc⟩
  rw [List.takeWhile_append_of_pos hDigits, List.dropWhile_append_of_pos hDigits, hRest.1, hRest.2,
    List.append_nil]
  exact ⟨rfl, rfl⟩

theorem tokens_parameter {digits : Str} (hDigits : ∀ d ∈ digits, isDigit d = true)
    (hStop : ∀ c ∈ u.head?, isDigit c = false) :
    tokens (dollar :: (digits ++ u)) = .parameter digits :: tokens u := by
  obtain ⟨hTake, hDrop⟩ := takeWhile_digits hDigits hStop
  rw [tokens_dollar, hTake, hDrop]

theorem tokens_single (c : UInt8) : ∃ t, tokens [c] = [t] := by
  by_cases hEscape : c = backslash
  · exact ⟨.trailing, by rw [hEscape, tokens_trailing]⟩
  · by_cases hDollar : c = dollar
    · refine ⟨.parameter [], ?_⟩
      rw [hDollar, tokens_dollar]
      exact congrArg _ tokens_nil
    · exact ⟨.plain c, by rw [tokens_plain _ hEscape hDollar, tokens_nil]⟩

/-- The bytes behind a sequence of at least two tokens. -/
theorem tokens_cases {x : Token} {ts : List Token} (h : tokens u = x :: ts) (hMore : ts ≠ []) :
    (∃ d v, u = backslash :: d :: v ∧ x = .escaped d ∧ tokens v = ts) ∨
      (∃ digits c v, u = dollar :: (digits ++ c :: v) ∧ x = .parameter digits ∧
        (∀ d ∈ digits, isDigit d = true) ∧ isDigit c = false ∧ tokens (c :: v) = ts) ∨
      ∃ c v, u = c :: v ∧ c ≠ backslash ∧ c ≠ dollar ∧ x = .plain c ∧ tokens v = ts := by
  cases u with
  | nil => exact absurd h (by simp [tokens_nil])
  | cons c u =>
    by_cases hEscape : c = backslash
    · subst hEscape
      cases u with
      | nil =>
        rw [tokens_trailing] at h
        exact absurd (List.cons.inj h).2.symm hMore
      | cons d u =>
        rw [tokens_escaped] at h
        exact .inl ⟨d, u, rfl, (List.cons.inj h).1.symm, (List.cons.inj h).2⟩
    · by_cases hDollar : c = dollar
      · subst hDollar
        rw [tokens_dollar] at h
        obtain ⟨rfl, hRest⟩ := List.cons.inj h
        have hSplit := List.takeWhile_append_dropWhile (p := isDigit) (l := u)
        have hStop := List.head?_dropWhile_not isDigit u
        cases hDrop : u.dropWhile isDigit with
        | nil =>
          rw [hDrop, tokens_nil] at hRest
          exact absurd hRest.symm hMore
        | cons c v =>
          rw [hDrop] at hRest hSplit hStop
          exact .inr (.inl ⟨_, c, v, by rw [hSplit], rfl, fun d hMem => List.mem_takeWhile_imp hMem,
            by simpa using hStop, hRest⟩)
      · rw [tokens_plain _ hEscape hDollar] at h
        exact .inr (.inr ⟨c, u, rfl, hEscape, hDollar, (List.cons.inj h).1.symm,
          (List.cons.inj h).2⟩)

/-- A number does not come back to its dollar sign. -/
theorem length_digits_lt {digits : Str} (hDollar : s[j % unsignedSize]? = some dollar)
    (hDigits : ∀ d ∈ digits, isDigit d = true) (h : Wraps s (j + 1) digits) :
    digits.length < unsignedSize := by
  by_contra hLong
  have hSize : 0 < unsignedSize := Nat.two_pow_pos 32
  have hLast : unsignedSize - 1 < digits.length := by omega
  have hAt := h (unsignedSize - 1) hLast
  rw [show j + 1 + (unsignedSize - 1) = j + unsignedSize by omega, Nat.add_mod_right, hDollar,
    List.getElem?_eq_getElem hLast, Option.some.injEq] at hAt
  have hDigit := hDigits _ (List.getElem_mem hLast)
  rw [hAt] at hDigit
  exact absurd hDigit (by decide)

end Bytes

-- ---------------------------------------------------------------------------
-- The scan
-- ---------------------------------------------------------------------------

section Scan

variable {config : Config} {s u digits : Str} {c : UInt8}

theorem collectNumber_wraps (hStop : isDigit c = false) :
    ∀ (fuel j m : Nat), (∀ d ∈ digits, isDigit d = true) → Wraps s j (digits ++ c :: u) →
      digits.length < fuel →
      collectNumber s fuel (j % unsignedSize) (toInt32 m) =
        some ((j + digits.length) % unsignedSize, toInt32 (addDigits m digits)) := by
  induction digits with
  | nil =>
    intro fuel j m _ hWraps hFuel
    obtain ⟨fuel, rfl⟩ : ∃ k, fuel = k + 1 := ⟨fuel - 1, by omega⟩
    rw [collectNumber, hWraps.head]
    simp [hStop, addDigits]
  | cons d digits ih =>
    intro fuel j m hDigits hWraps hFuel
    obtain ⟨fuel, rfl⟩ : ∃ k, fuel = k + 1 := ⟨fuel - 1, by omega⟩
    have hd : isDigit d = true := hDigits d List.mem_cons_self
    rw [collectNumber, hWraps.head]
    simp only [hd, if_true]
    rw [next_mod, toInt32_accumulate hd, ih fuel (j + 1) _
      (fun d' hMem => hDigits d' (List.mem_cons_of_mem _ hMem)) hWraps.tail (by simpa using hFuel),
      List.length_cons, Nat.add_right_comm, Nat.add_assoc]
    rfl

/-- A number that is collected stands there, with something else behind it. -/
theorem collectNumber_inv (hSize : unsignedSize ≤ s.length) :
    ∀ (fuel j m : Nat) (r : Nat × Int),
      collectNumber s fuel (j % unsignedSize) (toInt32 m) = some r →
      ∃ digits c, (∀ d ∈ digits, isDigit d = true) ∧ isDigit c = false ∧
        Wraps s j (digits ++ [c]) ∧ digits.length < fuel := by
  intro fuel
  induction fuel with
  | zero => exact fun j m r h => absurd h (by simp [collectNumber])
  | succ fuel ih =>
    intro j m r h
    have hLt : j % unsignedSize < s.length :=
      (Nat.mod_lt j (Nat.two_pow_pos 32)).trans_le hSize
    have hc := List.getElem?_eq_getElem hLt
    rw [collectNumber, hc] at h
    generalize s[j % unsignedSize] = c at hc h
    dsimp only at h
    by_cases hDigit : isDigit c = true
    · rw [if_pos hDigit, next_mod, toInt32_accumulate hDigit] at h
      obtain ⟨digits, c', hDigits, hStop, hWraps, hFuel⟩ := ih (j + 1) _ r h
      refine ⟨c :: digits, c', ?_, hStop, .cons hc hWraps, Nat.succ_lt_succ hFuel⟩
      intro d hMem
      rcases List.mem_cons.mp hMem with rfl | hMem
      · exact hDigit
      · exact hDigits d hMem
    · refine ⟨[], c, fun d hMem => absurd hMem List.not_mem_nil, by simpa using hDigit, ?_,
        Nat.succ_pos _⟩
      exact .cons hc fun m hm => absurd hm (Nat.not_lt_zero m)

/-- An unescaped dollar sign, wherever its number goes. -/
theorem scan_dollar_wraps {j fuel : Nat} (tmp : Str) (lineno : Int)
    (hDigits : ∀ d ∈ digits, isDigit d = true) (hStop : isDigit c = false)
    (hWraps : Wraps s j (dollar :: (digits ++ c :: u))) (hFuel : digits.length < fuel) :
    (config.scan s (fuel + 1) (j % unsignedSize) false tmp lineno).map Outcome.quiet =
      (config.verdict digits).fold (some (.returned false s none)) (some .outOfRange) fun arg =>
        (config.scan s fuel ((j + 1 + digits.length) % unsignedSize) false (tmp ++ arg) lineno).map
          Outcome.quiet := by
  have hScan : collectNumber s fuel ((j + 1) % unsignedSize) (toInt32 (0 : Nat)) = some _ :=
    collectNumber_wraps hStop fuel (j + 1) 0 hDigits hWraps.tail hFuel
  have hShort : digits.length < unsignedSize :=
    length_digits_lt hWraps.head hDigits hWraps.tail.left
  rw [← next_mod] at hScan
  refine scan_number config fuel tmp lineno hWraps.head hScan ?_ (Nat.mod_lt _ (Nat.two_pow_pos 32))
  rw [next_mod, ← List.length_eq_zero_iff]
  unfold unsignedSize at hShort ⊢
  omega

/-- What the tokens of some bytes lead to, the scan of these bytes comes to. -/
theorem refused_of_tokens {t : Token} (hRefuses : config.Refuses digits) :
    ∀ (ts : List Token) (u : Str) (j : Nat) (tmp : Str) (lineno : Int), Wraps s j u →
      tokens u = ts ++ [.parameter digits, t] →
      (∀ d ∈ ts.filterMap Token.digits?, config.Takes d) →
      ∃ fuel, (config.scan s fuel (j % unsignedSize) false tmp lineno).map Outcome.quiet =
        some (.returned false s none) := by
  intro ts
  induction ts with
  | nil =>
    intro u j tmp lineno hWraps hTokens _
    rcases tokens_cases hTokens (by simp) with ⟨d, v, -, hOther, -⟩ |
      ⟨digits', c, v, rfl, hSame, hDigits, hStop, -⟩ | ⟨c, v, -, -, -, hOther, -⟩
    · cases hOther
    · cases hSame
      refine ⟨digits.length + 1 + 1, ?_⟩
      rw [scan_dollar_wraps tmp lineno hDigits hStop hWraps (Nat.lt_succ_self _),
        config.verdict_of_refuses hRefuses]
      rfl
    · cases hOther
  | cons x ts ih =>
    intro u j tmp lineno hWraps hTokens hTakes
    rcases tokens_cases hTokens (by simp) with ⟨d, v, rfl, rfl, hRest⟩ |
      ⟨digits', c, v, rfl, rfl, hDigits, hStop, hRest⟩ | ⟨c, v, rfl, hEscape, hDollar, rfl, hRest⟩
    · obtain ⟨fuel, hScan⟩ := ih v (j + 1 + 1) (tmp ++ [d]) (lineAfter d lineno) hWraps.tail.tail
        hRest hTakes
      refine ⟨fuel + 1 + 1, ?_⟩
      rw [scan_backslash _ _ _ _ hWraps.head, next_mod,
        scan_escaped _ _ _ _ hWraps.tail.head, next_mod]
      exact hScan
    · have hThis : config.Takes digits' := hTakes digits' List.mem_cons_self
      obtain ⟨arg, -, hVerdict⟩ := hThis.exists_arg
      obtain ⟨fuel, hScan⟩ := ih (c :: v) (j + 1 + digits'.length) (tmp ++ arg) lineno
        hWraps.tail.append hRest fun d hMem => hTakes d (List.mem_cons_of_mem _ hMem)
      obtain ⟨outcome, hSome, hQuiet⟩ := Option.map_eq_some_iff.mp hScan
      refine ⟨max fuel (digits'.length + 1) + 1, ?_⟩
      rw [scan_dollar_wraps tmp lineno hDigits hStop hWraps (Nat.le_max_right _ _), hVerdict]
      show (config.scan s _ _ false (tmp ++ arg) lineno).map Outcome.quiet = _
      rw [config.scan_fuel_le hSome (Nat.le_max_left _ _), Option.map_some, hQuiet]
    · obtain ⟨fuel, hScan⟩ := ih v (j + 1) (tmp ++ [c]) (lineAfter c lineno) hWraps.tail
        hRest hTakes
      refine ⟨fuel + 1, ?_⟩
      rw [scan_plain _ _ _ _ hWraps.head hEscape hDollar, next_mod]
      exact hScan

/-- A number that gets through, in front of one that does not. -/
theorem Config.ComesUpon.number {j : Nat} (hc : s[j % unsignedSize]? = some dollar)
    (hDigits : ∀ d ∈ digits, isDigit d = true) (hStop : isDigit c = false)
    (hWraps : Wraps s (j + 1) (digits ++ [c])) (hTakes : config.Takes digits)
    (h : config.ComesUpon s (j + 1 + digits.length)) : config.ComesUpon s j := by
  obtain ⟨u, ts, digits', t, hRest, hTokens, hLater, hRefuses⟩ := h
  have hHead : ∀ c' ∈ u.head?, isDigit c' = false := by
    intro c' hMem
    cases u with
    | nil => exact absurd hMem (by simp)
    | cons c'' u =>
      have hSame := hRest.head.symm.trans (Wraps.append hWraps).head
      rw [Option.mem_def, List.head?_cons, Option.some.injEq] at hMem
      rw [Option.some.injEq] at hSame
      rw [← hMem, hSame, hStop]
  refine ⟨dollar :: (digits ++ u), .parameter digits :: ts, digits', t,
    .cons hc (hWraps.left.join hRest),
    ?_, ?_, hRefuses⟩
  · rw [tokens_parameter hDigits hHead, hTokens]
    rfl
  · intro d hMem
    rcases List.mem_cons.mp hMem with rfl | hMem
    · exact hTakes
    · exact hLater d hMem

/-- What the scan comes to is what the tokens of the bytes lead to. -/
theorem comesUpon_of_refused (hSize : unsignedSize ≤ s.length) {s' : Str} :
    ∀ (fuel j : Nat) (tmp : Str) (lineno : Int),
      (config.scan s fuel (j % unsignedSize) false tmp lineno).map Outcome.quiet =
        some (.returned false s' none) → config.ComesUpon s j := by
  intro fuel
  -- an escaped character takes two turns of the loop
  induction fuel using Nat.strongRecOn with
  | ind fuel ih =>
    intro j tmp lineno hScan
    cases fuel with
    | zero => exact absurd hScan (by simp [Config.scan])
    | succ fuel =>
      have hAt : ∀ j, ∃ c, s[j % unsignedSize]? = some c := fun j =>
        ⟨_, List.getElem?_eq_getElem ((Nat.mod_lt j (Nat.two_pow_pos 32)).trans_le hSize)⟩
      obtain ⟨c, hc⟩ := hAt j
      by_cases hEscape : c = backslash
      · subst hEscape
        rw [scan_backslash _ _ _ _ hc, next_mod] at hScan
        cases fuel with
        | zero => exact absurd hScan (by simp [Config.scan])
        | succ fuel =>
          obtain ⟨d, hd⟩ := hAt (j + 1)
          rw [scan_escaped config fuel tmp lineno hd, next_mod] at hScan
          obtain ⟨u, ts, digits, t, hWraps, hTokens, hTakes, hRefuses⟩ :=
            ih fuel (by omega) _ _ _ hScan
          refine ⟨backslash :: d :: u, .escaped d :: ts, digits, t, .cons hc (.cons hd hWraps), ?_,
            hTakes, hRefuses⟩
          rw [tokens_escaped, hTokens]
          rfl
      · by_cases hDollar : c = dollar
        · subst hDollar
          cases hNumber : collectNumber s fuel ((j + 1) % unsignedSize) (toInt32 (0 : Nat)) with
          | none =>
            have hNone : config.scan s (fuel + 1) (j % unsignedSize) false tmp lineno = none := by
              have hNumber' : collectNumber s fuel (next (j % unsignedSize)) 0 = none := by
                rw [next_mod]
                exact hNumber
              rw [Config.scan, hc]
              simp only [hNumber']
              rfl
            rw [hNone] at hScan
            exact absurd hScan (by simp)
          | some r =>
            obtain ⟨digits, c', hDigits, hStop, hWraps, hFuel⟩ :=
              collectNumber_inv hSize fuel (j + 1) 0 r hNumber
            rw [scan_dollar_wraps tmp lineno hDigits hStop (hWraps.cons hc) hFuel] at hScan
            by_cases hRefuses : config.Refuses digits
            · obtain ⟨t, ht⟩ := tokens_single c'
              refine ⟨dollar :: (digits ++ [c']), [], digits, t, hWraps.cons hc, ?_,
                fun d hMem => absurd hMem List.not_mem_nil, hRefuses⟩
              rw [tokens_parameter hDigits (by simpa using hStop), ht]
              rfl
            · by_cases hTakes : config.Takes digits
              · obtain ⟨arg, -, hVerdict⟩ := hTakes.exists_arg
                rw [hVerdict] at hScan
                exact .number hc hDigits hStop hWraps hTakes (ih fuel (by omega) _ _ _ hScan)
              · rw [Config.verdict_thrown hTakes hRefuses] at hScan
                cases hScan
        · rw [scan_plain config fuel tmp lineno hc hEscape hDollar, next_mod] at hScan
          obtain ⟨u, ts, digits, t, hWraps, hTokens, hTakes, hRefuses⟩ :=
            ih fuel (by omega) _ _ _ hScan
          refine ⟨c :: u, .plain c :: ts, digits, t, .cons hc hWraps, ?_, hTakes, hRefuses⟩
          rw [tokens_plain _ hEscape hDollar, hTokens]
          rfl

/-- **Which long strings are refused.** -/
theorem comesUpon_iff_refused (hSize : unsignedSize ≤ s.length) (lineno : Int) :
    config.ComesUpon s 0 ↔ ∃ stderr, config.Yields s lineno (.returned false s stderr) := by
  constructor
  · rintro ⟨u, ts, digits, t, hWraps, hTokens, hTakes, hRefuses⟩
    obtain ⟨fuel, hScan⟩ := refused_of_tokens hRefuses ts u 0 [] lineno hWraps hTokens hTakes
    obtain ⟨outcome, hSome, hQuiet⟩ := Option.map_eq_some_iff.mp hScan
    cases outcome with
    | outOfRange => cases hQuiet
    | returned result s' stderr =>
      cases hQuiet
      exact ⟨stderr, fuel, hSome⟩
  · rintro ⟨stderr, fuel, hScan⟩
    have hQuiet : (config.scan s fuel (0 % unsignedSize) false [] lineno).map Outcome.quiet =
        some (.returned false s none) := congrArg (Option.map Outcome.quiet) hScan
    exact comesUpon_of_refused hSize fuel 0 [] lineno hQuiet

end Scan

/--
**When the substitution is as documented.** A string that the index can count: every number is that
of an argument, or the first one that, cut down to an `int`, is none is refused and not negative. A
longer string: some number is not that of an argument, and the index comes upon one that is refused.
-/
theorem substituteArgs_documented_iff (config : Config) (s : Str) (lineno : Int) :
    config.AsDocumented s lineno ↔
      (s.length < unsignedSize ∧
          ((∀ digits ∈ numbers s, config.Names digits) ∨ config.RefusesFirst (numbers s))) ∨
        (unsignedSize ≤ s.length ∧ (¬ ∀ digits ∈ numbers s, config.Names digits) ∧
          config.ComesUpon s 0) := by
  rcases Nat.lt_or_ge s.length unsignedSize with hSize | hSize
  · rw [asDocumented_iff_of_lt config lineno hSize]
    constructor
    · exact fun h => .inl ⟨hSize, h⟩
    · rintro (h | h)
      · exact h.2
      · exact absurd h.1 hSize.not_ge
  · have hShort : ¬ (s.length < unsignedSize ∧
        ((∀ digits ∈ numbers s, config.Names digits) ∨ config.RefusesFirst (numbers s))) :=
      fun h => hSize.not_gt h.1
    rw [or_iff_right hShort, and_iff_right hSize, comesUpon_iff_refused hSize lineno,
      Config.AsDocumented]
    by_cases hNames : ∀ digits ∈ numbers s, config.Names digits
    · refine iff_of_false ?_ fun h => h.1 hNames
      rintro ⟨stderr, fuel, hFuel⟩
      rw [documented_of_names hNames] at hFuel
      exact scan_ne_true hSize fuel 0 false [] lineno (by decide) hFuel
    · rw [documented_of_not_names hNames]
      exact (and_iff_right hNames).symm

/-- `"$4294967297"` -/
def overflowing : Str := [36, 52, 50, 57, 52, 57, 54, 55, 50, 57, 55]

/-- `"$1"` -/
theorem substituteArgs_one : oneArg.AsDocumented [36, 49] 1 := by
  have hTokens : tokens [36, 49] = [.parameter [49]] := by
    show tokens (dollar :: [49]) = _
    rw [tokens_dollar]
    show [Token.parameter [49]] ++ tokens [] = _
    rw [tokens_nil]
    rfl
  refine (substituteArgs_documented_iff oneArg [36, 49] 1).mpr (.inl ⟨by decide, .inl ?_⟩)
  unfold numbers
  rw [hTokens]
  decide +kernel

/-- `$4294967297` is replaced by the only argument. -/
theorem substituteArgs_overflow :
    oneArg.substituteArgs 30 overflowing 1 = some (.returned true [120] none) ∧
      ¬ (∀ digits ∈ numbers overflowing, oneArg.Names digits) ∧
      ¬ oneArg.AsDocumented overflowing 1 := by
  have hRun : oneArg.substituteArgs 30 overflowing 1 = some (.returned true [120] none) := by
    decide +kernel
  have hTokens : tokens overflowing = [.parameter overflowing.tail] := by
    show tokens (dollar :: overflowing.tail) = _
    rw [tokens_dollar]
    show [Token.parameter overflowing.tail] ++ tokens [] = _
    rw [tokens_nil]
    rfl
  have hNames : ¬ ∀ digits ∈ numbers overflowing, oneArg.Names digits := by
    unfold numbers
    rw [hTokens]
    decide +kernel
  refine ⟨hRun, hNames, ?_⟩
  rintro ⟨stderr, hYields⟩
  rw [documented_of_not_names hNames] at hYields
  cases Config.Yields.unique ⟨30, hRun⟩ hYields

end HectorCore.Startup
