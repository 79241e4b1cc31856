import HectorCore.Server.BodyLength

/-!
# SendResponse — a response in several writes

`SendResponse` puts the response together and writes it until as many bytes have been written as
it has. Every call of `write` gets the beginning of the buffer; only the number of bytes goes
down.

* The status line goes through a buffer of 1024 bytes.
* `send` and the lengths are `int`; the loop is not followed beyond an overflow of `send += w`.

Main results: `sendLoop_rest` (what the writes put on the socket), `sendResponse_exact_iff`.
-/

namespace HectorCore.Server

open Lib (toInt32 cStr printInt toInt32_of_lt)

/-- The members of the connection that `SendResponse` reads. -/
structure Response where
  responseCode : Int
  responseStr : Bytes
  responseHeader : Bytes
  responseBody : Bytes
  keepAlive : Bool
  deriving DecidableEq, Repr

/-- What `snprintf` leaves in a buffer of 1024 bytes. -/
def snprintf (s : Bytes) : Bytes := s.take 1023

/-- `"HTTP/1.0 "` -/
def httpVersion : Bytes := [72, 84, 84, 80, 47, 49, 46, 48, 32]

/-- `"HTTP/1.0 %d %s\r\n"` -/
def statusText (code : Int) (str : Bytes) : Bytes :=
  httpVersion ++ printInt code ++ space ++ str ++ crlf

/-- `"Connection: keep-alive\r\n"` -/
def connectionLine : Bytes := connection ++ colonSpace ++ keepAliveValue ++ crlf

/-- `"Content-Length: %d\r\n\r\n"` -/
def lengthText (n : Int) : Bytes := contentLength ++ colonSpace ++ printInt n ++ crlfCrlf

namespace Response

/-- `result` -/
def result (r : Response) : Bytes :=
  snprintf (statusText r.responseCode (cStr r.responseStr)) ++ r.responseHeader ++
    (if r.keepAlive then connectionLine else []) ++
    snprintf (lengthText (toInt32 r.responseBody.length)) ++ r.responseBody

/-- The status line, the headers, the length of the body and the body. -/
def expected (r : Response) : Bytes :=
  statusText r.responseCode r.responseStr ++ r.responseHeader ++
    (if r.keepAlive then connectionLine else []) ++
    lengthText r.responseBody.length ++ r.responseBody

/-- The status line fits into its buffer, and C sees all of the description. -/
def StatusFits (r : Response) : Prop :=
  0 ∉ r.responseStr ∧ (statusText r.responseCode r.responseStr).length ≤ 1023

instance (r : Response) : Decidable r.StatusFits := inferInstanceAs (Decidable (_ ∧ _))

end Response

/-- What `select` and `write` answer in one turn of the loop. -/
inductive Output where
  | selectError
  | timeout
  | writeError
  /-- so many bytes have been accepted, or all -/
  | wrote (count : Nat)
  deriving DecidableEq, Repr

/-- The loop: the bytes on the socket when it is left; `none` when `send += w` overflows. -/
def sendLoop (result : Bytes) (outputs : Nat → Output) : Nat → Nat → Int → Bytes → Option Bytes
  | 0, _, _, _ => none
  | fuel + 1, turn, send, sent =>
    match outputs turn with
    | .selectError => some sent
    | .timeout => some sent
    | .writeError => some sent
    | .wrote count =>
      -- `result.data()`, whatever `send` is
      let n := min count ((result.length : Int) - send).toNat
      let w := toInt32 n
      if w < 0 then some (sent ++ result.take n)
      else if 2 ^ 31 ≤ send + w then none
      else if toInt32 result.length ≤ send + w then some (sent ++ result.take n)
      else sendLoop result outputs fuel (turn + 1) (send + w) (sent ++ result.take n)

def Response.sendResponse (r : Response) (outputs : Nat → Output) (fuel : Nat) : Option Bytes :=
  sendLoop r.result outputs fuel 0 0 []

/-- `SendResponse` returns, and the response is on the socket. -/
def Response.Exact (r : Response) (counts : Nat → Nat) : Prop :=
  ∃ fuel, r.sendResponse (fun i => .wrote (counts i)) fuel = some r.expected

-- ---------------------------------------------------------------------------
-- The writes
-- ---------------------------------------------------------------------------

/-- How much has been written before a turn. -/
def offsetAt (total : Nat) (counts : Nat → Nat) : Nat → Nat
  | 0 => 0
  | i + 1 => min (offsetAt total counts i + counts i) total

/-- How much a turn writes. -/
def writtenAt (total : Nat) (counts : Nat → Nat) (i : Nat) : Nat :=
  min (counts i) (total - offsetAt total counts i)

/-- What a turn writes is what should be written then. -/
def RepeatsAt (result : Bytes) (counts : Nat → Nat) (i : Nat) : Prop :=
  result.take (writtenAt result.length counts i) =
    (result.drop (offsetAt result.length counts i)).take (writtenAt result.length counts i)

theorem sendLoop_mono {result : Bytes} {outputs : Nat → Output} {bytes : Bytes} :
    ∀ (fuel turn : Nat) (send : Int) (sent : Bytes),
      sendLoop result outputs fuel turn send sent = some bytes →
      sendLoop result outputs (fuel + 1) turn send sent = some bytes := by
  intro fuel
  induction fuel with
  | zero => exact fun turn send sent h => by cases h
  | succ fuel ih =>
    intro turn send sent h
    rw [sendLoop] at h ⊢
    cases hOutput : outputs turn with
    | selectError =>
      rw [hOutput] at h
      exact h
    | timeout =>
      rw [hOutput] at h
      exact h
    | writeError =>
      rw [hOutput] at h
      exact h
    | wrote count =>
      rw [hOutput] at h
      dsimp only at h ⊢
      split at h
      · rwa [if_pos ‹_›]
      · rw [if_neg ‹_›]
        split at h
        · exact absurd h (by simp)
        · rw [if_neg ‹_›]
          split at h
          · rwa [if_pos ‹_›]
          · rw [if_neg ‹_›]
            exact ih _ _ _ h

theorem sendLoop_fuel_le {result : Bytes} {outputs : Nat → Output} {bytes : Bytes}
    {fuel fuel' turn : Nat} {send : Int} {sent : Bytes}
    (h : sendLoop result outputs fuel turn send sent = some bytes) (hLe : fuel ≤ fuel') :
    sendLoop result outputs fuel' turn send sent = some bytes := by
  induction hLe with
  | refl => exact h
  | step _ ih => exact sendLoop_mono _ _ _ _ ih

/-- The loop leaves one sequence of bytes on the socket. -/
theorem sendLoop_unique {result : Bytes} {outputs : Nat → Output} {bytes bytes' : Bytes}
    {fuel fuel' turn : Nat} {send : Int} {sent : Bytes}
    (h : sendLoop result outputs fuel turn send sent = some bytes)
    (h' : sendLoop result outputs fuel' turn send sent = some bytes') : bytes = bytes' := by
  have hMax := sendLoop_fuel_le h (Nat.le_max_left fuel fuel')
  rw [sendLoop_fuel_le h' (Nat.le_max_right fuel fuel')] at hMax
  exact (Option.some.inj hMax).symm

section Writes

variable {result : Bytes} {counts : Nat → Nat}

theorem offsetAt_le (total : Nat) (counts : Nat → Nat) (i : Nat) :
    offsetAt total counts i ≤ total := by
  cases i with
  | zero => exact Nat.zero_le _
  | succ i => exact Nat.min_le_right _ _

theorem offsetAt_succ (total : Nat) (counts : Nat → Nat) (i : Nat) :
    offsetAt total counts (i + 1) = offsetAt total counts i + writtenAt total counts i := by
  have := offsetAt_le total counts i
  rw [offsetAt, writtenAt]
  omega

/-- Nothing is written any more. -/
theorem repeatsAt_end {i : Nat} (h : offsetAt result.length counts i = result.length) (k : Nat) :
    RepeatsAt result counts (i + k) := by
  have hEnd : offsetAt result.length counts (i + k) = result.length := by
    induction k with
    | zero => exact h
    | succ k ih =>
      rw [← Nat.add_assoc, offsetAt, ih]
      exact Nat.min_eq_right (by omega)
  unfold RepeatsAt writtenAt
  rw [hEnd, Nat.sub_self, Nat.min_zero]
  rfl

/-- The writes up to the one that takes the rest decide. -/
theorem repeatsAt_of_end {n : Nat} (hEnd : offsetAt result.length counts n = result.length)
    (hTurns : ∀ i < n, RepeatsAt result counts i) (i : Nat) : RepeatsAt result counts i := by
  by_cases hi : i < n
  · exact hTurns i hi
  · have h := repeatsAt_end hEnd (i - n)
    rwa [Nat.add_sub_cancel' (Nat.le_of_not_lt hi)] at h

/-- One turn of the loop, when all lengths fit into an `int`. -/
theorem sendLoop_turn (hSize : result.length < 2 ^ 31) (i fuel : Nat) (sent : Bytes) :
    sendLoop result (fun i => .wrote (counts i)) (fuel + 1) i
      (offsetAt result.length counts i) sent =
      if result.length ≤ offsetAt result.length counts (i + 1) then
        some (sent ++ result.take (writtenAt result.length counts i))
      else sendLoop result (fun i => .wrote (counts i)) fuel (i + 1)
        (offsetAt result.length counts (i + 1))
        (sent ++ result.take (writtenAt result.length counts i)) := by
  have hi := offsetAt_le result.length counts i
  have hNext := offsetAt_le result.length counts (i + 1)
  rw [offsetAt_succ] at hNext ⊢
  have hLeft : min (counts i) ((result.length : Int) - offsetAt result.length counts i).toNat =
      writtenAt result.length counts i := by
    unfold writtenAt
    omega
  rw [sendLoop]
  dsimp only
  rw [hLeft, toInt32_of_lt hSize, toInt32_of_lt (by omega), if_neg (by omega), if_neg (by omega),
    ← Int.natCast_add]
  simp only [Int.ofNat_le]

/-- **What the writes put on the socket**, from a turn on: as many bytes as are missing, and the
right ones if and only if each turn writes what it should. -/
theorem sendLoop_rest (hSize : result.length < 2 ^ 31) (hPos : ∀ i, 0 < counts i) :
    ∀ (missing i : Nat) (sent : Bytes),
      result.length - offsetAt result.length counts i = missing → 0 < missing →
      ∃ rest, (∃ fuel, sendLoop result (fun i => .wrote (counts i)) fuel i
          (offsetAt result.length counts i) sent = some (sent ++ rest)) ∧
        rest.length = missing ∧
        (rest = result.drop (offsetAt result.length counts i) ↔
          ∀ k, RepeatsAt result counts (i + k)) := by
  intro missing
  induction missing using Nat.strongRecOn with
  | ind missing ih =>
    intro i sent hMissing hMore
    have hi := offsetAt_le result.length counts i
    have hCount := hPos i
    have hNext := offsetAt_succ result.length counts i
    have hWritten : writtenAt result.length counts i = min (counts i) missing := by
      rw [writtenAt, hMissing]
    have hTake : (result.take (writtenAt result.length counts i)).length =
        writtenAt result.length counts i := List.length_take_of_le (by omega)
    by_cases hLast : result.length ≤ offsetAt result.length counts (i + 1)
    · -- all that is missing
      have hEnd : offsetAt result.length counts (i + 1) = result.length := by omega
      have hDrop : (result.drop (offsetAt result.length counts i)).take
          (writtenAt result.length counts i) = result.drop (offsetAt result.length counts i) :=
        List.take_of_length_le (by rw [List.length_drop]; omega)
      refine ⟨result.take (writtenAt result.length counts i), ⟨1, ?_⟩, by omega, ?_⟩
      · rw [sendLoop_turn hSize, if_pos hLast]
      · constructor
        · intro hSame k
          cases k with
          | zero => exact hSame.trans hDrop.symm
          | succ k =>
            rw [Nat.add_comm k, ← Nat.add_assoc]
            exact repeatsAt_end hEnd k
        · intro hRepeats
          exact (hRepeats 0).trans hDrop
    · obtain ⟨rest, ⟨fuel, hRun⟩, hLength, hSame⟩ :=
        ih (missing - writtenAt result.length counts i) (by omega) (i + 1)
          (sent ++ result.take (writtenAt result.length counts i)) (by omega) (by omega)
      rw [hNext, ← List.drop_drop] at hSame
      refine ⟨result.take (writtenAt result.length counts i) ++ rest, ⟨fuel + 1, ?_⟩, ?_, ?_⟩
      · rw [sendLoop_turn hSize, if_neg hLast, hRun, List.append_assoc]
      · rw [List.length_append, hTake, hLength]
        omega
      · constructor
        · intro hWhole k
          have hSplit := hWhole.trans (List.take_append_drop (writtenAt result.length counts i)
            (result.drop (offsetAt result.length counts i))).symm
          have hLengths : (result.take (writtenAt result.length counts i)).length =
              ((result.drop (offsetAt result.length counts i)).take
                (writtenAt result.length counts i)).length := by
            rw [hTake, List.length_take_of_le (by rw [List.length_drop]; omega)]
          obtain ⟨hFirst, hLater⟩ := List.append_inj hSplit hLengths
          cases k with
          | zero => exact hFirst
          | succ k =>
            rw [Nat.add_comm k, ← Nat.add_assoc]
            exact hSame.mp hLater k
        · intro hAll
          have hFirst : RepeatsAt result counts i := hAll 0
          have hLater := hSame.mpr fun k => by
            rw [Nat.add_assoc, Nat.add_comm 1]
            exact hAll (k + 1)
          rw [hLater, hFirst]
          exact List.take_append_drop _ _

/-- No more bytes are sent than `send` can count. -/
theorem sendLoop_short (hCounts : ∀ i, counts i < 2 ^ 31) {bytes : Bytes} :
    ∀ (fuel i : Nat) (send : Int) (sent : Bytes), 0 ≤ send → (sent.length : Int) ≤ send →
      sendLoop result (fun i => .wrote (counts i)) fuel i send sent = some bytes →
      bytes.length < 2 ^ 31 := by
  intro fuel
  induction fuel with
  | zero => exact fun i send sent _ _ h => absurd h (by simp [sendLoop])
  | succ fuel ih =>
    intro i send sent hSend hSent h
    rw [sendLoop] at h
    dsimp only at h
    have hCount : min (counts i) ((result.length : Int) - send).toNat < 2 ^ 31 :=
      (Nat.min_le_left _ _).trans_lt (hCounts i)
    generalize min (counts i) ((result.length : Int) - send).toNat = n at hCount h
    have hTake : (result.take n).length ≤ n := List.length_take_le n result
    rw [toInt32_of_lt hCount, if_neg (by omega)] at h
    split at h
    · exact absurd h (by simp)
    · split at h
      · rw [← Option.some.inj h, List.length_append]
        omega
      · refine ih _ _ _ (by omega) ?_ h
        rw [List.length_append]
        omega

end Writes

-- ---------------------------------------------------------------------------
-- The response
-- ---------------------------------------------------------------------------

theorem length_cStr_le (s : Bytes) : (cStr s).length ≤ s.length :=
  (List.takeWhile_prefix _).length_le

theorem cStr_eq_self_iff {s : Bytes} : cStr s = s ↔ 0 ∉ s := by
  unfold cStr
  rw [List.takeWhile_eq_self_iff]
  constructor
  · intro hAll hZero
    exact absurd (hAll 0 hZero) (by decide)
  · intro hNone c hc
    have hNe : c ≠ 0 := by
      rintro rfl
      exact hNone hc
    simpa using hNe

theorem length_statusText (code : Int) (str : Bytes) :
    (statusText code str).length = 12 + (printInt code).length + str.length := by
  simp only [statusText, httpVersion, space, crlf, List.length_append, List.length_cons,
    List.length_nil]
  omega

/-- A length that an `int` can hold is printed as it is. -/
theorem snprintf_lengthText {n : Nat} (h : n < 2 ^ 31) :
    snprintf (lengthText (toInt32 n)) = lengthText n := by
  rw [toInt32_of_lt h]
  refine List.take_of_length_le ?_
  have hDigits : (Lib.digits n).length ≤ 10 := Lib.length_digits_le (by decide) (by omega)
  simp only [lengthText, printInt, contentLength, colonSpace, crlfCrlf, List.length_append,
    List.length_cons, List.length_nil, Int.natAbs_natCast]
  rw [if_neg (by omega)]
  omega

namespace Response

variable {r : Response}

/-- The response is put together right, if its length is printed right. -/
theorem result_eq_iff (hBody : r.responseBody.length < 2 ^ 31) :
    (r.StatusFits → r.result = r.expected) ∧
      (¬ r.StatusFits → r.result.length < r.expected.length) := by
  have hText := snprintf_lengthText hBody
  constructor
  · rintro ⟨hZero, hShort⟩
    unfold result expected
    rw [hText, cStr_eq_self_iff.mpr hZero, snprintf, List.take_of_length_le hShort]
  · intro hNot
    have hStatus : (snprintf (statusText r.responseCode (cStr r.responseStr))).length <
        (statusText r.responseCode r.responseStr).length := by
      have hLe := length_cStr_le r.responseStr
      unfold snprintf
      rw [List.length_take, length_statusText, length_statusText]
      by_cases hZero : 0 ∈ r.responseStr
      · have hNe : cStr r.responseStr ≠ r.responseStr := fun hSame =>
          cStr_eq_self_iff.mp hSame hZero
        have hLt : (cStr r.responseStr).length ≠ r.responseStr.length := fun hSame =>
          hNe ((List.takeWhile_prefix _).eq_of_length hSame)
        omega
      · have hLong : ¬ (statusText r.responseCode r.responseStr).length ≤ 1023 := fun hShort =>
          hNot ⟨hZero, hShort⟩
        rw [length_statusText] at hLong
        omega
    unfold result expected
    rw [hText]
    simp only [List.length_append]
    omega

theorem result_pos (r : Response) : 0 < r.result.length := by
  have hStatus : 0 < (snprintf (statusText r.responseCode (cStr r.responseStr))).length := by
    unfold snprintf
    rw [List.length_take, length_statusText]
    omega
  unfold result
  simp only [List.length_append]
  omega

theorem body_le_result (r : Response) : r.responseBody.length ≤ r.result.length := by
  unfold result
  rw [List.length_append]
  omega

theorem body_le_expected (r : Response) : r.responseBody.length ≤ r.expected.length := by
  unfold expected
  rw [List.length_append]
  omega

end Response

namespace Response

variable {r : Response} {counts : Nat → Nat}

theorem exact_iff_of_small (hPos : ∀ i, 0 < counts i) (hSize : r.result.length < 2 ^ 31) :
    r.Exact counts ↔ r.StatusFits ∧ ∀ i, RepeatsAt r.result counts i := by
  have hBody := r.body_le_result
  obtain ⟨hFits, hShort⟩ := result_eq_iff (show r.responseBody.length < 2 ^ 31 by omega)
  obtain ⟨rest, ⟨fuel, hRun⟩, hLength, hSame⟩ :=
    sendLoop_rest hSize hPos r.result.length 0 [] rfl r.result_pos
  have hExact : r.Exact counts ↔ rest = r.expected := by
    constructor
    · rintro ⟨fuel', hRun'⟩
      exact sendLoop_unique hRun hRun'
    · rintro rfl
      exact ⟨fuel, hRun⟩
  have hRepeats : (∀ k, RepeatsAt r.result counts (0 + k)) ↔
      ∀ i, RepeatsAt r.result counts i := by simp only [Nat.zero_add]
  have hSame' : rest = r.result ↔ ∀ i, RepeatsAt r.result counts i := hSame.trans hRepeats
  rw [hExact]
  by_cases hStatus : r.StatusFits
  · rw [← hFits hStatus, hSame']
    exact ⟨fun h => ⟨hStatus, h⟩, fun h => h.2⟩
  · refine iff_of_false ?_ fun h => hStatus h.1
    rintro rfl
    have := hShort hStatus
    omega

/-- A response of 2 GiB or more is not sent completely. -/
theorem not_exact_of_large (hCounts : ∀ i, counts i < 2 ^ 31) (hSize : 2 ^ 31 ≤ r.result.length) :
    ¬ r.Exact counts := by
  rintro ⟨fuel, hRun⟩
  have hSent := sendLoop_short hCounts fuel 0 0 [] (Int.le_refl 0) (Int.le_refl 0) hRun
  have hExpected : 2 ^ 31 ≤ r.expected.length := by
    by_cases hBody : r.responseBody.length < 2 ^ 31
    · obtain ⟨hFits, hShort⟩ := result_eq_iff hBody
      by_cases hStatus : r.StatusFits
      · rwa [← hFits hStatus]
      · have := hShort hStatus
        omega
    · have := r.body_le_expected
      omega
  omega

end Response

/-- **When a response is sent as it is**: it has less than 2 GiB, the status line fits into its
buffer, and every write after the first one happens to repeat what should come next. -/
theorem sendResponse_exact_iff (r : Response) (counts : Nat → Nat) (hPos : ∀ i, 0 < counts i)
    (hCounts : ∀ i, counts i < 2 ^ 31) :
    r.Exact counts ↔
      r.result.length < 2 ^ 31 ∧ r.StatusFits ∧ ∀ i, RepeatsAt r.result counts i := by
  by_cases hSize : r.result.length < 2 ^ 31
  · rw [Response.exact_iff_of_small hPos hSize]
    exact (and_iff_right hSize).symm
  · exact iff_of_false (Response.not_exact_of_large hCounts (by omega)) fun h => hSize h.1

/-- In writes of 38 bytes, the second write should send the body `"HT"`, with which the response
begins, too. -/
theorem sendResponse_exact_twice :
    (⟨200, [79, 75], [], [72, 84], false⟩ : Response).Exact fun _ => 38 := by
  refine (sendResponse_exact_iff ⟨200, [79, 75], [], [72, 84], false⟩ (fun _ => 38)
    (fun _ => by decide) fun _ => by decide).mpr ⟨by decide +kernel, by decide +kernel, ?_⟩
  refine repeatsAt_of_end (n := 2) (by decide +kernel) fun i hi => ?_
  unfold RepeatsAt
  match i with
  | 0 => decide +kernel
  | 1 => decide +kernel

/-- `200 OK` with the body `"a"` -/
def okResponse : Response := ⟨200, [79, 75], [], [97], false⟩

/-- In writes of 20 bytes, the second write sends the first 19 bytes again. -/
theorem sendResponse_repeats :
    okResponse.sendResponse (fun _ => .wrote 20) 2 =
        some (okResponse.expected.take 20 ++ okResponse.expected.take 19) ∧
      ¬ okResponse.Exact fun _ => 20 := by
  have hRun : okResponse.sendResponse (fun _ => .wrote 20) 2 =
      some (okResponse.expected.take 20 ++ okResponse.expected.take 19) := by decide +kernel
  refine ⟨hRun, ?_⟩
  rintro ⟨fuel, hExact⟩
  have hSame := sendLoop_unique hRun hExact
  exact absurd hSame (by decide +kernel)

end HectorCore.Server
