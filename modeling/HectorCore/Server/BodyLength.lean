import HectorCore.Server.KeepAlive

/-!
# BodyLength — Content-Length as an int

`RequestReady` compares the number of body bytes in the buffer with `request_body_length`, both
`int`; the `long` that `atol` returns is cut down on the way, and `atol` itself stops at the ends
of its range. A value that comes out negative counts as no `Content-Length` at all, and one that
comes out smaller ends the body too early.

`requestReady32` is `requestReady` with the lengths of the buffer as `int`; a connection is in one
of the states of `Arrived` whenever `RequestReady` finds the header.

Main results: `requestReady32_arrived`, `contentLength_exact_iff`.
-/

namespace HectorCore.Server

open Lib (find substr toInt32 isSpace isDigit cStr toInt32_of_lt toInt32_le toInt32_lt
  toInt32_sub not_isSpace_of_isDigit)

/-- `(int)request_buffer.length()-request_body_offset`, with the arithmetic of `int`. -/
def Conn.bodyBuffered (conn : Conn) : Int :=
  toInt32 (toInt32 conn.requestBuffer.length - conn.requestBodyOffset.getD 0)

/-- Whether the body is still incomplete, as the `int`s tell it. -/
def Conn.waitsForBody32 (conn : Conn) : Bool :=
  (conn.keepAlive || decide (0 ≤ conn.requestBodyLength)) &&
    decide (conn.bodyBuffered < conn.requestBodyLength)

/-- `RequestReady` -/
def Conn.requestReady32 (conn : Conn) : RequestReady × Conn :=
  match conn.parseRequestHeader with
  | (.parsed, conn) => if conn.waitsForBody32 then (.incomplete, conn) else (.parsed, conn)
  | (status, conn) => (status, conn)

-- ---------------------------------------------------------------------------
-- A decimal Content-Length
-- ---------------------------------------------------------------------------

/-- What `request_body_length` is for the value `v`. -/
def lengthInt (v : Nat) : Int := toInt32 (min (2 ^ 63 - 1) v)

/-- A length that fits into `int` is what it is. -/
theorem lengthInt_of_lt {v : Nat} (h : v < 2 ^ 31) : lengthInt v = v := by
  unfold lengthInt
  rw [Int.min_eq_right (by omega), toInt32_of_lt h]

theorem lengthInt_lt (v : Nat) : lengthInt v < 2 ^ 31 := toInt32_lt _

/-- `atol` saturates. -/
theorem atol_digits {text : Bytes} (hDigits : ∀ c ∈ text, isDigit c = true) :
    atol text = min (2 ^ 63 - 1) (digits 0 text : Int) := by
  have hC : cStr text = text := by
    refine List.takeWhile_eq_self_iff.mpr fun c hc => ?_
    have hNe : c ≠ 0 := by
      rintro rfl
      exact absurd (hDigits 0 hc) (by decide)
    simpa using hNe
  unfold atol
  rw [hC]
  cases text with
  | nil => rfl
  | cons c cs =>
    have hDigit := hDigits c List.mem_cons_self
    have hSpace : ¬ isSpace c = true := by
      rw [not_isSpace_of_isDigit hDigit]
      exact Bool.false_ne_true
    have hMinus : c ≠ 45 := by
      rintro rfl
      exact absurd hDigit (by decide)
    have hPlus : c ≠ 43 := by
      rintro rfl
      exact absurd hDigit (by decide)
    rw [List.dropWhile_cons_of_neg hSpace]
    have hPos : (0 : Int) ≤ digits 0 (c :: cs) := Int.natCast_nonneg _
    split
    · rename_i hHead
      exact absurd (List.cons.inj hHead).1 hMinus
    · rename_i hHead
      exact absurd (List.cons.inj hHead).1 hPlus
    · dsimp only
      omega

/-- The field and the number that `RequestReady` compares with. -/
theorem bodyLength_digits {fields : HeaderFields} {text : Bytes}
    (hText : fields contentLength = some text) (hDigits : ∀ c ∈ text, isDigit c = true) :
    bodyLength fields = lengthInt (digits 0 text) := by
  unfold bodyLength lengthInt
  rw [hText]
  dsimp only
  rw [atol_digits hDigits]

-- ---------------------------------------------------------------------------
-- RequestReady, when the header is there
-- ---------------------------------------------------------------------------

variable {s : Bytes} {bo m : Nat} {conn : Conn}

/-- `m` bytes of `s` have arrived, and the header with its end at `bo`: with this chunk, or with
an earlier one. -/
def Arrived (s : Bytes) (bo m : Nat) (conn : Conn) : Prop :=
  bo ≤ m ∧ m ≤ s.length ∧
    (headerEnd s m = some bo ∧ Received s m conn ∨ conn = parsedAt s bo m)

/-- Fewer body bytes than the length, if there is one. -/
def Waits32 (s : Bytes) (bo m : Nat) : Prop :=
  0 ≤ lengthOf s ∧ toInt32 ((m - bo : Nat) : Int) < lengthOf s

instance (s : Bytes) (bo m : Nat) : Decidable (Waits32 s bo m) :=
  inferInstanceAs (Decidable (_ ∧ _))

/-- Parsing takes nothing from the buffer. -/
theorem parsedAt_buffer (s : Bytes) (bo m : Nat) : (parsedAt s bo m).requestBuffer = s.take m := by
  obtain ⟨keep, fields', -, hEq⟩ := parsedAt_eq s
  rw [hEq]
  exact unparsed_buffer s m

/-- The bytes behind the header, as many as `int` can tell. -/
theorem bodyBuffered_parsedAt (hBo : bo ≤ m) (hLe : m ≤ s.length) :
    (parsedAt s bo m).bodyBuffered = toInt32 ((m - bo : Nat) : Int) := by
  obtain ⟨keep, fields', -, hEq⟩ := parsedAt_eq s
  have hOffset : (parsedAt s bo m).requestBodyOffset = some bo := by rw [hEq]
  have hSub : ((m - bo : Nat) : Int) = (m : Int) - bo := by omega
  unfold Conn.bodyBuffered
  rw [parsedAt_buffer, List.length_take_of_le hLe, hOffset, toInt32_sub, hSub]
  rfl

/-- So the test of `RequestReady` is one on positions in what has been received. -/
theorem waitsForBody32_parsedAt (hBo : bo ≤ m) (hLe : m ≤ s.length) :
    (parsedAt s bo m).waitsForBody32 = decide (Waits32 s bo m) := by
  obtain ⟨keep, fields', hKeep, hEq⟩ := parsedAt_eq s
  unfold Conn.waitsForBody32 Waits32
  rw [bodyBuffered_parsedAt hBo hLe, hEq]
  dsimp only
  by_cases hPos : 0 ≤ lengthOf s
  · simp [hPos]
  · have hNot : keep = false := by
      cases keep with
      | false => rfl
      | true => exact absurd (hKeep rfl) hPos
    simp [hPos, hNot]

/-- **RequestReady, when the header is there**: the connection, and whether it waits for more. -/
theorem requestReady32_arrived (h : Arrived s bo m conn) :
    conn.requestReady32 =
      (if Waits32 s bo m then .incomplete else .parsed, parsedAt s bo m) := by
  obtain ⟨hBo, hLe, hState⟩ := h
  have hHeader : conn.parseRequestHeader = (.parsed, parsedAt s bo m) := by
    rcases hState with ⟨hEnd, hReceived⟩ | rfl
    · rw [parseRequestHeader_received hReceived, hEnd]
    · obtain ⟨keep, fields', -, hEq⟩ := parsedAt_eq s
      rw [hEq]
      rfl
  unfold Conn.requestReady32
  rw [hHeader]
  dsimp only
  rw [waitsForBody32_parsedAt hBo hLe]
  by_cases hWaits : Waits32 s bo m
  · rw [if_pos (decide_eq_true hWaits), if_pos hWaits]
  · rw [if_neg (by simpa using hWaits), if_neg hWaits]

/-- For requests of less than 2 GiB this is `requestReady`. -/
theorem requestReady32_eq (h : Arrived s bo m conn) (hSize : m < 2 ^ 31) :
    conn.requestReady32 = conn.requestReady := by
  obtain ⟨hBo, hLe, hState⟩ := h
  have hSame : Waits32 s bo m ↔ Waits s bo m := by
    unfold Waits32 Waits
    rw [toInt32_of_lt (by omega)]
    omega
  have hReady : conn.requestReady =
      (if Waits s bo m then .incomplete else .parsed, parsedAt s bo m) := by
    rcases hState with ⟨hEnd, hReceived⟩ | rfl
    · rw [requestReady_received hReceived hLe, hEnd]
    · exact requestReady_parsedAt hLe
  rw [requestReady32_arrived ⟨hBo, hLe, hState⟩, hReady, if_congr hSame rfl rfl]

/-- The body of a connection that shows `m` bytes. -/
theorem length_getRequestBody_parsedAt (bo : Nat) (hLe : m ≤ s.length) :
    (parsedAt s bo m).getRequestBody.length =
      if 0 ≤ lengthOf s then min (lengthOf s).toNat (m - bo) else m - bo := by
  obtain ⟨keep, fields', -, hEq⟩ := parsedAt_eq s
  have hLength : ((unparsed s m).requestBuffer.drop bo).length = m - bo := by
    rw [unparsed_buffer, List.length_drop, List.length_take_of_le hLe]
  unfold Conn.getRequestBody
  rw [hEq]
  dsimp only [Option.getD_some]
  split
  · rw [substr, List.length_take, hLength]
  · exact hLength

-- ---------------------------------------------------------------------------
-- Exactness
-- ---------------------------------------------------------------------------

/-- If the request is parsed, at least `v` body bytes are in the buffer, and the body has exactly
`v` bytes. -/
def ExactBody (conn : Conn) (v : Nat) : Prop :=
  ∀ conn', conn.requestReady32 = (.parsed, conn') →
    v ≤ conn'.requestBuffer.length - conn'.requestBodyOffset.getD 0 ∧
      conn'.getRequestBody.length = v

/-- **When `Content-Length: v` is exact**: the value is below 2 GiB; or the `int` that it becomes is
negative, and by chance there are `v` bytes; or that `int` is a length for which the connection
still waits. -/
theorem contentLength_exact_iff {text : Bytes} (h : Arrived s bo m conn)
    (hText : fieldsOf s contentLength = some text) (hDigits : ∀ c ∈ text, isDigit c = true) :
    ExactBody conn (digits 0 text) ↔
      digits 0 text < 2 ^ 31 ∨
        lengthInt (digits 0 text) < 0 ∧ m - bo = digits 0 text ∨
        0 ≤ lengthInt (digits 0 text) ∧
          toInt32 ((m - bo : Nat) : Int) < lengthInt (digits 0 text) := by
  have hReady := requestReady32_arrived h
  obtain ⟨hBo, hLe, -⟩ := h
  have hLength : lengthOf s = lengthInt (digits 0 text) := bodyLength_digits hText hDigits
  have hBody := length_getRequestBody_parsedAt bo hLe
  have hBuffered : (parsedAt s bo m).requestBuffer.length -
      (parsedAt s bo m).requestBodyOffset.getD 0 = m - bo := by
    obtain ⟨keep, fields', -, hEq⟩ := parsedAt_eq s
    rw [parsedAt_buffer, List.length_take_of_le hLe, hEq]
    rfl
  generalize digits 0 text = v at hLength ⊢
  have hWaitsIff : Waits32 s bo m ↔
      0 ≤ lengthInt v ∧ toInt32 ((m - bo : Nat) : Int) < lengthInt v := by
    unfold Waits32
    rw [hLength]
  rw [hLength] at hBody
  -- once the connection does not wait, the body is what `GetRequestBody` cuts off
  have hExact : ExactBody conn v ↔
      (¬ (0 ≤ lengthInt v ∧ toInt32 ((m - bo : Nat) : Int) < lengthInt v) →
        v ≤ m - bo ∧ (parsedAt s bo m).getRequestBody.length = v) := by
    unfold ExactBody
    rw [hReady, ← hWaitsIff]
    constructor
    · intro hAll hNot
      have hParsed := hAll (parsedAt s bo m) (by rw [if_neg hNot])
      rwa [hBuffered] at hParsed
    · intro hParsed conn' hConn'
      obtain ⟨hStatus, rfl⟩ := Prod.mk.inj hConn'
      have hNot : ¬ Waits32 s bo m := by
        intro hWaits
        rw [if_pos hWaits] at hStatus
        exact absurd hStatus (by decide)
      rw [hBuffered]
      exact hParsed hNot
  rw [hExact, hBody]
  have hArrivedLe := toInt32_le (m - bo)
  have hBound := lengthInt_lt v
  by_cases hSmall : v < 2 ^ 31
  · -- the `int` is the value
    rw [lengthInt_of_lt hSmall]
    refine iff_of_true (fun hNot => ?_) (.inl hSmall)
    rw [if_pos (Int.natCast_nonneg v), Int.toNat_natCast]
    omega
  · by_cases hNegative : lengthInt v < 0
    · -- a negative length is no length, and the body is all that has arrived
      rw [if_neg (by omega)]
      constructor
      · intro hParsed
        exact .inr (.inl ⟨hNegative, (hParsed (by omega)).2⟩)
      · rintro (hLt | ⟨-, hSame⟩ | ⟨hPos, -⟩) hNot
        · exact absurd hLt hSmall
        · exact ⟨by omega, hSame⟩
        · omega
    · -- the `int` is smaller than the value, so the body that is cut off is too short
      rw [if_pos (by omega)]
      constructor
      · intro hParsed
        by_contra hOther
        have hNot : ¬ (0 ≤ lengthInt v ∧ toInt32 ((m - bo : Nat) : Int) < lengthInt v) := by
          rintro hWaits
          exact hOther (.inr (.inr hWaits))
        have := (hParsed hNot).2
        omega
      · rintro (hLt | ⟨hLow, -⟩ | hWaits) hNot
        · exact absurd hLt hSmall
        · exact absurd hLow hNegative
        · exact absurd hWaits hNot

/-- `"P\nContent-Length: "`, the text, an empty line and the body -/
def requestOfLength (text body : Bytes) : Bytes :=
  [80, 10] ++ contentLength ++ colonSpace ++ text ++ lfLf ++ body

/-- A new connection that has received the bytes. -/
def Conn.receiving (s : Bytes) : Conn := { Conn.new with requestBuffer := s }

theorem received_receiving (s : Bytes) : Received s s.length (.receiving s) := by
  have hReceived := received_new s s.length
  rwa [List.take_length] at hReceived

theorem contentLength_exact_two : ExactBody (.receiving (requestOfLength [50] [97, 98])) 2 := by
  have hArrived : Arrived (requestOfLength [50] [97, 98]) 21
      (requestOfLength [50] [97, 98]).length (.receiving (requestOfLength [50] [97, 98])) :=
    ⟨by decide, by decide, .inl ⟨by decide +kernel, received_receiving _⟩⟩
  have hText : fieldsOf (requestOfLength [50] [97, 98]) contentLength = some [50] := by
    decide +kernel
  exact (contentLength_exact_iff hArrived hText (by decide +kernel)).mpr (.inl (by decide))

/-- `"4294967298"` -/
def twoOfMany : Bytes := [52, 50, 57, 52, 57, 54, 55, 50, 57, 56]

/-- With `Content-Length: 4294967298` the body is `"ab"`. -/
theorem contentLength_two_of_many :
    digits 0 twoOfMany = 4294967298 ∧
      ¬ ExactBody (.receiving (requestOfLength twoOfMany [97, 98])) 4294967298 := by
  refine ⟨by decide, fun hExact => ?_⟩
  have hReady : (Conn.receiving (requestOfLength twoOfMany [97, 98])).requestReady32.1 =
      .parsed := by decide +kernel
  have hBody : (Conn.receiving
    (requestOfLength twoOfMany [97, 98])).requestReady32.2.getRequestBody =
      [97, 98] := by decide +kernel
  have hLength := (hExact (Conn.receiving (requestOfLength twoOfMany [97, 98])).requestReady32.2
    (Prod.ext hReady rfl)).2
  rw [hBody] at hLength
  exact absurd hLength (by decide)

end HectorCore.Server
