import HectorCore.Server.BodyLength

/-!
# EndOfFile — the peer closes the connection

`ReadRequest` with everything that `select` and `read` can answer. At the end of the file `read`
returns 0, which is appended to the buffer like any other number of bytes: an incomplete request
stays incomplete, and the loop goes round for ever.

`ReadRequest` is called for a new connection or after `Clear`, with what is left of an earlier
request in the buffer. Whether the body is complete is asked with the `int` arithmetic of
`RequestReady` and only when a chunk has come, so that a request of 2 GiB and more can be complete
at the end of the file and yet never be seen complete.

Main results: `requestReady32_received`, `request_ends_or_endless`, `readRequest_ends_iff`,
`requestSeen_iff_of_lt` (below 2 GiB, seen complete is complete).
-/

namespace HectorCore.Server

open Lib (toInt32_of_lt toInt32_le)

/-- What `select` and `read` answer in one turn of the loop. -/
inductive Input where
  /-- `select` returns -1 -/
  | selectError
  /-- `select` returns 0 -/
  | timeout
  /-- `read` returns -1 -/
  | readError
  /-- `read` returns these bytes, none at the end of the file -/
  | chunk (bytes : Bytes)
  deriving DecidableEq, Repr

/-- The loop of `ReadRequest`; behind the inputs there is the end of the file. -/
def Conn.readLoop : Nat → Conn → List Input → Option (Bool × Conn)
  | 0, _, _ => none
  | fuel + 1, conn, inputs =>
    match inputs.headD (.chunk []) with
    | .selectError => some (false, conn)
    | .timeout => some (false, conn)
    | .readError => some (false, conn)
    | .chunk bytes =>
      match { conn with requestBuffer := conn.requestBuffer ++ bytes }.requestReady32 with
      | (.parsed, conn) => some (true, conn)
      | (.failed, conn) => some (false, conn)
      | (.incomplete, conn) => conn.readLoop fuel inputs.tail

/-- `ReadRequest` returns this. -/
def Conn.Ends (conn : Conn) (inputs : List Input) (result : Bool) : Prop :=
  ∃ fuel conn', conn.readLoop fuel inputs = some (result, conn')

-- ---------------------------------------------------------------------------
-- Complete requests
-- ---------------------------------------------------------------------------

/-- Where the header ends, as it is found when a chunk has arrived; `m` bytes are in the buffer
already. -/
def headerEndOfChunks (s : Bytes) : Nat → List Bytes → Option Nat
  | m, [] => headerEnd s m
  | m, chunk :: chunks =>
    match headerEnd s (m + chunk.length) with
    | some bo => some bo
    | none => headerEndOfChunks s (m + chunk.length) chunks

/-- **The bytes contain a complete request**: the end of the header is there, and behind it as many
bytes as the length says, if there is one. -/
def ContainsRequest (buffered : Bytes) (chunks : List Bytes) : Prop :=
  ∃ bo ∈ headerEndOfChunks (buffered ++ chunks.flatten) buffered.length chunks,
    ¬ Waits (buffered ++ chunks.flatten) bo (buffered ++ chunks.flatten).length

instance (buffered : Bytes) (chunks : List Bytes) : Decidable (ContainsRequest buffered chunks) :=
  inferInstanceAs (Decidable (∃ _, _ ∧ _))

/-- The request is read as long as there is something to read, and then the call returns: true if
the request is complete, false otherwise. -/
def EndsWithFile (buffered : Bytes) (chunks : List Bytes) : Prop :=
  ({ Conn.new with requestBuffer := buffered } : Conn).Ends (chunks.map .chunk)
    (decide (ContainsRequest buffered chunks))

/-- The body that begins at `bo` is long enough as an `int` when `m` bytes are in the buffer, or at
the end of one of the chunks to come. -/
def BodySeen (s : Bytes) (bo : Nat) : Nat → List Bytes → Prop
  | m, [] => ¬ Waits32 s bo m
  | m, chunk :: chunks => ¬ Waits32 s bo m ∨ BodySeen s bo (m + chunk.length) chunks

/-- The end of the header is found at the end of some chunk, and from there on the body is long
enough at the end of some chunk. -/
def RequestSeen (s : Bytes) : Nat → List Bytes → Prop
  | m, [] => ∃ bo ∈ headerEnd s m, ¬ Waits32 s bo m
  | m, chunk :: chunks =>
    match headerEnd s (m + chunk.length) with
    | some bo => BodySeen s bo (m + chunk.length) chunks
    | none => RequestSeen s (m + chunk.length) chunks

/-- Fewer bytes are counted than there are. -/
theorem waits32_of_waits {s : Bytes} {bo m : Nat} (hBo : bo ≤ m) (h : Waits s bo m) :
    Waits32 s bo m := by
  have hLe := toInt32_le (m - bo)
  exact ⟨h.1, by have := h.2; omega⟩

/-- A body that is seen complete is complete. -/
theorem not_waits_of_bodySeen {s : Bytes} {bo : Nat} : ∀ (chunks : List Bytes) (m : Nat), bo ≤ m →
    m + chunks.flatten.length = s.length → BodySeen s bo m chunks → ¬ Waits s bo s.length := by
  intro chunks
  have hNow : ∀ m, bo ≤ m → m ≤ s.length → ¬ Waits32 s bo m → ¬ Waits s bo s.length := by
    rintro m hBo hLe hNot ⟨hPos, hFew⟩
    exact hNot (waits32_of_waits hBo ⟨hPos, by omega⟩)
  induction chunks with
  | nil => exact fun m hBo hLength hSeen => hNow m hBo (Nat.le.intro hLength) hSeen
  | cons chunk chunks ih =>
    intro m hBo hLength hSeen
    rw [List.flatten_cons, List.length_append] at hLength
    rcases hSeen with hNot | hSeen
    · exact hNow m hBo (by omega) hNot
    · exact ih (m + chunk.length) (by omega) (by omega) hSeen

/-- A body that is long enough now is seen. -/
theorem bodySeen_of_not_waits32 {s : Bytes} {bo m : Nat} (chunks : List Bytes)
    (h : ¬ Waits32 s bo m) : BodySeen s bo m chunks := by
  cases chunks with
  | nil => exact h
  | cons chunk chunks => exact .inl h

/-- A body that is long enough when all chunks are there is seen. -/
theorem bodySeen_of_last {s : Bytes} {bo m : Nat} (chunks : List Bytes)
    (hLength : m + chunks.flatten.length = s.length) (h : ¬ Waits32 s bo s.length) :
    BodySeen s bo m chunks := by
  induction chunks generalizing m with
  | nil =>
    rw [List.flatten_nil, List.length_nil, Nat.add_zero] at hLength
    rwa [← hLength] at h
  | cons chunk chunks ih =>
    rw [List.flatten_cons, List.length_append, ← Nat.add_assoc] at hLength
    exact .inr (ih hLength)

-- ---------------------------------------------------------------------------
-- One turn
-- ---------------------------------------------------------------------------

/-- The loop goes round for ever. -/
def Conn.Endless (conn : Conn) (inputs : List Input) : Prop :=
  ∀ fuel, conn.readLoop fuel inputs = none

section Turn

variable {conn conn' : Conn} {inputs : List Input} {bytes : Bytes}

theorem ends_of_parsed (hInput : inputs.headD (.chunk []) = .chunk bytes)
    (hReady : { conn with requestBuffer := conn.requestBuffer ++ bytes }.requestReady32 =
      (.parsed, conn')) : conn.Ends inputs true := by
  refine ⟨1, conn', ?_⟩
  rw [Conn.readLoop, hInput]
  simp only [hReady]

theorem ends_of_incomplete (hInput : inputs.headD (.chunk []) = .chunk bytes)
    (hReady : { conn with requestBuffer := conn.requestBuffer ++ bytes }.requestReady32 =
      (.incomplete, conn')) {result : Bool} (h : conn'.Ends inputs.tail result) :
    conn.Ends inputs result := by
  obtain ⟨fuel, last, hRun⟩ := h
  refine ⟨fuel + 1, last, ?_⟩
  rw [Conn.readLoop, hInput]
  simp only [hReady]
  exact hRun

theorem endless_of_incomplete (hInput : inputs.headD (.chunk []) = .chunk bytes)
    (hReady : { conn with requestBuffer := conn.requestBuffer ++ bytes }.requestReady32 =
      (.incomplete, conn')) (h : conn'.Endless inputs.tail) : conn.Endless inputs := by
  intro fuel
  cases fuel with
  | zero => rfl
  | succ fuel =>
    rw [Conn.readLoop, hInput]
    simp only [hReady]
    exact h fuel

/-- A state that an empty read leaves as it is. -/
theorem endless_at_end
    (hReady : { conn with requestBuffer := conn.requestBuffer ++ [] }.requestReady32 =
      (.incomplete, conn)) : conn.Endless [] := by
  intro fuel
  induction fuel with
  | zero => rfl
  | succ fuel ih =>
    rw [Conn.readLoop, List.headD_nil]
    simp only [hReady]
    exact ih

theorem Conn.Endless.not_ends (h : conn.Endless inputs) (result : Bool) :
    ¬ conn.Ends inputs result := by
  rintro ⟨fuel, last, hRun⟩
  rw [h fuel] at hRun
  cases hRun

end Turn

-- ---------------------------------------------------------------------------
-- The whole reading
-- ---------------------------------------------------------------------------

section Reading

variable {s : Bytes} {bo m : Nat} {conn : Conn}

/-- `m` bytes of `s` are in the buffer, and no end of a header has been found. -/
structure Unread (s : Bytes) (m : Nat) (conn : Conn) : Prop where
  buffer : conn.requestBuffer = s.take m
  received : ∀ m', m ≤ m' → Received s m' { conn with requestBuffer := s.take m' }

theorem unread_new (s : Bytes) (m : Nat) :
    Unread s m { Conn.new with requestBuffer := s.take m } :=
  ⟨rfl, fun m' _ => received_new s m'⟩

theorem unread_unparsed (s : Bytes) (m : Nat) : Unread s m (unparsed s m) :=
  ⟨unparsed_buffer s m, fun _ hLe => received_unparsed hLe⟩

/-- The end of the header is among the bytes that have come. -/
theorem headerEnd_le (hEnd : headerEnd s m = some bo) : bo ≤ m := by
  unfold headerEnd at hEnd
  cases hLine : parseRequestLine (s.take m) with
  | none =>
    rw [hLine] at hEnd
    cases hEnd
  | some line =>
    rw [hLine] at hEnd
    obtain ⟨_, _, _, _, hLe⟩ := emptyLine_of_bodyOffset (parseRequestLine_pos hLine) hEnd
    exact hLe

/-- A request that is seen complete is complete. -/
theorem complete_of_requestSeen : ∀ (chunks : List Bytes) (m : Nat),
    m + chunks.flatten.length = s.length → RequestSeen s m chunks →
    ∃ bo ∈ headerEndOfChunks s m chunks, ¬ Waits s bo s.length := by
  intro chunks
  induction chunks with
  | nil =>
    rintro m hLength ⟨bo, hBo, hNot⟩
    exact ⟨bo, hBo, not_waits_of_bodySeen [] m (headerEnd_le hBo) hLength hNot⟩
  | cons chunk chunks ih =>
    intro m hLength hSeen
    rw [List.flatten_cons, List.length_append, ← Nat.add_assoc] at hLength
    rw [headerEndOfChunks]
    rw [RequestSeen] at hSeen
    cases hEnd : headerEnd s (m + chunk.length) with
    | none =>
      rw [hEnd] at hSeen
      exact ih (m + chunk.length) hLength hSeen
    | some bo =>
      rw [hEnd] at hSeen
      exact ⟨bo, rfl, not_waits_of_bodySeen chunks _ (headerEnd_le hEnd) hLength hSeen⟩

/-- **After a chunk**, while the header is incomplete. -/
theorem requestReady32_received (hConn : Received s m conn) (hLe : m ≤ s.length) :
    conn.requestReady32 =
      match headerEnd s m with
      | none => (.incomplete, unparsed s m)
      | some bo => (if Waits32 s bo m then .incomplete else .parsed, parsedAt s bo m) := by
  cases hEnd : headerEnd s m with
  | none =>
    unfold Conn.requestReady32
    rw [parseRequestHeader_received hConn, hEnd]
  | some bo => exact requestReady32_arrived ⟨headerEnd_le hEnd, hLe, .inl ⟨hEnd, hConn⟩⟩

/-- With less than 2 GiB, a request that is complete is seen complete. -/
theorem requestSeen_of_complete (hSmall : s.length < 2 ^ 31) :
    ∀ (chunks : List Bytes) (m : Nat), m + chunks.flatten.length = s.length →
    (∃ bo ∈ headerEndOfChunks s m chunks, ¬ Waits s bo s.length) → RequestSeen s m chunks := by
  have hExact : ∀ bo, bo ≤ s.length → ¬ Waits s bo s.length → ¬ Waits32 s bo s.length := by
    rintro bo hBo hNot ⟨hPos, hFew⟩
    rw [toInt32_of_lt (by omega)] at hFew
    exact hNot ⟨hPos, by omega⟩
  intro chunks
  induction chunks with
  | nil =>
    rintro m hLength ⟨bo, hBo, hNot⟩
    rw [List.flatten_nil, List.length_nil, Nat.add_zero] at hLength
    rw [← hLength] at hExact hNot
    exact ⟨bo, hBo, hExact bo (headerEnd_le hBo) hNot⟩
  | cons chunk chunks ih =>
    rintro m hLength ⟨bo, hBo, hNot⟩
    rw [List.flatten_cons, List.length_append, ← Nat.add_assoc] at hLength
    rw [headerEndOfChunks] at hBo
    rw [RequestSeen]
    cases hEnd : headerEnd s (m + chunk.length) with
    | none =>
      rw [hEnd] at hBo
      exact ih (m + chunk.length) hLength ⟨bo, hBo, hNot⟩
    | some bo' =>
      rw [hEnd] at hBo
      obtain rfl : bo' = bo := Option.some.inj hBo
      have hLe := headerEnd_le hEnd
      exact bodySeen_of_last chunks hLength (hExact bo' (by omega) hNot)

/-- Nothing more comes, and no end of a header is there. -/
theorem endless_unread (hConn : Unread s s.length conn) (hEnd : headerEnd s s.length = none) :
    conn.Endless [] := by
  have hReady := requestReady32_received (hConn.received s.length (Nat.le_refl _)) (Nat.le_refl _)
  have hStays := requestReady32_received (received_unparsed (Nat.le_refl s.length)) (Nat.le_refl _)
  rw [hEnd] at hReady hStays
  have hNothing : { unparsed s s.length with
      requestBuffer := (unparsed s s.length).requestBuffer ++ [] }.requestReady32 =
        (.incomplete, unparsed s s.length) := by
    rw [unparsed_buffer, List.append_nil]
    exact hStays
  have hInput : ([] : List Input).headD (.chunk []) = .chunk [] := rfl
  refine endless_of_incomplete hInput ?_ (endless_at_end hNothing)
  rw [hConn.buffer, List.append_nil]
  exact hReady

/-- Nothing more comes, and the body is not complete. -/
theorem endless_parsedAt (hBo : bo ≤ s.length) (hWaits : Waits32 s bo s.length) :
    (parsedAt s bo s.length).Endless [] := by
  refine endless_at_end ?_
  rw [List.append_nil]
  have hReady : (parsedAt s bo s.length).requestReady32 = _ :=
    requestReady32_arrived ⟨hBo, Nat.le_refl s.length, .inr rfl⟩
  rwa [if_pos hWaits] at hReady

/-- A body that is not complete yet is seen complete at the end of some chunk, or never. -/
theorem body_ends_or_endless : ∀ (chunks : List Bytes) (m : Nat),
    (parseRequestLine (s.take m)).isSome → bo ≤ m → m ≤ s.length → chunks.flatten = s.drop m →
    Waits32 s bo m →
    (BodySeen s bo m chunks → (parsedAt s bo m).Ends (chunks.map .chunk) true) ∧
      (¬ BodySeen s bo m chunks → (parsedAt s bo m).Endless (chunks.map .chunk)) := by
  intro chunks
  induction chunks with
  | nil =>
    intro m hLine hBo hLe hRest hWaits
    have hAll : m = s.length := by
      have hLength := congrArg List.length hRest
      rw [List.length_drop, List.flatten_nil, List.length_nil] at hLength
      omega
    refine ⟨fun hSeen => absurd hWaits hSeen, fun _ => ?_⟩
    rw [hAll] at hBo hWaits ⊢
    exact endless_parsedAt hBo hWaits
  | cons chunk chunks ih =>
    intro m hLine hBo hLe hRest hWaits
    rw [List.flatten_cons] at hRest
    obtain ⟨hTake, hDrop, hLe'⟩ := next_chunk hRest hLe
    have hBo' : bo ≤ m + chunk.length := Nat.le_add_right_of_le hBo
    obtain ⟨line, hLine⟩ := Option.isSome_iff_exists.mp hLine
    have hLine' := parseRequestLine_mono (Nat.le_add_right m chunk.length) hLine
    have hInput : (List.map Input.chunk (chunk :: chunks)).headD (.chunk []) = .chunk chunk := rfl
    have hReady : { parsedAt s bo m with
        requestBuffer := (parsedAt s bo m).requestBuffer ++ chunk }.requestReady32 =
          (if Waits32 s bo (m + chunk.length) then .incomplete else .parsed,
            parsedAt s bo (m + chunk.length)) := by
      rw [parsedAt_buffer, hTake, parsedAt_fill (Nat.le_add_right m chunk.length) hLine]
      exact requestReady32_arrived ⟨hBo', hLe', .inr rfl⟩
    have hSeen : BodySeen s bo m (chunk :: chunks) ↔ BodySeen s bo (m + chunk.length) chunks :=
      or_iff_right (not_not_intro hWaits)
    rw [hSeen]
    by_cases hWaits' : Waits32 s bo (m + chunk.length)
    · rw [if_pos hWaits'] at hReady
      obtain ⟨hEnds, hEndless⟩ := ih (m + chunk.length) (by rw [hLine']; rfl) hBo' hLe'
        hDrop hWaits'
      exact ⟨fun hSeen => ends_of_incomplete hInput hReady (hEnds hSeen),
        fun hNever => endless_of_incomplete hInput hReady (hEndless hNever)⟩
    · rw [if_neg hWaits'] at hReady
      exact ⟨fun _ => ends_of_parsed hInput hReady,
        fun hNever => absurd (bodySeen_of_not_waits32 chunks hWaits') hNever⟩

/-- **The header and the body** are seen complete at the end of some chunk, or the loop has no
end. -/
theorem request_ends_or_endless : ∀ (chunks : List Bytes) (m : Nat) (conn : Conn),
    Unread s m conn → m ≤ s.length → chunks.flatten = s.drop m →
    (RequestSeen s m chunks → conn.Ends (chunks.map .chunk) true) ∧
      (¬ RequestSeen s m chunks → conn.Endless (chunks.map .chunk)) := by
  intro chunks
  induction chunks with
  | nil =>
    intro m conn hConn hLe hRest
    -- everything has arrived, and every further read returns nothing
    have hAll : m = s.length := by
      have hLength := congrArg List.length hRest
      rw [List.length_drop, List.flatten_nil, List.length_nil] at hLength
      omega
    rw [hAll] at hConn ⊢
    have hInput : ([] : List Input).headD (.chunk []) = .chunk [] := rfl
    have hReady := requestReady32_received (hConn.received s.length (Nat.le_refl _)) (Nat.le_refl _)
    rw [← hConn.buffer, ← List.append_nil conn.requestBuffer] at hReady
    rw [RequestSeen]
    cases hEnd : headerEnd s s.length with
    | none =>
      refine ⟨?_, fun _ => endless_unread hConn hEnd⟩
      rintro ⟨bo, hBo, -⟩
      cases hBo
    | some bo =>
      rw [hEnd] at hReady
      dsimp only at hReady
      by_cases hWaits : Waits32 s bo s.length
      · rw [if_pos hWaits] at hReady
        refine ⟨?_, fun _ => endless_of_incomplete hInput hReady
          (endless_parsedAt (headerEnd_le hEnd) hWaits)⟩
        rintro ⟨bo', hBo', hNot⟩
        obtain rfl : bo = bo' := Option.some.inj hBo'
        exact absurd hWaits hNot
      · -- the chunk before has completed the request
        rw [if_neg hWaits] at hReady
        exact ⟨fun _ => ends_of_parsed hInput hReady, fun hNone => absurd ⟨bo, rfl, hWaits⟩ hNone⟩
  | cons chunk chunks ih =>
    intro m conn hConn hLe hRest
    rw [List.flatten_cons] at hRest
    obtain ⟨hTake, hDrop, hLe'⟩ := next_chunk hRest hLe
    have hInput : (List.map Input.chunk (chunk :: chunks)).headD (.chunk []) = .chunk chunk := rfl
    have hReady := requestReady32_received
      (hConn.received _ (Nat.le_add_right m chunk.length)) hLe'
    rw [← hTake, ← hConn.buffer] at hReady
    rw [RequestSeen]
    cases hEnd : headerEnd s (m + chunk.length) with
    | none =>
      -- the header goes on in a later chunk
      rw [hEnd] at hReady
      obtain ⟨hEnds, hEndless⟩ := ih (m + chunk.length) _ (unread_unparsed s _) hLe' hDrop
      exact ⟨fun hSeen => ends_of_incomplete hInput hReady (hEnds hSeen),
        fun hNever => endless_of_incomplete hInput hReady (hEndless hNever)⟩
    | some bo =>
      rw [hEnd] at hReady
      dsimp only at hReady ⊢
      by_cases hWaits : Waits32 s bo (m + chunk.length)
      · -- the header is complete, and the body is awaited
        rw [if_pos hWaits] at hReady
        obtain ⟨hEnds, hEndless⟩ := body_ends_or_endless chunks (m + chunk.length)
          (line_of_headerEnd hEnd) (headerEnd_le hEnd) hLe' hDrop hWaits
        exact ⟨fun hSeen => ends_of_incomplete hInput hReady (hEnds hSeen),
          fun hNever => endless_of_incomplete hInput hReady (hEndless hNever)⟩
      · rw [if_neg hWaits] at hReady
        exact ⟨fun _ => ends_of_parsed hInput hReady,
          fun hNever => absurd (bodySeen_of_not_waits32 chunks hWaits) hNever⟩

end Reading

/-- **ReadRequest comes back at the end of the file** if and only if the request is seen complete
at the end of some chunk, and then with true. -/
theorem readRequest_ends_iff (buffered : Bytes) (chunks : List Bytes) :
    EndsWithFile buffered chunks ↔
      RequestSeen (buffered ++ chunks.flatten) buffered.length chunks := by
  have hUnread : Unread (buffered ++ chunks.flatten) buffered.length
      { Conn.new with requestBuffer := buffered } := by
    have hNew := unread_new (buffered ++ chunks.flatten) buffered.length
    rwa [List.take_left] at hNew
  have hLength : buffered.length + chunks.flatten.length = (buffered ++ chunks.flatten).length :=
    List.length_append.symm
  obtain ⟨hEnds, hEndless⟩ := request_ends_or_endless chunks buffered.length _ hUnread
    (Nat.le.intro hLength) (by rw [List.drop_left])
  unfold EndsWithFile
  by_cases hSeen : RequestSeen (buffered ++ chunks.flatten) buffered.length chunks
  · have hComplete : ContainsRequest buffered chunks :=
      complete_of_requestSeen chunks buffered.length hLength hSeen
    rw [decide_eq_true hComplete]
    exact iff_of_true (hEnds hSeen) hSeen
  · exact iff_of_false ((hEndless hSeen).not_ends _) hSeen

/-- A request of less than 2 GiB is seen complete if and only if it is. -/
theorem requestSeen_iff_of_lt {buffered : Bytes} {chunks : List Bytes}
    (hSmall : (buffered ++ chunks.flatten).length < 2 ^ 31) :
    RequestSeen (buffered ++ chunks.flatten) buffered.length chunks ↔
      ContainsRequest buffered chunks :=
  ⟨complete_of_requestSeen chunks buffered.length List.length_append.symm,
    requestSeen_of_complete hSmall chunks buffered.length List.length_append.symm⟩

/-- A client that closes a connection on which it has sent nothing more. -/
theorem readRequest_endless :
    ¬ ContainsRequest [] [] ∧ ¬ EndsWithFile [] [] ∧ ∀ fuel, Conn.new.readLoop fuel [] = none := by
  have hEndless : Conn.new.Endless [] := endless_at_end rfl
  exact ⟨by decide, hEndless.not_ends _, hEndless⟩

end HectorCore.Server
