import HectorCore.Server.Chunks

/-!
# KeepAlive — the requests of one connection

`SimpleHTTPServer::Request` reads request after request from one connection, with
`SimpleHTTPConn::Clear` in between. What has been read behind the body of a request belongs to the
next one, and `Clear` has to keep it. It computes how many bytes that is, and then keeps all *but*
the first so many bytes of the buffer.

* `headerEnd_request`, `fieldsOf_request` — where the header of a request ends and what its lines
  say, whatever follows the request;
* `Pending`, `requestReady_request` — a connection in the middle of a request;
* `clear_keeps_iff`  — `Clear` is right when nothing has to be kept, or as many bytes as the
  request itself has;
* `requests_seen_iff` — so the requests are seen one by one exactly when every request that is
  complete is followed by nothing, or by as many bytes as it has itself.
-/

namespace HectorCore.Server

open Lib (find substr OccursAt)

-- ---------------------------------------------------------------------------
-- The loop
-- ---------------------------------------------------------------------------

/-- `Clear` -/
def Conn.clear (conn : Conn) : Conn :=
  let preserve : Int :=
    if 0 ≤ conn.requestBodyLength then
      conn.requestBuffer.length - conn.requestBodyOffset.getD 0 - conn.requestBodyLength
    else 0
  { Conn.new with
    requestBuffer := if 0 < preserve then conn.requestBuffer.drop preserve.toNat else [] }

/-- A request as it is handed to `HandleRequest`, all that has been read until then, and the
connection after `Clear`, if it is kept alive. -/
structure Handled where
  conn : Conn
  received : Bytes
  cleared : Option Conn

/-- `SimpleHTTPServer::Request` on a connection from which `received` has been read, and the
chunks that are to come: one turn for each `read`. -/
def serve : Bytes → Conn → List Bytes → List Handled
  | _, _, [] => []
  | received, conn, chunk :: chunks =>
    match { conn with requestBuffer := conn.requestBuffer ++ chunk }.requestReady with
    | (.incomplete, conn) => serve (received ++ chunk) conn chunks
    | (.failed, _) => []
    | (.parsed, conn) =>
      if conn.keepAlive then
        ⟨conn, received ++ chunk, some conn.clear⟩ :: serve (received ++ chunk) conn.clear chunks
      else [⟨conn, received ++ chunk, none⟩]

/-- The first request that is handed out is the one that `ReadRequest` returns. -/
theorem head_serve (received : Bytes) (conn : Conn) (chunks : List Bytes) :
    (serve received conn chunks).head?.map Handled.conn = conn.readRequest chunks := by
  induction chunks generalizing received conn with
  | nil => rfl
  | cons chunk chunks ih =>
    rw [serve, Conn.readRequest]
    generalize { conn with requestBuffer := conn.requestBuffer ++ chunk }.requestReady = ready
    obtain ⟨status, conn⟩ := ready
    cases status with
    | incomplete => exact ih _ _
    | failed => rfl
    | parsed =>
      dsimp only
      split <;> rfl

-- ---------------------------------------------------------------------------
-- Requests
-- ---------------------------------------------------------------------------

def crlf : Bytes := [13, 10]

/-- The lines of a header, and the empty one. -/
def renderHeader : List Bytes → Bytes
  | [] => crlf
  | line :: lines => line ++ crlf ++ renderHeader lines

/-- The first line and the lines of the header, and the body. -/
structure Request where
  line : Bytes
  header : List Bytes
  body : Bytes

namespace Request

def headerBytes (r : Request) : Bytes := renderHeader (r.line :: r.header)

def bytes (r : Request) : Bytes := r.headerBytes ++ r.body

/-- What the lines of the header say. -/
def fields (r : Request) : HeaderFields := (r.header.foldl Fields.addLine Fields.new).store

/-- No line is empty or contains the end of a line; `Content-Length` is the length of the body,
and `Connection` is `keep-alive`. -/
structure WellFormed (r : Request) : Prop where
  lines : ∀ line ∈ r.line :: r.header, line ≠ [] ∧ 13 ∉ line ∧ 10 ∉ line
  contentLength : bodyLength r.fields = r.body.length
  keepAlive : ∃ value, r.fields connection = some value ∧ isKeepAlive value = true

/-- The connection shows this request to `HandleRequest`. -/
structure Shown (r : Request) (conn : Conn) : Prop where
  line : ∃ line, parseRequestLine r.bytes = some line ∧ conn.requestMethod = line.method ∧
    conn.requestArgs = line.args
  headerFields : conn.headerFields = some r.fields
  body : conn.getRequestBody = r.body

end Request

/-- The lines of a header are not empty and contain no end of a line. -/
def Plain (lines : List Bytes) : Prop := ∀ line ∈ lines, line ≠ [] ∧ 13 ∉ line ∧ 10 ∉ line

/-- The lines of a header are not empty and contain no newline. -/
def Unbroken (lines : List Bytes) : Prop := ∀ line ∈ lines, line ≠ [] ∧ 10 ∉ line

theorem Plain.unbroken {lines : List Bytes} (h : Plain lines) : Unbroken lines :=
  fun line hLine => ⟨(h line hLine).1, (h line hLine).2.2⟩

theorem Unbroken.tail {line : Bytes} {lines : List Bytes} (h : Unbroken (line :: lines)) :
    Unbroken lines :=
  fun line' hLine => h line' (List.mem_cons_of_mem line hLine)

-- ---------------------------------------------------------------------------
-- The ends of lines
-- ---------------------------------------------------------------------------

variable {lines : List Bytes} {line t : Bytes}

theorem length_renderHeader_cons (line : Bytes) (lines : List Bytes) :
    (renderHeader (line :: lines)).length = line.length + 2 + (renderHeader lines).length := by
  rw [renderHeader, List.length_append, List.length_append]
  rfl

theorem two_le_length_renderHeader (lines : List Bytes) : 2 ≤ (renderHeader lines).length := by
  cases lines with
  | nil => exact Nat.le_refl 2
  | cons line lines =>
    rw [length_renderHeader_cons]
    omega

/-- Every line has an end of its own. -/
theorem length_le_renderHeader (lines : List Bytes) :
    lines.length ≤ (renderHeader lines).length := by
  induction lines with
  | nil => exact Nat.zero_le _
  | cons line lines ih =>
    rw [length_renderHeader_cons, List.length_cons]
    omega

/-- The bytes of a line, its end, and what is behind it. -/
theorem getElem?_renderHeader_cons (line : Bytes) (lines : List Bytes) (t : Bytes) (q : Nat) :
    (renderHeader (line :: lines) ++ t)[q]? =
      if q < line.length then (line)[q]?
      else if q = line.length then some 13
      else if q = line.length + 1 then some 10
      else (renderHeader lines ++ t)[q - (line.length + 2)]? := by
  rw [renderHeader, List.append_assoc, List.append_assoc]
  split
  · rename_i hIn
    exact List.getElem?_append_left hIn
  · rename_i hOut
    rw [List.getElem?_append_right (by omega)]
    split
    · rename_i hCr
      rw [hCr, Nat.sub_self]
      rfl
    · split
      · rename_i hLf
        rw [hLf, Nat.add_sub_cancel_left]
        rfl
      · have hLength : crlf.length = 2 := rfl
        rw [List.getElem?_append_right (by omega), hLength, Nat.sub_sub]

/-- A line does not begin with the end of a line. -/
theorem first_bytes (h : Unbroken (line :: lines)) :
    ¬ ((renderHeader (line :: lines) ++ t)[0]? = some 13 ∧
        (renderHeader (line :: lines) ++ t)[1]? = some 10) ∧
      (renderHeader (line :: lines) ++ t)[0]? ≠ some 10 := by
  obtain ⟨hNe, hLf⟩ := h line List.mem_cons_self
  have hPos := List.length_pos_of_ne_nil hNe
  constructor
  · rintro ⟨-, hNewline⟩
    rw [getElem?_renderHeader_cons] at hNewline
    rcases Nat.lt_or_ge 1 line.length with hIn | hEnd
    · rw [if_pos hIn] at hNewline
      exact hLf (List.mem_of_getElem? hNewline)
    · rw [if_neg (by omega), if_pos (by omega)] at hNewline
      exact absurd hNewline (by decide)
  · rw [getElem?_renderHeader_cons, if_pos hPos]
    exact fun hc => hLf (List.mem_of_getElem? hc)

/-- **No empty line but the last one.** -/
theorem bytes_after_newline (h : Unbroken lines) {q : Nat}
    (hNewline : (renderHeader lines ++ t)[q]? = some 10)
    (hq : q + 3 < (renderHeader lines).length) :
    ¬ ((renderHeader lines ++ t)[q + 1]? = some 13 ∧ (renderHeader lines ++ t)[q + 2]? = some 10) ∧
      (renderHeader lines ++ t)[q + 1]? ≠ some 10 := by
  induction lines generalizing q with
  | nil => exact absurd hq (by simp [renderHeader, crlf])
  | cons line lines ih =>
    obtain ⟨-, hLf⟩ := h line List.mem_cons_self
    rw [length_renderHeader_cons] at hq
    rw [getElem?_renderHeader_cons] at hNewline
    rcases Nat.lt_or_ge q (line.length + 2) with hIn | hOut
    · -- the newline of this line; the next one is not the empty one
      obtain rfl : q = line.length + 1 := by
        by_contra hNe
        rcases Nat.lt_or_ge q line.length with hLine | hEnd
        · rw [if_pos hLine] at hNewline
          exact hLf (List.mem_of_getElem? hNewline)
        · rw [if_neg (by omega), if_pos (by omega)] at hNewline
          exact absurd hNewline (by decide)
      have hShift : line.length + 1 + 1 - (line.length + 2) = 0 := by omega
      have hShift' : line.length + 1 + 2 - (line.length + 2) = 1 := by omega
      rw [getElem?_renderHeader_cons, getElem?_renderHeader_cons, if_neg (by omega),
        if_neg (by omega), if_neg (by omega), if_neg (by omega), if_neg (by omega),
        if_neg (by omega), hShift, hShift']
      cases lines with
      | nil => exact absurd hq (by simp [renderHeader, crlf])
      | cons line' lines => exact first_bytes h.tail
    · rw [if_neg (by omega), if_neg (by omega), if_neg (by omega)] at hNewline
      have hShift : q + 1 - (line.length + 2) = q - (line.length + 2) + 1 := by omega
      have hShift' : q + 2 - (line.length + 2) = q - (line.length + 2) + 2 := by omega
      rw [getElem?_renderHeader_cons, getElem?_renderHeader_cons, if_neg (by omega),
        if_neg (by omega), if_neg (by omega), if_neg (by omega), if_neg (by omega),
        if_neg (by omega), hShift, hShift']
      exact ih h.tail hNewline (by omega)

/-- The header ends with an empty line. -/
theorem renderHeader_ends (line : Bytes) (lines : List Bytes) :
    ∃ front, renderHeader (line :: lines) = front ++ crlfCrlf ∧ line.length ≤ front.length := by
  induction lines generalizing line with
  | nil => exact ⟨line, List.append_assoc .., Nat.le_refl _⟩
  | cons line' lines ih =>
    obtain ⟨front, hEnds, -⟩ := ih line'
    refine ⟨line ++ crlf ++ front, ?_, ?_⟩
    · rw [renderHeader, hEnds, List.append_assoc (line ++ crlf)]
    · rw [List.length_append, List.length_append]
      omega

/-- The last three bytes of a header. -/
theorem last_bytes (line : Bytes) (lines : List Bytes) (t : Bytes) :
    (renderHeader (line :: lines) ++ t)[(renderHeader (line :: lines)).length - 2]? = some 13 ∧
      OccursAt (renderHeader (line :: lines) ++ t) crlfCrlf
        ((renderHeader (line :: lines)).length - 4) := by
  obtain ⟨front, hEnds, -⟩ := renderHeader_ends line lines
  have hLength : (renderHeader (line :: lines)).length = front.length + 4 := by
    rw [hEnds, List.length_append]
    rfl
  have hOccurs : OccursAt (renderHeader (line :: lines) ++ t) crlfCrlf front.length := by
    refine ⟨t, ?_⟩
    rw [hEnds, List.append_assoc, List.drop_left]
  have hCr := hOccurs.getElem? (i := 2) (by decide)
  refine ⟨?_, ?_⟩
  · rw [hLength]
    exact hCr
  · rw [hLength]
    exact hOccurs

/-- The newline of a line that begins at `p`. -/
theorem find_newline {s : Bytes} {p : Nat} (hLine : line ++ crlf ++ t = s.drop p)
    (hLf : 10 ∉ line) : find s lf p = some (p + line.length + 1) := by
  have hByte : ∀ i, s[p + i]? = (line ++ crlf ++ t)[i]? := by
    intro i
    rw [← List.getElem?_drop, hLine]
  refine (Lib.find_eq_some_iff lf_ne_nil).mpr ⟨by omega, ?_, fun q hq hLt hThere => ?_⟩
  · refine Lib.occursAt_singleton.mpr ?_
    rw [Nat.add_assoc, hByte, List.append_assoc, List.getElem?_append_right (by omega),
      Nat.add_sub_cancel_left]
    rfl
  · have hNewline := Lib.occursAt_singleton.mp hThere
    obtain ⟨i, rfl⟩ : ∃ i, q = p + i := ⟨q - p, by omega⟩
    rw [hByte, List.append_assoc] at hNewline
    rcases Nat.lt_or_ge i line.length with hIn | hEnd
    · rw [List.getElem?_append_left hIn] at hNewline
      exact hLf (List.mem_of_getElem? hNewline)
    · obtain rfl : i = line.length := by omega
      rw [List.getElem?_append_right (Nat.le_refl _), Nat.sub_self] at hNewline
      exact absurd hNewline (by simp [crlf])

/-- The end of such a line. -/
theorem lineEnd_crlf {s : Bytes} {p : Nat} (hLine : line ++ crlf ++ t = s.drop p) :
    lineEnd s (p + line.length + 1) = p + line.length := by
  have hCr : s[p + line.length]? = some 13 := by
    rw [← List.getElem?_drop, ← hLine, List.append_assoc,
      List.getElem?_append_right (Nat.le_refl _), Nat.sub_self]
    rfl
  unfold lineEnd
  rw [if_pos ⟨by omega, by rw [Nat.add_sub_cancel]; exact hCr⟩]
  omega

/-- **The loop over the header** sees the lines, one by one. -/
theorem parseFields_lines (h : Unbroken lines) {s : Bytes} {bo fuel p : Nat} (f : Fields)
    (hLines : renderHeader lines ++ t = s.drop p) (hBo : p + (renderHeader lines).length ≤ bo)
    (hFuel : lines.length < fuel) :
    parseFields s bo fuel p f = some (lines.foldl Fields.addLine f) := by
  induction lines generalizing p fuel f with
  | nil =>
    obtain ⟨fuel, rfl⟩ : ∃ i, fuel = i + 1 := ⟨fuel - 1, by omega⟩
    have hEmpty : [] ++ crlf ++ t = s.drop p := hLines
    have hLength : (renderHeader []).length = 2 := rfl
    have hFind := find_newline hEmpty (by simp)
    have hEnd := lineEnd_crlf hEmpty
    rw [parseFields, if_pos (by omega), hFind]
    dsimp only
    rw [hEnd]
    exact if_pos rfl
  | cons line lines ih =>
    obtain ⟨fuel, rfl⟩ : ∃ i, fuel = i + 1 := ⟨fuel - 1, by rw [List.length_cons] at hFuel; omega⟩
    obtain ⟨hNe, hLf⟩ := h line List.mem_cons_self
    have hPos := List.length_pos_of_ne_nil hNe
    have hLine : line ++ crlf ++ (renderHeader lines ++ t) = s.drop p := by
      rw [← hLines, renderHeader, List.append_assoc (line ++ crlf)]
    rw [length_renderHeader_cons] at hBo
    have hRest : renderHeader lines ++ t = s.drop (p + line.length + 2) := by
      have hLength : (line ++ crlf).length = line.length + 2 := by
        rw [List.length_append]
        rfl
      rw [Nat.add_assoc, ← List.drop_drop, ← hLine, ← hLength, List.drop_left]
    have hField : substr s p line.length = line := by
      unfold substr
      rw [← hLine, List.append_assoc, List.take_left]
    have hDistance : p + line.length - p = line.length := by omega
    rw [parseFields, if_pos (by omega), find_newline hLine hLf]
    dsimp only
    rw [lineEnd_crlf hLine, if_neg (by omega), hDistance, hField]
    exact ih h.tail _ hRest (by omega) (by rw [List.length_cons] at hFuel; omega)

-- ---------------------------------------------------------------------------
-- A request, whatever follows it
-- ---------------------------------------------------------------------------

section Request

variable {r : Request}

theorem Request.WellFormed.plain (h : r.WellFormed) : Plain (r.line :: r.header) := h.lines

theorem Request.WellFormed.unbroken (h : r.WellFormed) : Unbroken (r.line :: r.header) :=
  h.plain.unbroken

theorem Request.headerBytes_le (r : Request) : r.headerBytes.length ≤ r.bytes.length := by
  rw [Request.bytes, List.length_append]
  omega

theorem Request.four_le (r : Request) : r.line.length + 4 ≤ r.headerBytes.length := by
  have := length_renderHeader_cons r.line r.header
  have := two_le_length_renderHeader r.header
  unfold Request.headerBytes
  omega

theorem Request.bytes_header (r : Request) (t : Bytes) :
    r.bytes ++ t = renderHeader (r.line :: r.header) ++ (r.body ++ t) := by
  rw [Request.bytes, Request.headerBytes, List.append_assoc]

/-- The first line of a request, and what follows it. -/
theorem Request.bytes_split (r : Request) (t : Bytes) :
    r.line ++ crlf ++ (renderHeader r.header ++ (r.body ++ t)) = (r.bytes ++ t).drop 0 := by
  rw [List.drop_zero, Request.bytes, Request.headerBytes, renderHeader]
  simp only [List.append_assoc]

theorem Request.find_first (h : Unbroken (r.line :: r.header)) (t : Bytes) :
    find (r.bytes ++ t) lf 0 = some (r.line.length + 1) := by
  have hFind := find_newline (r.bytes_split t) (h r.line List.mem_cons_self).2
  rwa [Nat.zero_add] at hFind

theorem Request.parseRequestLine_eq (h : Unbroken (r.line :: r.header)) (t : Bytes) :
    ∃ line, parseRequestLine (r.bytes ++ t) = some line ∧ line.headerOffset =
      r.line.length + 2 := by
  unfold parseRequestLine
  rw [r.find_first h t]
  exact ⟨_, rfl, headerOffset_requestLineAt _ _⟩

/-- The empty line. -/
theorem Request.findCrlf_eq (h : Unbroken (r.line :: r.header)) (t : Bytes) :
    findCrlf (r.bytes ++ t) (r.line.length + 2) = some (r.headerBytes.length - 4) := by
  have hLength := r.four_le
  unfold findCrlf
  rw [if_neg (by omega), Nat.add_sub_cancel, r.bytes_header]
  refine (Lib.find_eq_some_iff crlfCrlf_ne_nil).mpr ⟨by omega, (last_bytes _ _ _).2, ?_⟩
  intro q hq hLt hThere
  have hNewline := hThere.getElem? (i := 1) (by decide)
  have hCr := hThere.getElem? (i := 2) (by decide)
  have hLf := hThere.getElem? (i := 3) (by decide)
  have hLater : q + 1 + 3 < (renderHeader (r.line :: r.header)).length := by
    unfold Request.headerBytes at hLt hLength
    omega
  exact (bytes_after_newline h hNewline hLater).1 ⟨hCr, hLf⟩

/-- There is no other empty line in the header. -/
theorem Request.findLf_ge (h : Unbroken (r.line :: r.header)) {t : Bytes} {n : Nat}
    (hFind : findLf (r.bytes ++ t) (r.line.length + 2) = some n) :
    r.headerBytes.length ≤ n + 1 := by
  obtain ⟨-, hThere, -⟩ := (Lib.find_eq_some_iff lfLf_ne_nil).mp hFind
  rw [r.bytes_header] at hThere
  have hFirst := hThere.getElem? (i := 0) (by decide)
  have hSecond := hThere.getElem? (i := 1) (by decide)
  by_contra hLt
  unfold Request.headerBytes at hLt
  have hCr := (last_bytes r.line r.header (r.body ++ t)).1
  have hLength := two_le_length_renderHeader (r.line :: r.header)
  rcases Nat.lt_or_ge (n + 3) (renderHeader (r.line :: r.header)).length with hIn | hEnd
  · exact (bytes_after_newline h hFirst hIn).2 hSecond
  · -- one of the two is the carriage return of the empty line
    obtain hAt | hAt : n = (renderHeader (r.line :: r.header)).length - 2 ∨
        n + 1 = (renderHeader (r.line :: r.header)).length - 2 := by omega
    · rw [← hAt] at hCr
      rw [Nat.add_zero, hCr] at hFirst
      exact absurd hFirst (by decide)
    · rw [← hAt, hSecond] at hCr
      exact absurd hCr (by decide)

/-- **The end of the header** has arrived, or it has not. -/
theorem headerEnd_request (h : Unbroken (r.line :: r.header)) (t : Bytes) (m : Nat) :
    headerEnd (r.bytes ++ t) m =
      if r.headerBytes.length ≤ m then some r.headerBytes.length else none := by
  obtain ⟨line, hLine, hOffset⟩ := r.parseRequestLine_eq h t
  have hCrlf := r.findCrlf_eq h t
  have hFour := r.four_le
  split
  · refine headerEnd_eq_some.mpr ⟨line, hLine, .inl ⟨r.headerBytes.length - 4, ?_, ?_, ?_⟩⟩
    · rw [hOffset]
      exact hCrlf
    · omega
    · omega
  · refine (headerEnd_eq_none hLine).mpr ⟨fun a ha => ?_, fun n hn => ?_⟩
    · rw [hOffset, hCrlf] at ha
      have := Option.some.inj ha
      omega
    · rw [hOffset] at hn
      have := r.findLf_ge h hn
      omega

/-- **The header fields** are those of the lines. -/
theorem fieldsOf_request (h : Unbroken (r.line :: r.header)) (t : Bytes) :
    fieldsOf (r.bytes ++ t) = r.fields := by
  obtain ⟨line, hLine, hOffset⟩ := r.parseRequestLine_eq h t
  have hLength : (r.line ++ crlf).length = r.line.length + 2 := by
    rw [List.length_append]
    rfl
  have hLines : renderHeader r.header ++ (r.body ++ t) =
      (r.bytes ++ t).drop (r.line.length + 2) := by
    rw [← List.drop_zero (l := r.bytes ++ t), ← r.bytes_split t, ← hLength, List.drop_left]
  have hInside : r.line.length + 2 + (renderHeader r.header).length ≤ (r.bytes ++ t).length := by
    have := length_renderHeader_cons r.line r.header
    have := r.headerBytes_le
    rw [List.length_append]
    unfold Request.headerBytes at this
    omega
  have hCount : r.header.length < (r.bytes ++ t).length + 1 := by
    have := length_le_renderHeader r.header
    omega
  unfold fieldsOf
  rw [hLine]
  dsimp only
  rw [hOffset, parseFields_lines h.tail Fields.new hLines hInside hCount]
  rfl

-- ---------------------------------------------------------------------------
-- A connection in the middle of a request
-- ---------------------------------------------------------------------------

/-- `m` bytes of `s` are in the buffer; whatever comes next, the connection is ready when a new
connection that has received as much is. -/
structure Pending (s : Bytes) (m : Nat) (conn : Conn) : Prop where
  buffer : conn.requestBuffer = s.take m
  ready : ∀ m', m ≤ m' → m' ≤ s.length →
    { conn with requestBuffer := s.take m' }.requestReady =
      { Conn.new with requestBuffer := s.take m' }.requestReady

theorem pending_new (s : Bytes) (m : Nat) :
    Pending s m { Conn.new with requestBuffer := s.take m } := ⟨rfl, fun _ _ _ => rfl⟩

theorem received_new (s : Bytes) (m : Nat) :
    Received s m { Conn.new with requestBuffer := s.take m } := by
  have h := received_unparsed (s := s) (Nat.zero_le m)
  rwa [unparsed_zero] at h

/-- Before the end of the header. -/
theorem pending_unparsed (s : Bytes) (m : Nat) : Pending s m (unparsed s m) := by
  refine ⟨unparsed_buffer s m, fun m' hLe hIn => ?_⟩
  rw [requestReady_received (received_unparsed hLe) hIn,
    requestReady_received (received_new s m') hIn]

variable {s : Bytes}

/-- In the body. -/
theorem pending_parsedAt {m bo : Nat} (hEnd : ∀ m', m ≤ m' → headerEnd s m' = some bo) :
    Pending s m (parsedAt s bo m) := by
  obtain ⟨line, hLine⟩ :=
    Option.isSome_iff_exists.mp (line_of_headerEnd (hEnd m (Nat.le_refl m)))
  refine ⟨?_, fun m' hLe hIn => ?_⟩
  · obtain ⟨keep, fields', -, hEq⟩ := parsedAt_eq s
    rw [hEq]
    exact unparsed_buffer s m
  · rw [parsedAt_fill hLe hLine, requestReady_parsedAt hIn,
      requestReady_received (received_new s m') hIn, hEnd m' hLe]

/-- **After a chunk**: a request is ready when all of it is there. -/
theorem requestReady_request (h : r.WellFormed) (t : Bytes) {m : Nat}
    (hIn : m ≤ (r.bytes ++ t).length) :
    (m < r.bytes.length → ∃ conn,
      { Conn.new with requestBuffer := (r.bytes ++ t).take m }.requestReady = (.incomplete, conn) ∧
        Pending (r.bytes ++ t) m conn) ∧
    (r.bytes.length ≤ m →
      { Conn.new with requestBuffer := (r.bytes ++ t).take m }.requestReady =
        (.parsed, parsedAt (r.bytes ++ t) r.headerBytes.length m)) := by
  have hLength : lengthOf (r.bytes ++ t) = r.body.length := by
    unfold lengthOf
    rw [fieldsOf_request h.unbroken t, h.contentLength]
  have hBytes : r.bytes.length = r.headerBytes.length + r.body.length := by
    rw [Request.bytes, List.length_append]
  have hReady := requestReady_received (received_new (r.bytes ++ t) m) hIn
  rw [headerEnd_request h.unbroken t] at hReady
  constructor
  · intro hLt
    by_cases hHeader : r.headerBytes.length ≤ m
    · rw [if_pos hHeader] at hReady
      have hWaits : Waits (r.bytes ++ t) r.headerBytes.length m := by
        unfold Waits
        omega
      dsimp only at hReady
      rw [if_pos hWaits] at hReady
      refine ⟨_, hReady, pending_parsedAt fun m' hLe => ?_⟩
      rw [headerEnd_request h.unbroken t, if_pos (by omega)]
    · rw [if_neg hHeader] at hReady
      exact ⟨_, hReady, pending_unparsed _ _⟩
  · intro hLe
    have hNot : ¬ Waits (r.bytes ++ t) r.headerBytes.length m := by
      unfold Waits
      omega
    rw [if_pos (by omega)] at hReady
    dsimp only at hReady
    rwa [if_neg hNot] at hReady

-- ---------------------------------------------------------------------------
-- Clear
-- ---------------------------------------------------------------------------

/-- The connection when a request is there. -/
theorem parsedAt_request (h : r.WellFormed) (t : Bytes) (m : Nat) :
    parsedAt (r.bytes ++ t) r.headerBytes.length m =
      { unparsed (r.bytes ++ t) m with
        requestBodyOffset := some r.headerBytes.length, requestBodyLength := r.body.length
        headerFields := some r.fields, keepAlive := true } := by
  obtain ⟨value, hField, hKeep⟩ := h.keepAlive
  have hPos : 0 ≤ bodyLength r.fields := by
    rw [h.contentLength]
    omega
  unfold parsedAt Conn.setFields
  rw [fieldsOf_request h.unbroken t, hField]
  dsimp only
  rw [hKeep, if_pos rfl, if_pos hPos, h.contentLength]

/-- **A request is handed out as it was sent.** -/
theorem shown_request (h : r.WellFormed) (t : Bytes) {m : Nat} (hLe : r.bytes.length ≤ m) :
    r.Shown (parsedAt (r.bytes ++ t) r.headerBytes.length m) := by
  have hAlone : (r.bytes ++ t).take r.bytes.length = r.bytes := List.take_left
  obtain ⟨line, hLine, hOffset⟩ := r.parseRequestLine_eq h.unbroken t
  have hFour := r.four_le
  have hHeader := r.headerBytes_le
  have hHere : parseRequestLine ((r.bytes ++ t).take m) = some line :=
    parseRequestLine_take.mpr ⟨hLine, by omega⟩
  rw [parsedAt_request h t]
  refine ⟨⟨line, ?_, ?_, ?_⟩, rfl, ?_⟩
  · rw [← hAlone]
    exact parseRequestLine_take.mpr ⟨hLine, by omega⟩
  · unfold unparsed
    rw [hHere]
  · unfold unparsed
    rw [hHere]
  · unfold Conn.getRequestBody
    dsimp only [Option.getD_some]
    rw [if_pos (by omega), unparsed_buffer, Int.toNat_natCast]
    have hBytes : r.bytes.length = r.headerBytes.length + r.body.length := by
      rw [Request.bytes, List.length_append]
    rw [Lib.substr_take (by omega), substr, Request.bytes, List.append_assoc, List.drop_left,
      List.take_left]

/-- What `Clear` leaves: all but the first bytes, as many as there are behind the request. -/
theorem clear_request (h : r.WellFormed) (t : Bytes) {m : Nat} (hLe : r.bytes.length ≤ m)
    (hIn : m ≤ (r.bytes ++ t).length) :
    (parsedAt (r.bytes ++ t) r.headerBytes.length m).clear = { Conn.new with
      requestBuffer := if r.bytes.length < m then ((r.bytes ++ t).take m).drop (m - r.bytes.length)
        else [] } := by
  have hBytes : r.bytes.length = r.headerBytes.length + r.body.length := by
    rw [Request.bytes, List.length_append]
  have hBuffer : (unparsed (r.bytes ++ t) m).requestBuffer = (r.bytes ++ t).take m :=
    unparsed_buffer _ m
  have hLength : ((r.bytes ++ t).take m).length = m := List.length_take_of_le hIn
  have hPreserve : (m : Int) - r.headerBytes.length - r.body.length =
    (m - r.bytes.length : Nat) := by
    omega
  have hBody : (0 : Int) ≤ r.body.length := by omega
  rw [parsedAt_request h t]
  unfold Conn.clear
  dsimp only [Option.getD_some]
  rw [if_pos hBody, hBuffer, hLength, hPreserve, Int.toNat_natCast]
  by_cases hMore : r.bytes.length < m
  · rw [if_pos (by omega), if_pos hMore]
  · rw [if_neg (by omega), if_neg hMore]

/-- **`Clear` keeps what follows the request** if it is nothing, or as long as the request. -/
theorem clear_keeps_iff (h : r.WellFormed) (t : Bytes) {m : Nat} (hLe : r.bytes.length ≤ m)
    (hIn : m ≤ (r.bytes ++ t).length) :
    (parsedAt (r.bytes ++ t) r.headerBytes.length m).clear.requestBuffer =
        ((r.bytes ++ t).take m).drop r.bytes.length ↔
      m = r.bytes.length ∨ m = 2 * r.bytes.length := by
  have hLength : ((r.bytes ++ t).take m).length = m := List.length_take_of_le hIn
  rw [clear_request h t hLe hIn]
  dsimp only
  by_cases hMore : r.bytes.length < m
  · rw [if_pos hMore]
    constructor
    · intro hSame
      have hLengths := congrArg List.length hSame
      rw [List.length_drop, List.length_drop, hLength] at hLengths
      omega
    · intro hClean
      have hTwice : m - r.bytes.length = r.bytes.length := by omega
      rw [hTwice]
  · rw [if_neg hMore]
    have hAll : ((r.bytes ++ t).take m).drop r.bytes.length = [] := by
      rw [List.drop_eq_nil_iff, hLength]
      omega
    rw [hAll]
    exact iff_of_true rfl (.inl (by omega))

/-- What has been read behind the request. -/
theorem take_append_drop_left {a t : Bytes} {m : Nat} (hLe : a.length ≤ m) :
    ((a ++ t).take m).drop a.length = t.take (m - a.length) := by
  rw [List.take_append, List.take_of_length_le hLe, List.drop_left]

/-- After a `Clear` that keeps the right bytes, the next request has begun. -/
theorem pending_clear (h : r.WellFormed) (t : Bytes) {m : Nat} (hLe : r.bytes.length ≤ m)
    (hIn : m ≤ (r.bytes ++ t).length) (hClean : m = r.bytes.length ∨ m = 2 * r.bytes.length) :
    Pending t (m - r.bytes.length) (parsedAt (r.bytes ++ t) r.headerBytes.length m).clear := by
  have hBuffer := (clear_keeps_iff h t hLe hIn).mpr hClean
  rw [take_append_drop_left hLe] at hBuffer
  rw [clear_request h t hLe hIn] at hBuffer ⊢
  dsimp only at hBuffer
  rw [hBuffer]
  exact pending_new t _

end Request

theorem requestReady_empty :
    { Conn.new with requestBuffer := [] }.requestReady =
      (.incomplete, { Conn.new with requestBuffer := [] }) := rfl

-- ---------------------------------------------------------------------------
-- All requests of a connection
-- ---------------------------------------------------------------------------

/-- The requests handed out are these, in order; after each of them the buffer holds what has been
read behind it. `done` bytes belong to earlier requests. -/
def Seen (rs : List Request) (done : Nat) (log : List Handled) : Prop :=
  ∀ (i : Nat) (h : Handled), log[i]? = some h → ∃ (r : Request) (conn : Conn),
    rs[i]? = some r ∧ r.Shown h.conn ∧ h.cleared = some conn ∧
    conn.requestBuffer = h.received.drop (done + ((rs.take (i + 1)).flatMap Request.bytes).length)

/-- **The condition on the chunks.** With `buffered` bytes of the first request in the buffer: when
a chunk completes a request, nothing comes behind it, or as many bytes as the request has. -/
def Clean : List Nat → Nat → List Nat → Prop
  | [], _, _ => True
  | _ :: _, _, [] => True
  | l :: ls, buffered, c :: cs =>
    if buffered + c < l then Clean (l :: ls) (buffered + c) cs
    else (buffered + c = l ∨ buffered + c = 2 * l) ∧ Clean ls (buffered + c - l) cs

instance decidableClean : ∀ (ls : List Nat) (buffered : Nat) (cs : List Nat),
    Decidable (Clean ls buffered cs)
  | [], _, _ => isTrue (by unfold Clean; trivial)
  | _ :: _, _, [] => isTrue trivial
  | l :: ls, buffered, c :: cs =>
    have := decidableClean (l :: ls) (buffered + c) cs
    have := decidableClean ls (buffered + c - l) cs
    inferInstanceAs (Decidable (if buffered + c < l then Clean (l :: ls) (buffered + c) cs
      else (buffered + c = l ∨ buffered + c = 2 * l) ∧ Clean ls (buffered + c - l) cs))

theorem clean_nil (buffered : Nat) (cs : List Nat) : Clean [] buffered cs := by
  cases cs <;> exact trivial

theorem seen_nil (rs : List Request) (done : Nat) : Seen rs done [] := by
  intro i h hGet
  simp at hGet

/-- The first request, and the others. -/
theorem seen_cons {r : Request} {rs : List Request} {done : Nat} {h : Handled}
    {log : List Handled} :
    Seen (r :: rs) done (h :: log) ↔
      (r.Shown h.conn ∧ ∃ conn, h.cleared = some conn ∧
        conn.requestBuffer = h.received.drop (done + r.bytes.length)) ∧
      Seen rs (done + r.bytes.length) log := by
  constructor
  · intro hSeen
    constructor
    · obtain ⟨r', conn, hr, hShown, hCleared, hBuffer⟩ := hSeen 0 h rfl
      obtain rfl := Option.some.inj hr
      refine ⟨hShown, conn, hCleared, ?_⟩
      rw [hBuffer]
      simp
    · intro i h' hGet
      obtain ⟨r', conn, hr, hShown, hCleared, hBuffer⟩ := hSeen (i + 1) h' hGet
      refine ⟨r', conn, hr, hShown, hCleared, ?_⟩
      rw [hBuffer, List.take_succ_cons, List.flatMap_cons, List.length_append, Nat.add_assoc]
  · rintro ⟨⟨hShown, conn, hCleared, hBuffer⟩, hRest⟩ i h' hGet
    cases i with
    | zero =>
      obtain rfl := Option.some.inj hGet
      refine ⟨r, conn, rfl, hShown, hCleared, ?_⟩
      rw [hBuffer]
      simp
    | succ i =>
      obtain ⟨r', conn', hr, hShown', hCleared', hBuffer'⟩ := hRest i h' hGet
      refine ⟨r', conn', hr, hShown', hCleared', ?_⟩
      rw [hBuffer', List.take_succ_cons, List.flatMap_cons, List.length_append, Nat.add_assoc]

/-- The bodies are those of the first requests, in order. -/
theorem Seen.bodies {rs : List Request} {done : Nat} {log : List Handled} (h : Seen rs done log) :
    log.map (fun h => h.conn.getRequestBody) = (rs.take log.length).map Request.body := by
  induction log generalizing rs done with
  | nil => rfl
  | cons handled log ih =>
    cases rs with
    | nil =>
      obtain ⟨r, -, hr, -⟩ := h 0 handled rfl
      cases hr
    | cons r rs =>
      obtain ⟨⟨hShown, -⟩, hRest⟩ := seen_cons.mp h
      rw [List.map_cons, List.length_cons, List.take_succ_cons, List.map_cons,
        hShown.body, ih hRest]

/-- The connection when the next chunk has been appended. -/
theorem Pending.fill {s : Bytes} {m : Nat} {conn : Conn} {chunk rest : Bytes} (h : Pending s m conn)
    (hRest : chunk ++ rest = s.drop m) (hLe : m ≤ s.length) :
    { conn with requestBuffer := conn.requestBuffer ++ chunk }.requestReady =
      { Conn.new with requestBuffer := s.take (m + chunk.length) }.requestReady := by
  obtain ⟨hTake, -, hLe'⟩ := next_chunk hRest hLe
  rw [h.buffer, hTake]
  exact h.ready _ (Nat.le_add_right m _) hLe'

/-- Where the connection stands: of what has been received, `done` bytes belong to earlier requests
and the rest are the first `m` bytes of `s`; the chunks bring the others. -/
structure Position (s received : Bytes) (done m : Nat) (chunks : List Bytes) : Prop where
  le : m ≤ s.length
  rest : chunks.flatten = s.drop m
  done_le : done ≤ received.length
  read : received.drop done = s.take m

theorem Position.chunk {s received chunk : Bytes} {done m : Nat} {chunks : List Bytes}
    (h : Position s received done m (chunk :: chunks)) :
    Position s (received ++ chunk) done (m + chunk.length) chunks := by
  have hRest := h.rest
  rw [List.flatten_cons] at hRest
  obtain ⟨hTake, hDrop, hLe⟩ := next_chunk hRest h.le
  refine ⟨hLe, hDrop, ?_, ?_⟩
  · rw [List.length_append]
    exact Nat.le_add_right_of_le h.done_le
  · rw [List.drop_append_of_le_length h.done_le, h.read, hTake]

/-- The first request is complete. -/
theorem Position.behind {a s received : Bytes} {done m : Nat} {chunks : List Bytes}
    (h : Position (a ++ s) received done m chunks) (hLe : a.length ≤ m) :
    Position s received (done + a.length) (m - a.length) chunks := by
  refine ⟨?_, ?_, ?_, ?_⟩
  · have hIn := h.le
    rw [List.length_append] at hIn
    omega
  · rw [h.rest, List.drop_append, List.drop_of_length_le hLe, List.nil_append]
  · have hDone := h.done_le
    have hLengths := congrArg List.length h.read
    rw [List.length_drop, List.length_take_of_le h.le] at hLengths
    omega
  · rw [← List.drop_drop, h.read]
    exact take_append_drop_left hLe

/-- **Any connection in the middle of a request**: the rest of the requests is seen one by one if
and only if the rest of the chunks is clean. -/
theorem seen_serve_iff (chunks : List Bytes) : ∀ (rs : List Request) (received : Bytes)
    (conn : Conn)
    (m done : Nat), (∀ r ∈ rs, r.WellFormed) → Pending (rs.flatMap Request.bytes) m conn →
    Position (rs.flatMap Request.bytes) received done m chunks →
    (Seen rs done (serve received conn chunks) ↔
      Clean (rs.map fun r => r.bytes.length) m (chunks.map List.length)) := by
  -- on the chunks; a chunk that completes a request takes it off the list
  induction chunks with
  | nil =>
    intro rs received conn m done _ _ _
    refine iff_of_true (seen_nil rs done) ?_
    cases rs with
    | nil => exact clean_nil m _
    | cons r rs => exact trivial
  | cons chunk chunks ih =>
    intro rs received conn m done hRs hPending hPos
    have hNext := hPos.chunk
    rw [serve, hPending.fill hPos.rest hPos.le, List.map_cons]
    cases rs with
    | nil =>
      -- nothing comes any more
      have hPending' := pending_new (List.flatMap Request.bytes []) (m + chunk.length)
      rw [List.flatMap_nil, List.take_nil] at hPending' ⊢
      rw [requestReady_empty]
      refine iff_of_true ?_ (clean_nil m _)
      exact (ih [] (received ++ chunk) _ (m + chunk.length) done hRs hPending' hNext).mpr
        (clean_nil _ _)
    | cons r rs =>
      rw [List.flatMap_cons] at hPending hPos hNext ⊢
      have hWf : r.WellFormed := hRs r List.mem_cons_self
      obtain ⟨hShort, hWhole⟩ := requestReady_request hWf (rs.flatMap Request.bytes) hNext.le
      rw [List.map_cons, Clean]
      by_cases hLt : m + chunk.length < r.bytes.length
      · obtain ⟨conn', hReady, hPending'⟩ := hShort hLt
        rw [hReady, if_pos hLt]
        exact ih (r :: rs) (received ++ chunk) conn' (m + chunk.length) done hRs hPending' hNext
      · have hGe : r.bytes.length ≤ m + chunk.length := by omega
        have hKeep : (parsedAt (r.bytes ++ rs.flatMap Request.bytes) r.headerBytes.length
            (m + chunk.length)).keepAlive = true := by
          rw [parsedAt_request hWf]
        have hBehind : (received ++ chunk).drop (done + r.bytes.length) =
            ((r.bytes ++ rs.flatMap Request.bytes).take (m + chunk.length)).drop
            r.bytes.length := by
          rw [← List.drop_drop, hNext.read]
        have hKeeps := clear_keeps_iff hWf (rs.flatMap Request.bytes) hGe hNext.le
        rw [hWhole hGe, if_neg hLt]
        dsimp only
        rw [if_pos hKeep, seen_cons]
        -- what is left when the chunk was clean
        have hLeft := fun hClean => ih rs (received ++ chunk) _ (m + chunk.length - r.bytes.length)
          (done + r.bytes.length) (fun r' hr' => hRs r' (List.mem_cons_of_mem r hr'))
          (pending_clear hWf (rs.flatMap Request.bytes) hGe hNext.le hClean) (hNext.behind hGe)
        constructor
        · rintro ⟨⟨-, conn', hCleared, hBuffer⟩, hSeen⟩
          obtain rfl := Option.some.inj hCleared
          have hClean := hKeeps.mp (hBuffer.trans hBehind)
          exact ⟨hClean, (hLeft hClean).mp hSeen⟩
        · rintro ⟨hClean, hRests⟩
          exact ⟨⟨shown_request hWf _ hGe, _, rfl, (hKeeps.mpr hClean).trans hBehind.symm⟩,
            (hLeft hClean).mpr hRests⟩

/-- **The requests of a connection are seen one by one**, each with its own body, and after each of
them the buffer holds what has been read behind it, if and only if the chunks are clean: whenever a
chunk completes a request, nothing has been read behind it, or as many bytes as the request has. -/
theorem requests_seen_iff (rs : List Request) (hRs : ∀ r ∈ rs, r.WellFormed) (chunks : List Bytes)
    (hChunks : chunks.flatten = rs.flatMap Request.bytes) :
    Seen rs 0 (serve [] Conn.new chunks) ↔
      Clean (rs.map fun r => r.bytes.length) 0 (chunks.map List.length) := by
  have hNew := pending_new (rs.flatMap Request.bytes) 0
  rw [List.take_zero] at hNew
  exact seen_serve_iff chunks rs [] Conn.new 0 0 hRs hNew
    ⟨Nat.zero_le _, hChunks, Nat.zero_le _, rfl⟩

/-- `"P"`, `"Content-Length: n"` and `"Connection: keep-alive"` -/
def postRequest (digit : UInt8) (body : Bytes) : Request where
  line := [80]
  header := [contentLength ++ colonSpace ++ [digit], connection ++ colonSpace ++ keepAliveValue]
  body := body

theorem wellFormed_postRequest_one : (postRequest 49 [97]).WellFormed := by
  refine ⟨by decide, by decide +kernel, keepAliveValue, ?_, rfl⟩
  decide +kernel

theorem wellFormed_postRequest_two : (postRequest 50 [98, 99]).WellFormed := by
  refine ⟨by decide, by decide +kernel, keepAliveValue, ?_, rfl⟩
  decide +kernel

/-- Two requests, the second in two chunks: both are seen. -/
theorem requests_seen_iff_two :
    Seen [postRequest 49 [97], postRequest 50 [98, 99]] 0
      (serve [] Conn.new [(postRequest 49 [97]).bytes, (postRequest 50 [98, 99]).bytes.take 7,
        (postRequest 50 [98, 99]).bytes.drop 7]) := by
  refine (requests_seen_iff [postRequest 49 [97], postRequest 50 [98, 99]] ?_ _ ?_).mpr ?_
  · intro r hr
    rw [List.mem_pair] at hr
    rcases hr with rfl | rfl
    · exact wellFormed_postRequest_one
    · exact wellFormed_postRequest_two
  · decide +kernel
  · decide +kernel

/-- The first byte of the second request comes with the first one. `Clear` drops the first byte of
the buffer instead of keeping the last one, and the first request is handed out again. -/
theorem request_seen_twice :
    (serve [] Conn.new [(postRequest 49 [97]).bytes ++ (postRequest 50 [98, 99]).bytes.take 1,
        (postRequest 50 [98, 99]).bytes.drop 1]).map (fun h => h.conn.getRequestBody) =
      [[97], [97]] ∧
    ¬ Seen [postRequest 49 [97], postRequest 50 [98, 99]] 0
      (serve [] Conn.new [(postRequest 49 [97]).bytes ++ (postRequest 50 [98, 99]).bytes.take 1,
        (postRequest 50 [98, 99]).bytes.drop 1]) := by
  constructor
  · decide +kernel
  · intro hSeen
    exact absurd hSeen.bodies (by decide +kernel)

end HectorCore.Server
