import HectorCore.Server.HttpConn

/-!
# Chunks — whether a request depends on how it arrives

The first line and the header fields do not: what is searched for in a buffer that is still being
filled is found where it is in the whole request. The body can: `"\r\n\r\n"` is searched for in all
that has arrived, body included, before `"\n\n"` is; and without a length, the body is what has
arrived together with the end of the header.

* `parseRequestLine_take`, `parseFields_stable` — the first line, the header fields;
* `requestReady_received`, `requestReady_parsedAt` — the connection after any chunk;
* `readRequest_outcome`   — how a reading that returns true has gone;
* `readRequest_cut`       — a reading that goes a given way;
* `chunks_agree_iff`      — when all ways of cutting a request agree;
* `chunks_disagree`       — a request for which they do not.
-/

namespace HectorCore.Server

open Lib (find substr OccursAt)

variable {s : Bytes} {m : Nat}

-- ---------------------------------------------------------------------------
-- The first line
-- ---------------------------------------------------------------------------

theorem lf_ne_nil : lf ≠ [] := by decide
theorem space_ne_nil : space ≠ [] := by decide
theorem crlfCrlf_ne_nil : crlfCrlf ≠ [] := by decide
theorem lfLf_ne_nil : lfLf ≠ [] := by decide

theorem lineEnd_le (s : Bytes) (nl : Nat) : lineEnd s nl ≤ nl := by
  unfold lineEnd
  split <;> omega

/-- The character before a newline that has arrived has arrived. -/
theorem lineEnd_take {nl : Nat} (h : nl < m) : lineEnd (s.take m) nl = lineEnd s nl := by
  unfold lineEnd
  rw [List.getElem?_take_of_lt (by omega)]

/-- A space behind the line is no space. -/
theorem findSpace_take {start eol : Nat} (h : eol < m) :
    findSpace (s.take m) start eol = findSpace s start eol := by
  unfold findSpace
  have hLength : space.length = 1 := rfl
  cases hFind : find s space start with
  | none =>
    have hNone : find (s.take m) space start = none :=
      (Lib.find_take_eq_none_iff space_ne_nil).mpr fun p hp => by
        rw [hFind] at hp
        exact absurd hp (by simp)
    rw [hNone]
  | some sp =>
    by_cases hIn : sp + 1 ≤ m
    · rw [(Lib.find_take_eq_some_iff space_ne_nil).mpr ⟨hFind, by omega⟩]
    · have hNone : find (s.take m) space start = none :=
        (Lib.find_take_eq_none_iff space_ne_nil).mpr fun p hp => by
          rw [hFind] at hp
          obtain rfl := Option.some.inj hp
          omega
      rw [hNone]
      dsimp only
      rw [if_pos (by omega)]

theorem findSpace_le {start eol sp : Nat} (h : findSpace s start eol = some sp) :
    start ≤ sp ∧ sp ≤ eol := by
  unfold findSpace at h
  split at h
  · exact absurd h (by simp)
  · rename_i sp' hFind
    split at h
    · exact absurd h (by simp)
    · obtain rfl := Option.some.inj h
      exact ⟨((Lib.find_eq_some_iff space_ne_nil).mp hFind).1, by omega⟩

theorem requestLineAt_take {nl : Nat} (h : nl < m) :
    requestLineAt (s.take m) nl = requestLineAt s nl := by
  have hEol := lineEnd_le s nl
  unfold requestLineAt
  dsimp only
  rw [lineEnd_take h, findSpace_take (by omega)]
  cases hSp1 : findSpace s 0 (lineEnd s nl) with
  | none =>
    dsimp only
    rw [Lib.substr_take (by omega)]
  | some sp1 =>
    have hLe1 := findSpace_le hSp1
    dsimp only
    rw [findSpace_take (by omega)]
    cases hSp2 : findSpace s (sp1 + 1) (lineEnd s nl) with
    | none =>
      dsimp only
      rw [Lib.substr_take (by omega), Lib.substr_take (by omega)]
    | some sp2 =>
      have hLe2 := findSpace_le hSp2
      dsimp only
      rw [Lib.substr_take (by omega), Lib.substr_take (by omega), Lib.substr_take (by omega)]

theorem headerOffset_requestLineAt (s : Bytes) (nl : Nat) :
    (requestLineAt s nl).headerOffset = nl + 1 := by
  unfold requestLineAt
  dsimp only
  split
  · rfl
  · split <;> rfl

/-- **The first line** is parsed as soon as its newline has arrived, with the same result. -/
theorem parseRequestLine_take {line : RequestLine} :
    parseRequestLine (s.take m) = some line ↔
      parseRequestLine s = some line ∧ line.headerOffset ≤ m := by
  have hLength : lf.length = 1 := rfl
  unfold parseRequestLine
  constructor
  · intro h
    split at h
    · exact absurd h (by simp)
    · rename_i nl hFind
      obtain rfl := Option.some.inj h
      obtain ⟨hWhole, hLe⟩ := (Lib.find_take_eq_some_iff lf_ne_nil).mp hFind
      rw [hWhole, requestLineAt_take (by omega), headerOffset_requestLineAt]
      exact ⟨rfl, by omega⟩
  · rintro ⟨h, hLe⟩
    split at h
    · exact absurd h (by simp)
    · rename_i nl hFind
      obtain rfl := Option.some.inj h
      rw [headerOffset_requestLineAt] at hLe
      rw [(Lib.find_take_eq_some_iff lf_ne_nil).mpr ⟨hFind, by omega⟩]
      dsimp only
      rw [requestLineAt_take (by omega)]

-- ---------------------------------------------------------------------------
-- The end of the header
-- ---------------------------------------------------------------------------

variable {h bo : Nat}

theorem findCrlf_take {p : Nat} :
    findCrlf (s.take m) h = some p ↔ findCrlf s h = some p ∧ p + 4 ≤ m := by
  unfold findCrlf
  split
  · simp
  · exact Lib.find_take_eq_some_iff crlfCrlf_ne_nil

theorem findLf_take {p : Nat} :
    findLf (s.take m) h = some p ↔ findLf s h = some p ∧ p + 2 ≤ m :=
  Lib.find_take_eq_some_iff lfLf_ne_nil

/-- The end of the header in what has arrived: `"\r\n\r\n"` first, then `"\n\n"`. -/
theorem findBodyOffset_take_eq_some :
    findBodyOffset (s.take m) h = some bo ↔
      (∃ a, findCrlf s h = some a ∧ a + 4 ≤ m ∧ bo = a + 4) ∨
      ((∀ a, findCrlf s h = some a → m < a + 4) ∧
        ∃ n, findLf s h = some n ∧ n + 2 ≤ m ∧ bo = n + 2) := by
  unfold findBodyOffset
  cases hCrlf : findCrlf (s.take m) h with
  | some a =>
    obtain ⟨hWhole, hLe⟩ := findCrlf_take.mp hCrlf
    dsimp only
    constructor
    · intro h
      exact .inl ⟨a, hWhole, hLe, (Option.some.inj h).symm⟩
    · rintro (⟨a', ha', -, rfl⟩ | ⟨hNot, -⟩)
      · rw [hWhole] at ha'
        rw [Option.some.inj ha']
      · have := hNot a hWhole
        omega
  | none =>
    have hNot : ∀ a, findCrlf s h = some a → m < a + 4 := by
      intro a ha
      by_contra hLe
      rw [findCrlf_take.mpr ⟨ha, by omega⟩] at hCrlf
      exact absurd hCrlf (by simp)
    dsimp only
    cases hLf : findLf (s.take m) h with
    | none =>
      constructor
      · intro h
        exact absurd h (by simp)
      · rintro (⟨a, ha, hLe, -⟩ | ⟨-, n, hn, hLe, -⟩)
        · have := hNot a ha
          omega
        · rw [findLf_take.mpr ⟨hn, hLe⟩] at hLf
          exact absurd hLf (by simp)
    | some n =>
      obtain ⟨hWhole, hLe⟩ := findLf_take.mp hLf
      constructor
      · intro h
        exact .inr ⟨hNot, n, hWhole, hLe, (Option.some.inj h).symm⟩
      · rintro (⟨a, ha, hLe, -⟩ | ⟨-, n', hn', -, rfl⟩)
        · have := hNot a ha
          omega
        · rw [hWhole] at hn'
          rw [Option.some.inj hn']

/-- A line without characters, with its newline at `e`. -/
structure EmptyLine (s : Bytes) (q e : Nat) : Prop where
  pos : 0 < q
  before : s[q - 1]? = some 10
  line : (e = q ∧ s[q]? = some 10) ∨ (e = q + 1 ∧ s[q]? = some 13 ∧ s[q + 1]? = some 10)

/-- The end of the header is an empty line behind the first line. -/
theorem emptyLine_of_bodyOffset (hPos : 0 < h) (hBody : findBodyOffset (s.take m) h = some bo) :
    ∃ q, h ≤ q ∧ EmptyLine s q (bo - 1) ∧ q < bo ∧ bo ≤ m := by
  rcases findBodyOffset_take_eq_some.mp hBody with ⟨a, ha, hLe, rfl⟩ | ⟨-, n, hn, hLe, rfl⟩
  · unfold findCrlf at ha
    split at ha
    · exact absurd ha (by simp)
    · obtain ⟨hStart, hOccurs, -⟩ := (Lib.find_eq_some_iff crlfCrlf_ne_nil).mp ha
      have h1 := hOccurs.getElem? (i := 1) (by decide)
      have h2 := hOccurs.getElem? (i := 2) (by decide)
      have h3 := hOccurs.getElem? (i := 3) (by decide)
      exact ⟨a + 2, by omega, ⟨by omega, h1, .inr ⟨by omega, h2, h3⟩⟩, by omega, hLe⟩
  · obtain ⟨hStart, hOccurs, -⟩ := (Lib.find_eq_some_iff lfLf_ne_nil).mp hn
    have h0 := hOccurs.getElem? (i := 0) (by decide)
    have h1 := hOccurs.getElem? (i := 1) (by decide)
    exact ⟨n + 1, by omega, ⟨by omega, h0, .inl ⟨by omega, h1⟩⟩, by omega, hLe⟩

-- ---------------------------------------------------------------------------
-- The header fields
-- ---------------------------------------------------------------------------

section Header

variable {q e : Nat} (hEmpty : EmptyLine s q e)

include hEmpty

theorem EmptyLine.newline_at : OccursAt s lf e := by
  refine Lib.occursAt_singleton.mpr ?_
  rcases hEmpty.line with ⟨rfl, h⟩ | ⟨rfl, -, h⟩ <;> exact h

theorem EmptyLine.le : q ≤ e := by
  rcases hEmpty.line with ⟨rfl, -⟩ | ⟨rfl, -⟩ <;> omega

/-- The line that begins at the empty line is empty. -/
theorem EmptyLine.stops {nl : Nat} (hFind : find s lf q = some nl) : lineEnd s nl = q := by
  obtain ⟨hStart, hOccurs, hBefore⟩ := (Lib.find_eq_some_iff lf_ne_nil).mp hFind
  have hPos := hEmpty.pos
  unfold lineEnd
  rcases hEmpty.line with ⟨-, hHere⟩ | ⟨-, hCr, hNext⟩
  · have hAt : nl = q := by
      by_contra hNe
      exact hBefore q (Nat.le_refl q) (by omega) (Lib.occursAt_singleton.mpr hHere)
    subst hAt
    rw [if_neg]
    rintro ⟨-, hCr⟩
    rw [hEmpty.before] at hCr
    exact absurd hCr (by decide)
  · have hNot : nl ≠ q := by
      rintro rfl
      rw [Lib.occursAt_singleton.mp hOccurs] at hCr
      exact absurd hCr (by decide)
    have hAt : nl = q + 1 := by
      by_contra hNe
      exact hBefore (q + 1) (by omega) (by omega) (Lib.occursAt_singleton.mpr hNext)
    subst hAt
    rw [if_pos ⟨by omega, by rw [Nat.add_sub_cancel]; exact hCr⟩]
    omega

/-- **The header fields** are the same whatever has arrived behind the empty line, and wherever
the body is taken to begin. -/
theorem parseFields_stable : ∀ (k offset : Nat) (f : Fields), q - offset ≤ k → offset ≤ q →
    ∃ r, ∀ m bo fuel, e < m → e < bo → k < fuel → parseFields (s.take m) bo fuel offset f =
      some r := by
  intro k
  -- on the distance to the empty line, which every turn of the loop makes smaller
  induction k with
  | zero =>
    intro offset f hk hLe
    obtain rfl : offset = q := by omega
    refine ⟨f, fun m bo fuel hm hBo hFuel => ?_⟩
    obtain ⟨fuel, rfl⟩ : ∃ i, fuel = i + 1 := ⟨fuel - 1, by omega⟩
    have hqe := hEmpty.le
    obtain ⟨nl, hFind, hNl⟩ := Lib.exists_find lf_ne_nil hqe hEmpty.newline_at
    have hLength : lf.length = 1 := rfl
    rw [parseFields, if_pos (by omega), (Lib.find_take_eq_some_iff lf_ne_nil).mpr ⟨hFind, by omega⟩]
    dsimp only
    rw [lineEnd_take (by omega), if_pos (hEmpty.stops hFind)]
  | succ k ih =>
    intro offset f hk hLe
    have hqe := hEmpty.le
    have hLength : lf.length = 1 := rfl
    obtain ⟨nl, hFind, hNl⟩ : ∃ nl, find s lf offset = some nl ∧ nl ≤ e :=
      Lib.exists_find lf_ne_nil (by omega) hEmpty.newline_at
    obtain ⟨hStart, -, -⟩ := (Lib.find_eq_some_iff lf_ne_nil).mp hFind
    -- one turn, the same for every buffer
    have hTurn : ∀ m bo fuel, e < m → e < bo → parseFields (s.take m) bo (fuel + 1) offset f =
        if lineEnd s nl = offset then some f
        else parseFields (s.take m) bo fuel (nl + 1)
          (f.addLine (substr s offset (lineEnd s nl - offset))) := by
      intro m bo fuel hm hBo
      have hEol := lineEnd_le s nl
      rw [parseFields, if_pos (by omega), (Lib.find_take_eq_some_iff lf_ne_nil).mpr
        ⟨hFind, by omega⟩]
      dsimp only
      rw [lineEnd_take (by omega), Lib.substr_take (by omega)]
    by_cases hStop : lineEnd s nl = offset
    · refine ⟨f, fun m bo fuel hm hBo hFuel => ?_⟩
      obtain ⟨fuel, rfl⟩ : ∃ i, fuel = i + 1 := ⟨fuel - 1, by omega⟩
      rw [hTurn m bo fuel hm hBo, if_pos hStop]
    · -- the newline in front of the empty line is not passed over
      have hBeforeEmpty : nl + 1 ≤ q := by
        have hLt : offset < q := by
          by_contra hEq
          obtain rfl : offset = q := by omega
          exact hStop (hEmpty.stops hFind)
        obtain ⟨nl', hFind', hNl'⟩ : ∃ nl', find s lf offset = some nl' ∧ nl' ≤ q - 1 :=
          Lib.exists_find lf_ne_nil (by omega) (Lib.occursAt_singleton.mpr hEmpty.before)
        rw [hFind] at hFind'
        obtain rfl := Option.some.inj hFind'
        have := hEmpty.pos
        omega
      obtain ⟨r, hr⟩ := ih (nl + 1) (f.addLine (substr s offset (lineEnd s nl - offset))) (by omega)
        hBeforeEmpty
      refine ⟨r, fun m bo fuel hm hBo hFuel => ?_⟩
      obtain ⟨fuel, rfl⟩ : ∃ i, fuel = i + 1 := ⟨fuel - 1, by omega⟩
      rw [hTurn m bo fuel hm hBo, if_neg hStop]
      exact hr m bo fuel hm hBo (by omega)

end Header

/-- The end of the header of `s`, when `m` bytes of it have arrived. -/
def headerEnd (s : Bytes) (m : Nat) : Option Nat :=
  match parseRequestLine (s.take m) with
  | none => none
  | some line => findBodyOffset (s.take m) line.headerOffset

/-- The header fields of a request that is here as a whole. -/
def fieldsOf (s : Bytes) : HeaderFields :=
  match parseRequestLine s with
  | none => Fields.new.store
  | some line =>
    ((parseFields s s.length (s.length + 1) line.headerOffset Fields.new).getD Fields.new).store

/-- The length of the body, as the header fields give it. -/
def lengthOf (s : Bytes) : Int := bodyLength (fieldsOf s)

theorem parseRequestLine_pos {line : RequestLine} (hLine : parseRequestLine s = some line) :
    0 < line.headerOffset := by
  unfold parseRequestLine at hLine
  split at hLine
  · exact absurd hLine (by simp)
  · rename_i nl hFind
    obtain rfl := Option.some.inj hLine
    rw [headerOffset_requestLineAt]
    omega

/-- A first line that has arrived stays as it is. -/
theorem parseRequestLine_mono {m' : Nat} {line : RequestLine} (hLe : m ≤ m')
    (hLine : parseRequestLine (s.take m) = some line) :
    parseRequestLine (s.take m') = some line := by
  obtain ⟨hWhole, hOffset⟩ := parseRequestLine_take.mp hLine
  exact parseRequestLine_take.mpr ⟨hWhole, by omega⟩

/-- The header fields that are read when the header is complete are those of the request. -/
theorem parseFields_take {line : RequestLine} (hLine : parseRequestLine (s.take m) = some line)
    (hBody : findBodyOffset (s.take m) line.headerOffset = some bo) :
    ∃ r, parseFields (s.take m) bo (bo + 1) line.headerOffset Fields.new = some r ∧
      r.store = fieldsOf s := by
  obtain ⟨q, hq, hEmpty, hqBo, hBoM⟩ := emptyLine_of_bodyOffset (parseRequestLine_pos hLine) hBody
  have hIn : bo - 1 < s.length := by
    have hAt := Lib.occursAt_singleton.mp hEmpty.newline_at
    exact (List.getElem?_eq_some_iff.mp hAt).1
  obtain ⟨r, hr⟩ := parseFields_stable hEmpty q line.headerOffset Fields.new (by omega) hq
  have hqe := hEmpty.le
  refine ⟨r, hr m bo (bo + 1) (by omega) (by omega) (by omega), ?_⟩
  have hWhole := hr s.length s.length (s.length + 1) hIn hIn (by omega)
  rw [List.take_length] at hWhole
  unfold fieldsOf
  rw [(parseRequestLine_take.mp hLine).1]
  dsimp only
  rw [hWhole]
  rfl

-- ---------------------------------------------------------------------------
-- The connection after any chunk
-- ---------------------------------------------------------------------------

/-- The connection when `m` bytes of `s` have arrived, and the end of the header has not. -/
def unparsed (s : Bytes) (m : Nat) : Conn :=
  match parseRequestLine (s.take m) with
  | none => { Conn.new with requestBuffer := s.take m }
  | some line =>
    { Conn.new with
      requestBuffer := s.take m, requestMethod := line.method, requestArgs := line.args
      requestProtocol := line.protocol, requestHeaderOffset := some line.headerOffset }

/-- The connection when `m` bytes of `s` have arrived, and its body begins at `bo`. -/
def parsedAt (s : Bytes) (bo m : Nat) : Conn :=
  { unparsed s m with requestBodyOffset := some bo }.setFields (fieldsOf s)

/-- The body that begins at `bo` has a length, and `m` bytes of the request are too few. -/
def Waits (s : Bytes) (bo m : Nat) : Prop := 0 ≤ lengthOf s ∧ (m : Int) - bo < lengthOf s

instance (s : Bytes) (bo m : Nat) : Decidable (Waits s bo m) :=
  inferInstanceAs (Decidable (_ ∧ _))

theorem unparsed_zero (s : Bytes) : unparsed s 0 = Conn.new := by
  unfold unparsed
  rw [List.take_zero]
  rfl

theorem unparsed_buffer (s : Bytes) (m : Nat) : (unparsed s m).requestBuffer = s.take m := by
  unfold unparsed
  split <;> rfl

theorem unparsed_headerFields (s : Bytes) (m : Nat) : (unparsed s m).headerFields = none := by
  unfold unparsed
  split <;> rfl

/-- Nothing but the buffer changes once the first line is there. -/
theorem unparsed_of_line {m' : Nat} {line : RequestLine} (hLe : m ≤ m')
    (hLine : parseRequestLine (s.take m) = some line) :
    { unparsed s m with requestBuffer := s.take m' } = unparsed s m' := by
  unfold unparsed
  rw [hLine, parseRequestLine_mono hLe hLine]

/-- The connection when a chunk has been appended, before it is looked at: `m` bytes have
arrived. -/
structure Received (s : Bytes) (m : Nat) (conn : Conn) : Prop where
  headerFields : conn.headerFields = none
  buffer : conn.requestBuffer = s.take m
  noLine : parseRequestLine (s.take m) = none → conn = unparsed s m
  readLine : ∀ line, parseRequestLine (s.take m) = some line →
    conn.readLine = some (unparsed s m, line.headerOffset)

theorem received_unparsed {m' : Nat} (hLe : m ≤ m') :
    Received s m' { unparsed s m with requestBuffer := s.take m' } := by
  refine ⟨unparsed_headerFields s m, rfl, fun hNone => ?_, fun line hLine => ?_⟩
  · cases hBefore : parseRequestLine (s.take m) with
    | none =>
      unfold unparsed
      rw [hBefore, hNone]
    | some line => exact unparsed_of_line hLe hBefore
  · cases hBefore : parseRequestLine (s.take m) with
    | none =>
      unfold Conn.readLine unparsed
      rw [hBefore]
      dsimp only [Conn.new]
      rw [hLine]
    | some line' =>
      rw [unparsed_of_line hLe hBefore]
      unfold Conn.readLine unparsed
      rw [hLine]

/-- **The header**, while its end has not arrived and when it has. -/
theorem parseRequestHeader_received {conn : Conn} (hConn : Received s m conn) :
    conn.parseRequestHeader =
      match headerEnd s m with
      | none => (.incomplete, unparsed s m)
      | some bo => (.parsed, parsedAt s bo m) := by
  unfold Conn.parseRequestHeader headerEnd
  rw [hConn.headerFields, hConn.buffer]
  cases hLine : parseRequestLine (s.take m) with
  | none =>
    obtain rfl := hConn.noLine hLine
    have hNoLine : (unparsed s m).readLine = none := by
      unfold Conn.readLine unparsed
      rw [hLine]
      dsimp only [Conn.new]
      rw [hLine]
    rw [hNoLine]
    dsimp only
    exact ite_self _
  | some line =>
    have hNotEmpty : ¬ (s.take m).length = 0 := by
      intro hZero
      have hNil : parseRequestLine [] = none := rfl
      rw [List.eq_nil_of_length_eq_zero hZero, hNil] at hLine
      exact absurd hLine (by simp)
    dsimp only
    rw [if_neg hNotEmpty, hConn.readLine line hLine]
    dsimp only
    rw [unparsed_buffer]
    cases hBody : findBodyOffset (s.take m) line.headerOffset with
    | none => rfl
    | some bo =>
      obtain ⟨r, hr, hStore⟩ := parseFields_take hLine hBody
      dsimp only
      rw [hr]
      dsimp only
      rw [hStore]
      unfold parsedAt
      dsimp only
      rw [unparsed_buffer]

theorem unparsed_keepAlive (s : Bytes) (m : Nat) : (unparsed s m).keepAlive = false := by
  unfold unparsed
  split <;> rfl

/-- What the header fields set. -/
theorem setFields_eq (fields : HeaderFields) :
    ∃ keep fields', (keep = true → 0 ≤ bodyLength fields) ∧ ∀ conn : Conn, conn.keepAlive = false →
      conn.setFields fields = { conn with
        requestBodyLength := bodyLength fields, headerFields := some fields',
        keepAlive := keep } := by
  unfold Conn.setFields
  cases hField : fields connection with
  | none => exact ⟨false, fields, by simp, fun conn hConn => by simp [hConn]⟩
  | some value =>
    cases hKeep : isKeepAlive value with
    | false => exact ⟨false, fields, by simp, fun conn hConn => by simp [hConn, hKeep]⟩
    | true =>
      by_cases hPos : 0 ≤ bodyLength fields
      · exact ⟨true, fields, fun _ => hPos, fun conn _ => by simp [hKeep, hPos]⟩
      · exact ⟨false, Function.update fields connection none, by simp, fun conn hConn => by
          simp [hConn, hKeep, hPos]⟩

/-- The connection with the header: two things that depend on the header fields, and the rest. -/
theorem parsedAt_eq (s : Bytes) :
    ∃ keep fields', (keep = true → 0 ≤ lengthOf s) ∧ ∀ bo m, parsedAt s bo m = { unparsed s m with
      requestBodyOffset := some bo, requestBodyLength := lengthOf s
      headerFields := some fields', keepAlive := keep } := by
  obtain ⟨keep, fields', hKeep, hSet⟩ := setFields_eq (fieldsOf s)
  exact ⟨keep, fields', hKeep, fun bo m => hSet _ (unparsed_keepAlive s m)⟩

/-- A chunk changes nothing but the buffer, when the header is there. -/
theorem parsedAt_fill {m' : Nat} {line : RequestLine} (hLe : m ≤ m')
    (hLine : parseRequestLine (s.take m) = some line) :
    { parsedAt s bo m with requestBuffer := s.take m' } = parsedAt s bo m' := by
  obtain ⟨keep, fields', -, hEq⟩ := parsedAt_eq s
  rw [hEq, hEq, ← unparsed_of_line hLe hLine]

/-- **Whether the body is complete.** -/
theorem waitsForBody_parsedAt (hLe : m ≤ s.length) :
    (parsedAt s bo m).waitsForBody = decide (Waits s bo m) := by
  obtain ⟨keep, fields', hKeep, hEq⟩ := parsedAt_eq s
  have hLength : ((unparsed s m).requestBuffer.length : Int) = m := by
    rw [unparsed_buffer, List.length_take_of_le hLe]
  unfold Conn.waitsForBody Waits
  rw [hEq]
  dsimp only [Option.getD_some]
  rw [hLength]
  by_cases hPos : 0 ≤ lengthOf s
  · simp [hPos]
  · have hNot : keep = false := by
      cases keep with
      | false => rfl
      | true => exact absurd (hKeep rfl) hPos
    simp [hPos, hNot]

/-- **After a chunk**, while the header is incomplete. -/
theorem requestReady_received {conn : Conn} (hConn : Received s m conn) (hLe : m ≤ s.length) :
    conn.requestReady =
      match headerEnd s m with
      | none => (.incomplete, unparsed s m)
      | some bo => (if Waits s bo m then .incomplete else .parsed, parsedAt s bo m) := by
  unfold Conn.requestReady
  rw [parseRequestHeader_received hConn]
  cases headerEnd s m with
  | none => rfl
  | some bo =>
    dsimp only
    rw [waitsForBody_parsedAt hLe]
    by_cases hWaits : Waits s bo m
    · rw [if_pos (decide_eq_true hWaits), if_pos hWaits]
    · rw [if_neg (by simpa using hWaits), if_neg hWaits]

/-- **After a chunk**, when the header is there. -/
theorem requestReady_parsedAt (hLe : m ≤ s.length) :
    (parsedAt s bo m).requestReady =
      (if Waits s bo m then .incomplete else .parsed, parsedAt s bo m) := by
  have hHeader : (parsedAt s bo m).parseRequestHeader = (.parsed, parsedAt s bo m) := by
    obtain ⟨keep, fields', -, hEq⟩ := parsedAt_eq s
    rw [hEq]
    rfl
  unfold Conn.requestReady
  rw [hHeader]
  dsimp only
  rw [waitsForBody_parsedAt hLe]
  by_cases hWaits : Waits s bo m
  · rw [if_pos (decide_eq_true hWaits), if_pos hWaits]
  · rw [if_neg (by simpa using hWaits), if_neg hWaits]

-- ---------------------------------------------------------------------------
-- A whole reading
-- ---------------------------------------------------------------------------

/-- The next chunk of a request. -/
theorem next_chunk {chunk rest : Bytes} (h : chunk ++ rest = s.drop m) (hLe : m ≤ s.length) :
    s.take m ++ chunk = s.take (m + chunk.length) ∧ rest = s.drop (m + chunk.length) ∧
      m + chunk.length ≤ s.length := by
  have hLength := congrArg List.length h
  rw [List.length_append, List.length_drop] at hLength
  refine ⟨?_, ?_, by omega⟩
  · rw [List.take_add, ← h, List.take_left]
  · rw [← List.drop_drop, ← h, List.drop_left]

/-- When the header is there, `ReadRequest` returns true as soon as the body is complete. -/
theorem readRequest_parsedAt : ∀ (chunks : List Bytes) (m : Nat),
    (parseRequestLine (s.take m)).isSome → m ≤ s.length → chunks.flatten = s.drop m → Waits s bo m →
    (∃ m', m ≤ m' ∧ m' ≤ s.length ∧ ¬ Waits s bo m' ∧
      (parsedAt s bo m).readRequest chunks = some (parsedAt s bo m')) ∨
    ((parsedAt s bo m).readRequest chunks = none ∧ Waits s bo s.length) := by
  intro chunks
  induction chunks with
  | nil =>
    intro m hLine hLe hRest hWaits
    have hAll : m = s.length := by
      have hLength := congrArg List.length hRest
      rw [List.length_drop] at hLength
      have hNil : (List.flatten ([] : List Bytes)).length = 0 := rfl
      omega
    rw [← hAll]
    exact .inr ⟨rfl, hWaits⟩
  | cons chunk chunks ih =>
    intro m hLine hLe hRest hWaits
    rw [List.flatten_cons] at hRest
    obtain ⟨hTake, hDrop, hLe'⟩ := next_chunk hRest hLe
    obtain ⟨line, hLine⟩ := Option.isSome_iff_exists.mp hLine
    have hBuffer : (parsedAt s bo m).requestBuffer = s.take m := by
      obtain ⟨keep, fields', -, hEq⟩ := parsedAt_eq s
      rw [hEq]
      exact unparsed_buffer s m
    have hLine' := parseRequestLine_mono (Nat.le_add_right m chunk.length) hLine
    rw [Conn.readRequest, hBuffer, hTake, parsedAt_fill (Nat.le_add_right m chunk.length) hLine,
      requestReady_parsedAt hLe']
    by_cases hWaits' : Waits s bo (m + chunk.length)
    · rw [if_pos hWaits']
      dsimp only
      rcases ih (m + chunk.length) (by rw [hLine']; rfl) hLe' hDrop hWaits' with
        ⟨m', hmm', hRun⟩ | hNone
      · exact .inl ⟨m', by omega, hRun⟩
      · exact .inr hNone
    · rw [if_neg hWaits']
      exact .inl ⟨m + chunk.length, by omega, hLe', hWaits', rfl⟩

/-- How a reading goes that returns true: the end of the header comes with the chunk from `m₀` to
`m₁`, and the body is complete when `m₂` bytes have arrived. -/
structure Reading (s : Bytes) (m₀ m₁ m₂ bo : Nat) : Prop where
  before : headerEnd s m₀ = none
  header : headerEnd s m₁ = some bo
  chunk : m₁ ≤ m₀ + readSize
  order : m₁ ≤ m₂
  inside : m₂ ≤ s.length
  ready : ¬ Waits s bo m₂
  atOnce : lengthOf s < 0 → m₂ = m₁

theorem line_of_headerEnd (hEnd : headerEnd s m = some bo) :
    (parseRequestLine (s.take m)).isSome := by
  unfold headerEnd at hEnd
  split at hEnd
  · exact absurd hEnd (by simp)
  · rename_i line hLine
    rw [hLine]
    rfl

/-- **A reading that returns true** goes one of these ways. -/
theorem readRequest_outcome {conn : Conn} : ∀ (chunks : List Bytes) (m : Nat),
    headerEnd s m = none → m ≤ s.length → chunks.flatten = s.drop m →
    (∀ chunk ∈ chunks, chunk.length ≤ readSize) →
    (unparsed s m).readRequest chunks = some conn →
    ∃ m₀ m₁ m₂ bo, Reading s m₀ m₁ m₂ bo ∧ conn = parsedAt s bo m₂ := by
  intro chunks
  induction chunks with
  | nil =>
    intro m hNone hLe hRest hSize hRun
    exact absurd hRun (by simp [Conn.readRequest])
  | cons chunk chunks ih =>
    intro m hNone hLe hRest hSize hRun
    rw [List.flatten_cons] at hRest
    obtain ⟨hTake, hDrop, hLe'⟩ := next_chunk hRest hLe
    have hChunk := hSize chunk List.mem_cons_self
    rw [Conn.readRequest, unparsed_buffer, hTake,
      requestReady_received (received_unparsed (Nat.le_add_right m chunk.length)) hLe'] at hRun
    cases hEnd : headerEnd s (m + chunk.length) with
    | none =>
      rw [hEnd] at hRun
      exact ih (m + chunk.length) hEnd hLe' hDrop
        (fun c hc => hSize c (List.mem_cons_of_mem chunk hc)) hRun
    | some bo =>
      rw [hEnd] at hRun
      dsimp only at hRun
      by_cases hWaits : Waits s bo (m + chunk.length)
      · rw [if_pos hWaits] at hRun
        rcases readRequest_parsedAt chunks (m + chunk.length) (line_of_headerEnd hEnd) hLe'
          hDrop hWaits
          with ⟨m₂, hOrder, hInside, hReady, hSome⟩ | ⟨hNo, -⟩
        · refine ⟨m, m + chunk.length, m₂, bo,
            ⟨hNone, hEnd, by omega, hOrder, hInside, hReady, fun hNeg => ?_⟩, ?_⟩
          · have := hWaits.1
            omega
          · exact Option.some.inj (hRun.symm.trans hSome)
        · exact absurd (hNo.symm.trans hRun) (by simp)
      · rw [if_neg hWaits] at hRun
        exact ⟨m, m + chunk.length, m + chunk.length, bo,
          ⟨hNone, hEnd, by omega, by omega, hLe', hWaits, fun _ => rfl⟩,
          (Option.some.inj hRun).symm⟩

/-- The chunks before the end of the header change nothing but what has arrived. -/
theorem readRequest_skip {rest : List Bytes} : ∀ (chunks : List Bytes) (m : Nat),
    m ≤ s.length → (chunks ++ rest).flatten = s.drop m →
    (∀ m', m' ≤ m + chunks.flatten.length → headerEnd s m' = none) →
    (unparsed s m).readRequest (chunks ++ rest) =
      (unparsed s (m + chunks.flatten.length)).readRequest rest := by
  intro chunks
  induction chunks with
  | nil => intro m hLe hRest hNone; rfl
  | cons chunk chunks ih =>
    intro m hLe hRest hNone
    rw [List.cons_append, List.flatten_cons] at hRest
    rw [List.flatten_cons, List.length_append] at hNone ⊢
    obtain ⟨hTake, hDrop, hLe'⟩ := next_chunk hRest hLe
    rw [List.cons_append, Conn.readRequest, unparsed_buffer, hTake,
      requestReady_received (received_unparsed (Nat.le_add_right m chunk.length)) hLe',
      hNone (m + chunk.length) (by omega)]
    dsimp only
    rw [ih (m + chunk.length) hLe' hDrop fun m' hm' => hNone m' (by omega), Nat.add_assoc]

/-- A way to cut a request into chunks that `read` can return. -/
structure Cut (s : Bytes) (chunks : List Bytes) : Prop where
  whole : chunks.flatten = s
  size : ∀ chunk ∈ chunks, chunk.length ≤ readSize

/-- One byte at a time, but for a chunk of `w` bytes from position `p` on. -/
def cutAt (s : Bytes) (p w : Nat) : List Bytes :=
  (s.take p).map (fun b => [b]) ++ substr s p w :: (s.drop (p + w)).map (fun b => [b])

theorem flatten_singles (bs : Bytes) : (bs.map fun b => [b]).flatten = bs := by
  induction bs with
  | nil => rfl
  | cons b bs ih => rw [List.map_cons, List.flatten_cons, ih]; rfl

theorem cutAt_cut {p w : Nat} (hSize : w ≤ readSize) : Cut s (cutAt s p w) := by
  have hOne : (1 : Nat) ≤ readSize := by decide
  refine ⟨?_, fun chunk hChunk => ?_⟩
  · unfold cutAt substr
    rw [List.flatten_append, List.flatten_cons, flatten_singles, flatten_singles, ← List.drop_drop,
      List.take_append_drop, List.take_append_drop]
  · unfold cutAt at hChunk
    rcases List.mem_append.mp hChunk with hSingle | hRest
    · obtain ⟨b, -, rfl⟩ := List.mem_map.mp hSingle
      exact hOne
    · rcases List.mem_cons.mp hRest with rfl | hSingle
      · have hLength := List.length_take_le w (s.drop p)
        exact Nat.le_trans hLength hSize
      · obtain ⟨b, -, rfl⟩ := List.mem_map.mp hSingle
        exact hOne

-- ---------------------------------------------------------------------------
-- Where the header can end
-- ---------------------------------------------------------------------------

/-- The end of the header after `m` bytes, from the two places where it can be. -/
theorem headerEnd_eq_some :
    headerEnd s m = some bo ↔ ∃ line, parseRequestLine s = some line ∧
      ((∃ a, findCrlf s line.headerOffset = some a ∧ a + 4 ≤ m ∧ bo = a + 4) ∨
      ((∀ a, findCrlf s line.headerOffset = some a → m < a + 4) ∧
        ∃ n, findLf s line.headerOffset = some n ∧ n + 2 ≤ m ∧ bo = n + 2)) := by
  unfold headerEnd
  constructor
  · intro hEnd
    split at hEnd
    · exact absurd hEnd (by simp)
    · rename_i line hLine
      exact ⟨line, (parseRequestLine_take.mp hLine).1, findBodyOffset_take_eq_some.mp hEnd⟩
  · rintro ⟨line, hLine, hPlace⟩
    have hBody := findBodyOffset_take_eq_some.mpr hPlace
    -- the first line is there, since the end of the header is behind it
    obtain ⟨q, hq, -, hqBo, hBoM⟩ := emptyLine_of_bodyOffset (parseRequestLine_pos hLine) hBody
    rw [parseRequestLine_take.mpr ⟨hLine, by omega⟩]
    exact hBody

theorem headerEnd_eq_none {line : RequestLine} (hLine : parseRequestLine s = some line) :
    headerEnd s m = none ↔ (∀ a, findCrlf s line.headerOffset = some a → m < a + 4) ∧
      (∀ n, findLf s line.headerOffset = some n → m < n + 2) := by
  constructor
  · intro hNone
    have hCrlf : ∀ a, findCrlf s line.headerOffset = some a → m < a + 4 := by
      intro a ha
      by_contra hLe
      rw [headerEnd_eq_some.mpr ⟨line, hLine, .inl ⟨a, ha, by omega, rfl⟩⟩] at hNone
      exact absurd hNone (by simp)
    refine ⟨hCrlf, fun n hn => ?_⟩
    by_contra hLe
    rw [headerEnd_eq_some.mpr ⟨line, hLine, .inr ⟨hCrlf, n, hn, by omega, rfl⟩⟩] at hNone
    exact absurd hNone (by simp)
  · rintro ⟨hCrlf, hLf⟩
    cases hEnd : headerEnd s m with
    | none => rfl
    | some bo =>
      obtain ⟨line', hLine', hPlace⟩ := headerEnd_eq_some.mp hEnd
      rw [hLine] at hLine'
      obtain rfl := Option.some.inj hLine'
      rcases hPlace with ⟨a, ha, hLe, -⟩ | ⟨-, n, hn, hLe, -⟩
      · have := hCrlf a ha
        omega
      · have := hLf n hn
        omega

/-- The end of the header does not go away. -/
theorem headerEnd_none_of_le {m' : Nat} (hLe : m ≤ m') (hNone : headerEnd s m' = none) :
    headerEnd s m = none := by
  cases hEnd : headerEnd s m with
  | none => rfl
  | some bo =>
    obtain ⟨line, hLine, -⟩ := headerEnd_eq_some.mp hEnd
    obtain ⟨hCrlf, hLf⟩ := (headerEnd_eq_none hLine).mp hNone
    have hNone' : headerEnd s m = none := by
      refine (headerEnd_eq_none hLine).mpr ⟨fun a ha => ?_, fun n hn => ?_⟩
      · have := hCrlf a ha
        omega
      · have := hLf n hn
        omega
    exact hEnd.symm.trans hNone'

theorem headerEnd_zero (s : Bytes) : headerEnd s 0 = none := by
  unfold headerEnd
  rw [List.take_zero]
  rfl

/-- **Any such reading happens**, if what it needs of the body is there. -/
theorem readRequest_cut {p w : Nat} (hNone : headerEnd s p = none)
    (hSome : headerEnd s (p + w) = some bo) (hSize : w ≤ readSize) (hIn : p + w ≤ s.length)
    (hBody : ¬ Waits s bo s.length) :
    ∃ m₂, Reading s p (p + w) m₂ bo ∧
      Conn.new.readRequest (cutAt s p w) = some (parsedAt s bo m₂) := by
  have hWhole := (cutAt_cut (s := s) (p := p) hSize).whole
  have hLength : ((s.take p).map fun b => [b]).flatten.length = p := by
    rw [flatten_singles, List.length_take_of_le (by omega)]
  have hSkip : Conn.new.readRequest (cutAt s p w) =
      (unparsed s p).readRequest (substr s p w :: (s.drop (p + w)).map fun b => [b]) := by
    have h := readRequest_skip (s := s) ((s.take p).map fun b => [b]) 0 (by omega) hWhole
      (fun m' hm' => headerEnd_none_of_le (by omega) hNone)
    rw [unparsed_zero, hLength, Nat.zero_add] at h
    exact h
  have hChunk : (substr s p w).length = w := by
    unfold substr
    rw [List.length_take_of_le (by rw [List.length_drop]; omega)]
  have hTake : s.take p ++ substr s p w = s.take (p + w) := List.take_add.symm
  rw [hSkip, Conn.readRequest, unparsed_buffer, hTake,
    requestReady_received (received_unparsed (Nat.le_add_right p w)) hIn, hSome]
  dsimp only
  by_cases hWaits : Waits s bo (p + w)
  · rw [if_pos hWaits]
    rcases readRequest_parsedAt _ (p + w) (line_of_headerEnd hSome) hIn (flatten_singles _) hWaits
      with ⟨m₂, hOrder, hInside, hReady, hRun⟩ | ⟨-, hWaits'⟩
    · refine ⟨m₂, ⟨hNone, hSome, by omega, hOrder, hInside, hReady, fun hNeg => ?_⟩, hRun⟩
      have := hWaits.1
      omega
    · exact absurd hWaits' hBody
  · rw [if_neg hWaits]
    exact ⟨p + w, ⟨hNone, hSome, by omega, by omega, hIn, hWaits, fun _ => rfl⟩, rfl⟩

-- ---------------------------------------------------------------------------
-- Two ways of cutting a request
-- ---------------------------------------------------------------------------

/-- What a caller sees of a request. -/
structure SameRequest (conn conn' : Conn) : Prop where
  method : conn.requestMethod = conn'.requestMethod
  args : conn.requestArgs = conn'.requestArgs
  headerFields : conn.headerFields = conn'.headerFields
  body : conn.getRequestBody = conn'.getRequestBody

/-- All ways of cutting `s` into chunks for which `ReadRequest` returns true give one request. -/
def ChunksAgree (s : Bytes) : Prop :=
  ∀ chunks chunks' conn conn', Cut s chunks → Cut s chunks' →
    Conn.new.readRequest chunks = some conn → Conn.new.readRequest chunks' = some conn' →
    SameRequest conn conn'

/-- The header ends with `"\n\n"`, `"\r\n\r\n"` follows in the body, within the reach of one chunk
from there, and the body that begins behind that is complete and not the body. -/
def Ambiguous (s : Bytes) : Prop :=
  ∃ line a n, parseRequestLine s = some line ∧
    findCrlf s line.headerOffset = some a ∧ findLf s line.headerOffset = some n ∧
    n + 2 < a + 4 ∧ a + 4 ≤ n + 1 + readSize ∧
    0 ≤ lengthOf s ∧ a + 4 + lengthOf s ≤ s.length ∧
    substr s (n + 2) (lengthOf s).toNat ≠ substr s (a + 4) (lengthOf s).toNat

/-- The length of the body is negative, and something follows the header. -/
def OpenBody (s : Bytes) : Prop :=
  lengthOf s < 0 ∧ ∃ line, parseRequestLine s = some line ∧
    ((∃ a, findCrlf s line.headerOffset = some a ∧ a + 4 < s.length) ∨
      ∃ n, findLf s line.headerOffset = some n ∧ n + 2 < s.length)

theorem getRequestBody_parsedAt :
    (parsedAt s bo m).getRequestBody =
      if 0 ≤ lengthOf s then substr (s.take m) bo (lengthOf s).toNat else (s.take m).drop bo := by
  obtain ⟨keep, fields', -, hEq⟩ := parsedAt_eq s
  unfold Conn.getRequestBody
  rw [hEq]
  dsimp only [Option.getD_some]
  rw [unparsed_buffer]

section Reading

variable {m₀ m₁ m₂ bo m₀' m₁' m₂' bo' : Nat}

/-- A body that has a length is a part of the request. -/
theorem Reading.body (hRead : Reading s m₀ m₁ m₂ bo) (hLength : 0 ≤ lengthOf s) :
    (parsedAt s bo m₂).getRequestBody = substr s bo (lengthOf s).toNat ∧
      bo + lengthOf s ≤ s.length := by
  have hReady : bo + lengthOf s ≤ m₂ := by
    by_contra hNot
    exact hRead.ready ⟨hLength, by omega⟩
  have hInside := hRead.inside
  rw [getRequestBody_parsedAt, if_pos hLength, Lib.substr_take (by omega)]
  exact ⟨rfl, by omega⟩

/-- A body without a length is what has come with the header. -/
theorem Reading.rest (hRead : Reading s m₀ m₁ m₂ bo) (hLength : lengthOf s < 0) :
    (parsedAt s bo m₂).getRequestBody = (s.take m₁).drop bo := by
  rw [getRequestBody_parsedAt, if_neg (by omega), hRead.atOnce hLength]

/-- Nothing is left when nothing follows the header. -/
theorem Reading.rest_nil (hRead : Reading s m₀ m₁ m₂ bo) (hOpen : ¬ OpenBody s)
    (hLength : lengthOf s < 0) : (parsedAt s bo m₂).getRequestBody = [] := by
  have hEnd : s.length ≤ bo := by
    by_contra hLt
    obtain ⟨line, hLine, hPlace⟩ := headerEnd_eq_some.mp hRead.header
    refine hOpen ⟨hLength, line, hLine, ?_⟩
    rcases hPlace with ⟨a, ha, -, rfl⟩ | ⟨-, n, hn, -, rfl⟩
    · exact .inl ⟨a, ha, by omega⟩
    · exact .inr ⟨n, hn, by omega⟩
  rw [hRead.rest hLength, List.drop_eq_nil_iff, List.length_take]
  omega

theorem Reading.line (hRead : Reading s m₀ m₁ m₂ bo) :
    ∃ line, parseRequestLine s = some line ∧ parseRequestLine (s.take m₂) = some line := by
  obtain ⟨line, hLine⟩ := Option.isSome_iff_exists.mp (line_of_headerEnd hRead.header)
  exact ⟨line, (parseRequestLine_take.mp hLine).1, parseRequestLine_mono hRead.order hLine⟩

/-- The first line and the header fields do not depend on the reading. -/
theorem sameRequest_iff (hRead : Reading s m₀ m₁ m₂ bo) (hRead' : Reading s m₀' m₁' m₂' bo') :
    SameRequest (parsedAt s bo m₂) (parsedAt s bo' m₂') ↔
      (parsedAt s bo m₂).getRequestBody = (parsedAt s bo' m₂').getRequestBody := by
  refine ⟨SameRequest.body, fun hBody => ?_⟩
  obtain ⟨line, hWhole, hLine⟩ := hRead.line
  obtain ⟨line', hWhole', hLine'⟩ := hRead'.line
  rw [hWhole] at hWhole'
  obtain rfl := Option.some.inj hWhole'
  obtain ⟨keep, fields', -, hEq⟩ := parsedAt_eq s
  refine ⟨?_, ?_, ?_, hBody⟩
  · rw [hEq, hEq]
    dsimp only
    unfold unparsed
    rw [hLine, hLine']
  · rw [hEq, hEq]
    dsimp only
    unfold unparsed
    rw [hLine, hLine']
  · rw [hEq, hEq]

/-- The two places of the end of the header. -/
theorem Reading.place (hRead : Reading s m₀ m₁ m₂ bo) {line : RequestLine}
    (hLine : parseRequestLine s = some line) :
    (findCrlf s line.headerOffset = some (bo - 4) ∧ 4 ≤ bo ∧ bo ≤ m₁) ∨
    ((∀ a, findCrlf s line.headerOffset = some a → bo < a + 4) ∧
      findLf s line.headerOffset = some (bo - 2) ∧ 2 ≤ bo ∧ bo ≤ m₁) := by
  obtain ⟨line', hLine', hPlace⟩ := headerEnd_eq_some.mp hRead.header
  rw [hLine] at hLine'
  obtain rfl := Option.some.inj hLine'
  rcases hPlace with ⟨a, ha, hLe, rfl⟩ | ⟨hNot, n, hn, hLe, rfl⟩
  · exact .inl ⟨ha, by omega, hLe⟩
  · refine .inr ⟨fun a ha => ?_, hn, by omega, hLe⟩
    have := hNot a ha
    omega

/-- A reading that finds `"\r\n\r\n"` and one that has found `"\n\n"` before it: the request is
ambiguous, or the bodies are the same. -/
theorem bodies_same_of_places (hAmbiguous : ¬ Ambiguous s) (hLength : 0 ≤ lengthOf s)
    {line : RequestLine} (hLine : parseRequestLine s = some line)
    (hRead : Reading s m₀ m₁ m₂ bo) (hRead' : Reading s m₀' m₁' m₂' bo')
    (hCrlf : findCrlf s line.headerOffset = some (bo - 4)) (hBo : 4 ≤ bo) (hIn : bo ≤ m₁)
    (hLf : findLf s line.headerOffset = some (bo' - 2)) (hBo' : 2 ≤ bo') (hFirst : bo' < bo) :
    (parsedAt s bo m₂).getRequestBody = (parsedAt s bo' m₂').getRequestBody := by
  obtain ⟨hBody, hInside⟩ := hRead.body hLength
  obtain ⟨hBody', -⟩ := hRead'.body hLength
  -- before the chunk, not even the `"\n\n"` had arrived
  have hBefore := ((headerEnd_eq_none hLine).mp hRead.before).2 (bo' - 2) hLf
  have hChunk := hRead.chunk
  have hFour : bo - 4 + 4 = bo := by omega
  have hTwo : bo' - 2 + 2 = bo' := by omega
  rw [hBody, hBody']
  by_contra hNe
  refine hAmbiguous ⟨line, bo - 4, bo' - 2, hLine, hCrlf, hLf, by omega, by omega,
    hLength, by omega, ?_⟩
  rw [hFour, hTwo]
  exact fun hSame => hNe hSame.symm

/-- Two readings of a request that is not ambiguous and has no open body. -/
theorem bodies_same (hAmbiguous : ¬ Ambiguous s) (hOpen : ¬ OpenBody s)
    (hRead : Reading s m₀ m₁ m₂ bo) (hRead' : Reading s m₀' m₁' m₂' bo') :
    (parsedAt s bo m₂).getRequestBody = (parsedAt s bo' m₂').getRequestBody := by
  obtain ⟨line, hLine, -⟩ := hRead.line
  have hPlace := hRead.place hLine
  have hPlace' := hRead'.place hLine
  by_cases hLength : 0 ≤ lengthOf s
  · rcases hPlace with ⟨hCrlf, hBo, hIn⟩ | ⟨hNot, hLf, hBo, hIn⟩ <;>
      rcases hPlace' with ⟨hCrlf', hBo', hIn'⟩ | ⟨hNot', hLf', hBo', hIn'⟩
    · rw [hCrlf] at hCrlf'
      have hSame := Option.some.inj hCrlf'
      obtain rfl : bo = bo' := by omega
      rw [(hRead.body hLength).1, (hRead'.body hLength).1]
    · have hFirst := hNot' _ hCrlf
      exact bodies_same_of_places hAmbiguous hLength hLine hRead hRead' hCrlf hBo hIn hLf' hBo'
        (by omega)
    · have hFirst := hNot _ hCrlf'
      exact (bodies_same_of_places hAmbiguous hLength hLine hRead' hRead hCrlf' hBo' hIn' hLf hBo
        (by omega)).symm
    · rw [hLf] at hLf'
      have hSame := Option.some.inj hLf'
      obtain rfl : bo = bo' := by omega
      rw [(hRead.body hLength).1, (hRead'.body hLength).1]
  · rw [hRead.rest_nil hOpen (by omega), hRead'.rest_nil hOpen (by omega)]

/-- Two readings of an ambiguous request: the `"\r\n\r\n"` comes with the last character of the
`"\n\n"`, or later. -/
theorem ambiguous_disagrees (hAmbiguous : Ambiguous s) : ¬ ChunksAgree s := by
  intro hAgree
  obtain ⟨line, a, n, hLine, hCrlf, hLf, hFirst, hReach, hLength, hInside, hNe⟩ := hAmbiguous
  have hNone : headerEnd s (n + 1) = none := by
    refine (headerEnd_eq_none hLine).mpr ⟨fun a' ha' => ?_, fun n' hn' => ?_⟩
    · rw [hCrlf] at ha'
      obtain rfl := Option.some.inj ha'
      omega
    · rw [hLf] at hn'
      obtain rfl := Option.some.inj hn'
      omega
  have hLate : headerEnd s (n + 1 + (a + 3 - n)) = some (a + 4) :=
    headerEnd_eq_some.mpr ⟨line, hLine, .inl ⟨a, hCrlf, by omega, rfl⟩⟩
  have hEarly : headerEnd s (n + 1 + 1) = some (n + 2) := by
    refine headerEnd_eq_some.mpr ⟨line, hLine, .inr ⟨fun a' ha' => ?_, n, hLf, by omega, rfl⟩⟩
    rw [hCrlf] at ha'
    obtain rfl := Option.some.inj ha'
    omega
  have hOne : (1 : Nat) ≤ readSize := by decide
  -- the body is complete in both
  have hReady : ¬ Waits s (a + 4) s.length := by
    rintro ⟨-, hShort⟩
    push_cast at hShort
    omega
  have hReady' : ¬ Waits s (n + 2) s.length := by
    rintro ⟨-, hShort⟩
    push_cast at hShort
    omega
  obtain ⟨m, hRead, hRun⟩ := readRequest_cut hNone hLate (by omega) (by omega) hReady
  obtain ⟨m', hRead', hRun'⟩ := readRequest_cut hNone hEarly hOne (by omega) hReady'
  have hSame := (hAgree _ _ _ _ (cutAt_cut (by omega)) (cutAt_cut hOne) hRun hRun').body
  rw [(hRead.body hLength).1, (hRead'.body hLength).1] at hSame
  exact hNe hSame.symm

/-- The two ends of a header are not next to each other. -/
theorem ends_not_adjacent {a n : Nat} (hCrlf : findCrlf s h = some a) (hLf : findLf s h = some n) :
    a + 4 ≠ n + 3 := by
  intro hAdjacent
  unfold findCrlf at hCrlf
  split at hCrlf
  · exact absurd hCrlf (by simp)
  · have hCr := ((Lib.find_eq_some_iff crlfCrlf_ne_nil).mp hCrlf).2.1.getElem? (i := 2) (by decide)
    have hNl := ((Lib.find_eq_some_iff lfLf_ne_nil).mp hLf).2.1.getElem? (i := 1) (by decide)
    obtain rfl : n = a + 1 := by omega
    rw [hCr] at hNl
    exact absurd hNl (by decide)

/-- There is a byte with which the end of the header arrives. -/
theorem exists_last_none : ∀ m, headerEnd s m ≠ none →
    ∃ e, e < m ∧ headerEnd s e = none ∧ headerEnd s (e + 1) ≠ none := by
  intro m
  induction m with
  | zero =>
    intro hSome
    exact absurd (headerEnd_zero s) hSome
  | succ m ih =>
    intro hSome
    by_cases hNone : headerEnd s m = none
    · exact ⟨m, Nat.lt_succ_self m, hNone, hSome⟩
    · obtain ⟨e, hLt, hBefore, hAfter⟩ := ih hNone
      exact ⟨e, by omega, hBefore, hAfter⟩

/-- The header ends at that byte, and it still does when one more has arrived. -/
theorem headerEnd_first {e : Nat} (hBefore : headerEnd s e = none)
    (hAfter : headerEnd s (e + 1) ≠ none) :
    headerEnd s (e + 1) = some (e + 1) ∧ headerEnd s (e + 2) = some (e + 1) := by
  obtain ⟨bo, hEnd⟩ := Option.ne_none_iff_exists'.mp hAfter
  obtain ⟨line, hLine, hPlace⟩ := headerEnd_eq_some.mp hEnd
  obtain ⟨hNoCrlf, hNoLf⟩ := (headerEnd_eq_none hLine).mp hBefore
  rcases hPlace with ⟨a, ha, hLe, rfl⟩ | ⟨hNot, n, hn, hLe, rfl⟩
  · have hHere : a + 4 = e + 1 := by
      have := hNoCrlf a ha
      omega
    rw [← hHere]
    exact ⟨headerEnd_eq_some.mpr ⟨line, hLine, .inl ⟨a, ha, by omega, rfl⟩⟩,
      headerEnd_eq_some.mpr ⟨line, hLine, .inl ⟨a, ha, by omega, rfl⟩⟩⟩
  · have hHere : n + 2 = e + 1 := by
      have := hNoLf n hn
      omega
    rw [← hHere]
    refine ⟨headerEnd_eq_some.mpr ⟨line, hLine, .inr ⟨fun a ha => ?_, n, hn, by omega, rfl⟩⟩,
      headerEnd_eq_some.mpr ⟨line, hLine, .inr ⟨fun a ha => ?_, n, hn, by omega, rfl⟩⟩⟩
    · have := hNot a ha
      omega
    · have := hNot a ha
      have := ends_not_adjacent ha hn
      omega

/-- Two readings of a request with an open body: one byte of it comes with the end of the header,
or none. -/
theorem openBody_disagrees (hOpen : OpenBody s) : ¬ ChunksAgree s := by
  intro hAgree
  obtain ⟨hLength, line, hLine, hPlace⟩ := hOpen
  have hSome : headerEnd s (s.length - 1) ≠ none := by
    intro hNone
    obtain ⟨hNoCrlf, hNoLf⟩ := (headerEnd_eq_none hLine).mp hNone
    rcases hPlace with ⟨a, ha, hLt⟩ | ⟨n, hn, hLt⟩
    · have := hNoCrlf a ha
      omega
    · have := hNoLf n hn
      omega
  obtain ⟨e, hLt, hBefore, hAfter⟩ := exists_last_none _ hSome
  obtain ⟨hFirst, hNext⟩ := headerEnd_first hBefore hAfter
  have hOne : (1 : Nat) ≤ readSize := by decide
  have hTwo : (2 : Nat) ≤ readSize := by decide
  have hReady : ¬ Waits s (e + 1) s.length := fun hWaits => by
    have := hWaits.1
    omega
  obtain ⟨m, hRead, hRun⟩ := readRequest_cut hBefore hFirst hOne (by omega) hReady
  obtain ⟨m', hRead', hRun'⟩ := readRequest_cut hBefore hNext hTwo (by omega) hReady
  have hSame := (hAgree _ _ _ _ (cutAt_cut hOne) (cutAt_cut hTwo) hRun hRun').body
  rw [hRead.rest hLength, hRead'.rest hLength] at hSame
  have hLengths := congrArg List.length hSame
  rw [List.length_drop, List.length_drop, List.length_take_of_le (by omega),
    List.length_take_of_le (by omega)] at hLengths
  omega

end Reading

/-- **When the way a request arrives does not matter**: exactly when it is not ambiguous and has no
open body. -/
theorem chunks_agree_iff (s : Bytes) : ChunksAgree s ↔ ¬ Ambiguous s ∧ ¬ OpenBody s := by
  constructor
  · intro hAgree
    exact ⟨fun hAmbiguous => ambiguous_disagrees hAmbiguous hAgree,
      fun hOpen => openBody_disagrees hOpen hAgree⟩
  · rintro ⟨hAmbiguous, hOpen⟩ chunks chunks' conn conn' hCut hCut' hRun hRun'
    rw [← unparsed_zero s] at hRun hRun'
    have hZero := headerEnd_zero s
    obtain ⟨m₀, m₁, m₂, bo, hRead, rfl⟩ := readRequest_outcome chunks 0 hZero (Nat.zero_le _)
      hCut.whole hCut.size hRun
    obtain ⟨m₀', m₁', m₂', bo', hRead', rfl⟩ := readRequest_outcome chunks' 0 hZero (Nat.zero_le _)
      hCut'.whole hCut'.size hRun'
    exact (sameRequest_iff hRead hRead').mpr (bodies_same hAmbiguous hOpen hRead hRead')

/-- `"M\nContent-Length: 2\n\nab\r\n\r\ncd"` -/
def ambiguousRequest : Bytes :=
  [77, 10] ++ contentLength ++ [58, 32, 50, 10, 10, 97, 98, 13, 10, 13, 10, 99, 100]

/-- The body of this request, whose length is 2, is `"cd"` when it arrives in one chunk, and `"ab"`
when it arrives one byte at a time. -/
theorem chunks_disagree :
    fieldsOf ambiguousRequest contentLength = some [50] ∧ ¬ ChunksAgree ambiguousRequest := by
  refine ⟨by decide +kernel, fun hAgree => ?_⟩
  have hWhole : (Conn.new.readRequest [ambiguousRequest]).map Conn.getRequestBody =
      some [99, 100] := by decide +kernel
  have hSingles : (Conn.new.readRequest (ambiguousRequest.map fun b => [b])).map
      Conn.getRequestBody = some [97, 98] := by decide +kernel
  obtain ⟨conn, hRun, hBody⟩ := Option.map_eq_some_iff.mp hWhole
  obtain ⟨conn', hRun', hBody'⟩ := Option.map_eq_some_iff.mp hSingles
  have hSame := (hAgree _ _ conn conn' ⟨by decide, by decide⟩ ⟨by decide, by decide⟩
    hRun hRun').body
  rw [hBody, hBody'] at hSame
  exact absurd hSame (by decide)

end HectorCore.Server
