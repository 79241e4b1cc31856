import HectorCore.Server.BodyLength

/-!
# Rendering — a request and what is read of it

A request with a method, arguments, header fields and a body is written with CRLF line ends, a
value possibly folded over several lines, and parsed again. The parser joins a folded value with
the last character of each indent.

`WellFormed` is what a client has to keep to: no line end inside a line, names that are names, and
a `Content-Length` that is the length of the body.

Main results: `parseRequestLine_rendered`, `fields_rendered`, `parse_inverts_iff`. The body may
have any length that an `int` can hold.
-/

namespace HectorCore.Server

open Lib (find substr OccursAt toInt32 isSpace isDigit cStr toInt32_of_lt)

/-- A space or a tab. -/
def isBlank (c : UInt8) : Bool := c = 32 || c = 9

/-- A header field: the value on the line of the name, and the lines that continue it, each an
indent and a text. -/
structure HeaderField where
  name : Bytes
  value : Bytes
  folds : List (Bytes × Bytes)
  deriving DecidableEq, Repr

namespace HeaderField

/-- The lines of a field: the first one, and those that it is folded into. -/
def lines (f : HeaderField) : List Bytes :=
  (f.name ++ colonSpace ++ f.value) :: f.folds.map fun fold => fold.1 ++ fold.2

/-- The value: the lines, with the last character of each indent between them. -/
def unfolded (f : HeaderField) : Bytes :=
  f.value ++ f.folds.flatMap fun fold => fold.1.getLast?.toList ++ fold.2

structure WellFormed (f : HeaderField) : Prop where
  nameNe : f.name ≠ []
  nameLine : 13 ∉ f.name ∧ 10 ∉ f.name
  nameStart : ∀ c, f.name.head? = some c → isBlank c = false
  nameColon : ¬ colonSpace <:+: f.name
  valueLine : 10 ∉ f.value
  indent : ∀ fold ∈ f.folds, fold.1 ≠ [] ∧ ∀ c ∈ fold.1, isBlank c = true
  text : ∀ fold ∈ f.folds, 10 ∉ fold.2 ∧ ∀ c, fold.2.head? = some c → isBlank c = false

end HeaderField

/-- A request as a client means it. -/
structure Message where
  method : Bytes
  args : Bytes
  protocol : Option Bytes
  fields : List HeaderField
  body : Bytes

/-- White space and the digits of `n`. -/
def SpellsLength (text : Bytes) (n : Nat) : Prop :=
  ∃ blanks number, text = blanks ++ number ∧ (∀ c ∈ blanks, isSpace c = true) ∧
    (∀ c ∈ number, isDigit c = true) ∧ digits 0 number = n

namespace Message

/-- The first line of the request. -/
def line (r : Message) : Bytes :=
  r.method ++ space ++ r.args ++
    match r.protocol with
    | none => []
    | some protocol => space ++ protocol

/-- The lines of the request, and its body. -/
def request (r : Message) : Request := ⟨r.line, r.fields.flatMap HeaderField.lines, r.body⟩

/-- The field map. -/
def map (r : Message) : HeaderFields :=
  fun name => (r.fields.find? fun f => f.name = name).map HeaderField.unfolded

structure WellFormed (r : Message) : Prop where
  method : 32 ∉ r.method ∧ 13 ∉ r.method ∧ 10 ∉ r.method
  args : 32 ∉ r.args ∧ 13 ∉ r.args ∧ 10 ∉ r.args
  protocol : ∀ protocol, r.protocol = some protocol → 10 ∉ protocol
  fields : ∀ f ∈ r.fields, f.WellFormed
  names : (r.fields.map HeaderField.name).Nodup
  length : ∃ text, r.map contentLength = some text ∧ SpellsLength text r.body.length

/-- The rendered request is parsed, and everything is there. -/
def Inverts (r : Message) : Prop :=
  ∃ conn, (Conn.receiving r.request.bytes).requestReady32 = (.parsed, conn) ∧
    conn.requestMethod = r.method ∧ conn.requestArgs = r.args ∧
    conn.headerFields = some r.map ∧ conn.getRequestBody = r.body

/-- The fields ask for the connection to be kept. -/
def KeepsAlive (r : Message) : Prop :=
  ∃ value, r.map connection = some value ∧ isKeepAlive value = true

end Message

-- ---------------------------------------------------------------------------
-- The lines
-- ---------------------------------------------------------------------------

variable {r : Message} {f : HeaderField}

/-- A field has no line end but its own. -/
theorem HeaderField.WellFormed.unbroken (h : f.WellFormed) : Unbroken f.lines := by
  intro line hLine
  rcases List.mem_cons.mp hLine with rfl | hFold
  · refine ⟨?_, ?_⟩
    · simp [colonSpace]
    · simp [colonSpace, h.nameLine.2, h.valueLine]
  · obtain ⟨fold, hMem, rfl⟩ := List.mem_map.mp hFold
    obtain ⟨hNe, hBlank⟩ := h.indent fold hMem
    refine ⟨by simp [hNe], ?_⟩
    rw [List.mem_append]
    rintro (hIndent | hText)
    · exact absurd (hBlank 10 hIndent) (by decide)
    · exact (h.text fold hMem).1 hText

theorem Message.WellFormed.line_unbroken (h : r.WellFormed) : r.line ≠ [] ∧ 10 ∉ r.line := by
  unfold Message.line
  constructor
  · simp [space]
  · cases hProtocol : r.protocol with
    | none => simp [space, h.method.2.2, h.args.2.2]
    | some protocol => simp [space, h.method.2.2, h.args.2.2, h.protocol protocol hProtocol]

theorem Message.WellFormed.unbroken (h : r.WellFormed) :
    Unbroken (r.request.line :: r.request.header) := by
  intro line hLine
  rcases List.mem_cons.mp hLine with rfl | hField
  · exact h.line_unbroken
  · obtain ⟨f, hMem, hf⟩ := List.mem_flatMap.mp hField
    exact (h.fields f hMem).unbroken line hf

-- ---------------------------------------------------------------------------
-- A field
-- ---------------------------------------------------------------------------

/-- Not a blank in front of it. -/
theorem takeWhile_blank {line : Bytes} (hStart : ∀ c, line.head? = some c → isBlank c = false) :
    line.takeWhile isBlank = [] := by
  cases line with
  | nil => rfl
  | cons c line =>
    rw [List.takeWhile_cons_of_neg]
    rw [hStart c rfl]
    decide

/-- The first `": "` is the one behind the name. -/
theorem find_colonSpace {name value : Bytes} (hName : ¬ colonSpace <:+: name) :
    find (name ++ colonSpace ++ value) colonSpace 0 = some name.length := by
  refine (Lib.find_eq_some_iff (by decide)).mpr ⟨Nat.zero_le _, ?_, fun q _ hLt hThere => ?_⟩
  · unfold OccursAt
    rw [List.append_assoc, List.drop_left]
    exact List.prefix_append _ _
  · have hColon := hThere.getElem? (i := 0) (by decide)
    have hSpace := hThere.getElem? (i := 1) (by decide)
    rcases Nat.lt_or_ge (q + 1) name.length with hIn | hEnd
    · refine hName ⟨name.take q, name.drop (q + 2), ?_⟩
      rw [Nat.add_zero, List.append_assoc, List.getElem?_append_left hLt] at hColon
      rw [List.append_assoc, List.getElem?_append_left hIn] at hSpace
      obtain ⟨_, hColon⟩ := List.getElem?_eq_some_iff.mp hColon
      obtain ⟨_, hSpace⟩ := List.getElem?_eq_some_iff.mp hSpace
      have hSplit := List.take_append_drop q name
      rw [List.drop_eq_getElem_cons hLt, hColon, List.drop_eq_getElem_cons hIn, hSpace] at hSplit
      rw [List.append_assoc]
      exact hSplit
    · obtain hLast : q + 1 = name.length := by omega
      rw [hLast, List.append_assoc, List.getElem?_append_right (Nat.le_refl _),
        Nat.sub_self] at hSpace
      exact absurd hSpace (by simp [colonSpace])

/-- The line of the name: the field before it is stored. -/
theorem addLine_name (h : f.WellFormed) (g : Fields) :
    g.addLine (f.name ++ colonSpace ++ f.value) = ⟨f.name, f.value, g.store⟩ := by
  have hStart : ∀ c, (f.name ++ colonSpace ++ f.value).head? = some c → isBlank c = false := by
    intro c hc
    obtain ⟨first, rest, hCons⟩ := List.exists_cons_of_ne_nil h.nameNe
    refine h.nameStart c ?_
    rw [hCons] at hc ⊢
    exact hc
  have hBlank : (f.name ++ colonSpace ++ f.value).takeWhile (fun c => c = 32 || c = 9) = [] :=
    takeWhile_blank hStart
  have hSub : substr (f.name ++ colonSpace ++ f.value) 0 f.name.length = f.name := by
    rw [substr, List.drop_zero, List.append_assoc, List.take_left]
  have hDrop : (f.name ++ colonSpace ++ f.value).drop (f.name.length + 2) = f.value := by
    have hLength : (f.name ++ colonSpace).length = f.name.length + 2 := by
      rw [List.length_append]
      rfl
    rw [← hLength, List.drop_left]
  unfold Fields.addLine
  rw [hBlank]
  dsimp only [List.length_nil]
  rw [if_pos rfl, find_colonSpace h.nameColon]
  dsimp only
  rw [hSub, hDrop]

/-- A line that continues the value. -/
theorem addLine_fold {indent text : Bytes} (hIndent : indent ≠ [] ∧ ∀ c ∈ indent, isBlank c = true)
    (hText : ∀ c, text.head? = some c → isBlank c = false) (g : Fields) :
    g.addLine (indent ++ text) =
      { g with val := g.val ++ (indent.getLast?.toList ++ text) } := by
  have hBlank : (indent ++ text).takeWhile (fun c => c = 32 || c = 9) = indent := by
    show (indent ++ text).takeWhile isBlank = indent
    rw [List.takeWhile_append_of_pos hIndent.2, takeWhile_blank hText, List.append_nil]
  have hPos := List.length_pos_of_ne_nil hIndent.1
  have hDrop : (indent ++ text).drop (indent.length - 1) = indent.getLast?.toList ++ text := by
    obtain ⟨front, last, rfl⟩ := (List.eq_nil_or_concat indent).resolve_left hIndent.1
    rw [List.concat_eq_append, List.length_append, List.length_singleton, Nat.add_sub_cancel,
      List.append_assoc,
      List.drop_left, List.getLast?_concat]
    rfl
  unfold Fields.addLine
  rw [hBlank]
  dsimp only
  rw [if_neg (by omega), hDrop]

/-- A folded line is appended to the value. -/
theorem foldl_folds {folds : List (Bytes × Bytes)}
    (hIndent : ∀ fold ∈ folds, fold.1 ≠ [] ∧ ∀ c ∈ fold.1, isBlank c = true)
    (hText : ∀ fold ∈ folds, ∀ c, fold.2.head? = some c → isBlank c = false) (g : Fields) :
    (folds.map fun fold => fold.1 ++ fold.2).foldl Fields.addLine g =
      { g with val := g.val ++ folds.flatMap fun fold => fold.1.getLast?.toList ++ fold.2 } := by
  induction folds generalizing g with
  | nil =>
    rw [List.flatMap_nil, List.append_nil]
    rfl
  | cons fold folds ih =>
    rw [List.map_cons, List.foldl_cons, addLine_fold (hIndent fold List.mem_cons_self)
      (hText fold List.mem_cons_self), ih (fun x hx => hIndent x (List.mem_cons_of_mem _ hx))
      (fun x hx => hText x (List.mem_cons_of_mem _ hx)), List.flatMap_cons]
    simp only [List.append_assoc]

/-- **The lines of a field.** -/
theorem foldl_lines (h : f.WellFormed) (g : Fields) :
    f.lines.foldl Fields.addLine g = ⟨f.name, f.unfolded, g.store⟩ := by
  unfold HeaderField.lines
  rw [List.foldl_cons, addLine_name h, foldl_folds h.indent fun fold hFold => (h.text fold hFold).2]
  rfl

-- ---------------------------------------------------------------------------
-- All fields
-- ---------------------------------------------------------------------------

/-- What is looked up in the fields, or in what was there before them. -/
def lookup (fields : List HeaderField) (before : HeaderFields) : HeaderFields :=
  fun name => ((fields.find? fun f => f.name = name).map HeaderField.unfolded).or (before name)

/-- **The field map.** -/
theorem fields_rendered {fields : List HeaderField} (h : ∀ f ∈ fields, f.WellFormed)
    (hNames : (fields.map HeaderField.name).Nodup) (g : Fields) :
    ((fields.flatMap HeaderField.lines).foldl Fields.addLine g).store = lookup fields g.store := by
  induction fields generalizing g with
  | nil => rfl
  | cons f fields ih =>
    obtain ⟨hFresh, hRest⟩ := List.nodup_cons.mp (show (f.name :: fields.map _).Nodup from hNames)
    have hf := h f List.mem_cons_self
    rw [List.flatMap_cons, List.foldl_append, foldl_lines hf,
      ih (fun x hx => h x (List.mem_cons_of_mem _ hx)) hRest]
    have hStore : (⟨f.name, f.unfolded, g.store⟩ : Fields).store =
        Function.update g.store f.name (some f.unfolded) := if_neg hf.nameNe
    rw [hStore]
    funext name
    unfold lookup
    by_cases hName : f.name = name
    · subst hName
      have hNone : fields.find? (fun x => decide (x.name = f.name)) = none := by
        rw [List.find?_eq_none]
        intro x hx
        have hNe : x.name ≠ f.name := fun hSame => hFresh (hSame ▸ List.mem_map_of_mem hx)
        simpa using hNe
      rw [List.find?_cons_of_pos (by simp), hNone, Function.update_self]
      rfl
    · rw [List.find?_cons_of_neg (by simpa using hName), Function.update_of_ne (Ne.symm hName)]

/-- The map of the fields finds the first of a name. -/
theorem lookup_new (fields : List HeaderField) :
    lookup fields Fields.new.store =
      fun name => (fields.find? fun f => f.name = name).map HeaderField.unfolded := by
  funext name
  exact Option.or_none

/-- The parser's map of the fields is the client's. -/
theorem Message.WellFormed.fields_eq (h : r.WellFormed) : r.request.fields = r.map := by
  unfold Request.fields Message.request
  rw [fields_rendered h.fields h.names, lookup_new]
  rfl

/-- The map has each name with its value. -/
theorem Message.WellFormed.map_of_mem (h : r.WellFormed) (hf : f ∈ r.fields) :
    r.map f.name = some f.unfolded := by
  unfold Message.map
  cases hFind : r.fields.find? fun x => x.name = f.name with
  | none => exact absurd (List.find?_eq_none.mp hFind f hf) (by simp)
  | some g =>
    have hName : g.name = f.name := by simpa using List.find?_some hFind
    have hSame := List.inj_on_of_nodup_map h.names (List.mem_of_find?_eq_some hFind) hf hName
    rw [hSame]
    rfl

-- ---------------------------------------------------------------------------
-- The first line
-- ---------------------------------------------------------------------------

/-- The first space behind a part of the buffer that has none. -/
theorem find_space {s part t : Bytes} {p : Nat} (hPart : part ++ space ++ t = s.drop p)
    (hNone : 32 ∉ part) : find s space p = some (p + part.length) := by
  have hByte : ∀ i, s[p + i]? = (part ++ space ++ t)[i]? := by
    intro i
    rw [← List.getElem?_drop, hPart]
  refine (Lib.find_eq_some_iff space_ne_nil).mpr ⟨by omega, ?_, fun q hq hLt hThere => ?_⟩
  · refine Lib.occursAt_singleton.mpr ?_
    rw [hByte, List.append_assoc, List.getElem?_append_right (Nat.le_refl _), Nat.sub_self]
    rfl
  · have hSpace := Lib.occursAt_singleton.mp hThere
    obtain ⟨i, rfl⟩ : ∃ i, q = p + i := ⟨q - p, by omega⟩
    rw [hByte, List.append_assoc, List.getElem?_append_left (by omega)] at hSpace
    exact hNone (List.mem_of_getElem? hSpace)

/-- No space but behind the end of the line. -/
theorem findSpace_none {s part t : Bytes} {p : Nat} (hPart : part ++ crlf ++ t = s.drop p)
    (hNone : 32 ∉ part) : findSpace s p (p + part.length) = none := by
  unfold findSpace
  cases hFind : find s space p with
  | none => rfl
  | some q =>
    obtain ⟨hq, hThere, -⟩ := (Lib.find_eq_some_iff space_ne_nil).mp hFind
    have hSpace := Lib.occursAt_singleton.mp hThere
    dsimp only
    rw [if_pos]
    by_contra hLe
    obtain ⟨i, rfl⟩ : ∃ i, q = p + i := ⟨q - p, by omega⟩
    rw [← List.getElem?_drop, ← hPart, List.append_assoc] at hSpace
    rcases Nat.lt_or_ge i part.length with hIn | hEnd
    · rw [List.getElem?_append_left hIn] at hSpace
      exact hNone (List.mem_of_getElem? hSpace)
    · obtain rfl : i = part.length := by omega
      rw [List.getElem?_append_right (Nat.le_refl _), Nat.sub_self] at hSpace
      exact absurd hSpace (by simp [crlf])

/-- The space that is found is the one that was written. -/
theorem findSpace_some {s part t : Bytes} {p eol : Nat} (hPart : part ++ space ++ t = s.drop p)
    (hNone : 32 ∉ part) (hEol : p + part.length ≤ eol) :
    findSpace s p eol = some (p + part.length) := by
  unfold findSpace
  rw [find_space hPart hNone]
  exact if_neg (by omega)

/-- A part of the line, by its position and length. -/
theorem substr_of_drop {s part t : Bytes} {p n : Nat} (h : part ++ t = s.drop p)
    (hn : n = part.length) : substr s p n = part := by
  rw [substr, ← h, hn, List.take_left]

theorem drop_behind {s a t : Bytes} {p : Nat} (h : a ++ t = s.drop p) :
    t = s.drop (p + a.length) := by
  rw [← List.drop_drop, ← h, List.drop_left]

/-- Without a protocol the line ends behind the arguments. -/
theorem Message.line_of_none (h : r.protocol = none) : r.line = r.method ++ space ++ r.args := by
  unfold Message.line
  rw [h, List.append_nil]

theorem Message.line_of_some {protocol : Bytes} (h : r.protocol = some protocol) :
    r.line = r.method ++ space ++ r.args ++ (space ++ protocol) := by
  unfold Message.line
  rw [h]

/-- **The first line.** -/
theorem parseRequestLine_rendered (h : r.WellFormed) (t : Bytes) :
    parseRequestLine (r.request.bytes ++ t) =
      some ⟨r.line.length + 2, r.method, r.args, r.protocol.getD []⟩ := by
  have hSplit : r.line ++ crlf ++ (renderHeader r.request.header ++ (r.body ++ t)) =
      (r.request.bytes ++ t).drop 0 := r.request.bytes_split t
  have hNl : find (r.request.bytes ++ t) lf 0 = some (r.line.length + 1) :=
    r.request.find_first h.unbroken t
  have hEol : lineEnd (r.request.bytes ++ t) (r.line.length + 1) = r.line.length := by
    have hEnd := lineEnd_crlf hSplit
    rwa [Nat.zero_add] at hEnd
  generalize renderHeader r.request.header ++ (r.body ++ t) = rest at hSplit
  generalize r.request.bytes ++ t = s at hSplit hNl hEol ⊢
  have hSpace : space.length = 1 := rfl
  unfold parseRequestLine requestLineAt
  rw [hNl]
  dsimp only
  rw [hEol]
  cases hProtocol : r.protocol with
  | none =>
    rw [Message.line_of_none hProtocol] at hSplit ⊢
    simp only [List.append_assoc] at hSplit
    have hMethod : r.method ++ space ++ (r.args ++ crlf ++ rest) = s.drop 0 := by
      simpa only [List.append_assoc] using hSplit
    have hArgs := drop_behind hMethod
    rw [Nat.zero_add, List.length_append, hSpace] at hArgs
    have hSecond := findSpace_none hArgs h.args.1
    have hLength : (r.method ++ space ++ r.args).length =
        r.method.length + 1 + r.args.length := by
      rw [List.length_append, List.length_append, hSpace]
    rw [findSpace_some hMethod h.method.1 (by omega), Nat.zero_add]
    dsimp only
    rw [hLength, hSecond]
    dsimp only
    rw [List.append_assoc] at hMethod hArgs
    rw [substr_of_drop hMethod rfl, substr_of_drop hArgs (by omega)]
    rfl
  | some protocol =>
    rw [Message.line_of_some hProtocol] at hSplit ⊢
    have hMethod : r.method ++ space ++ (r.args ++ space ++ (protocol ++ (crlf ++ rest))) =
        s.drop 0 := by
      simpa only [List.append_assoc] using hSplit
    have hArgs := drop_behind hMethod
    rw [Nat.zero_add, List.length_append, hSpace] at hArgs
    have hRest := drop_behind hArgs
    rw [List.length_append, hSpace] at hRest
    have hLength : (r.method ++ space ++ r.args ++ (space ++ protocol)).length =
        r.method.length + 1 + (r.args.length + 1) + protocol.length := by
      simp only [List.length_append, hSpace]
      omega
    rw [findSpace_some hMethod h.method.1 (by omega), Nat.zero_add]
    dsimp only
    rw [hLength, findSpace_some hArgs h.args.1 (by omega)]
    dsimp only
    rw [List.append_assoc] at hMethod hArgs
    rw [substr_of_drop hMethod rfl, substr_of_drop hArgs (by omega), Nat.add_assoc _ r.args.length,
      substr_of_drop hRest (by omega)]
    rfl

-- ---------------------------------------------------------------------------
-- What the fields set
-- ---------------------------------------------------------------------------

/-- `atol` skips blanks. -/
theorem atol_blanks {blanks : Bytes} (h : ∀ c ∈ blanks, isSpace c = true) (s : Bytes) :
    atol (blanks ++ s) = atol s := by
  have hC : cStr (blanks ++ s) = blanks ++ cStr s := by
    refine List.takeWhile_append_of_pos fun c hc => ?_
    have hNe : c ≠ 0 := by
      rintro rfl
      exact absurd (h 0 hc) (by decide)
    simpa using hNe
  unfold atol
  rw [hC, List.dropWhile_append_of_pos h]

/-- What spells the length is read as the length, cut down to an `int`. -/
theorem bodyLength_spells {fields : HeaderFields} {text : Bytes} {n : Nat}
    (hText : fields contentLength = some text) (h : SpellsLength text n) :
    bodyLength fields = lengthInt n := by
  obtain ⟨blanks, number, rfl, hBlanks, hNumber, rfl⟩ := h
  unfold bodyLength lengthInt
  rw [hText]
  dsimp only
  rw [atol_blanks hBlanks, atol_digits hNumber]

section Set

variable {conn : Conn} {fields : HeaderFields}

/-- The fields stay as they are, unless a connection is to be kept alive without a length. -/
theorem headerFields_setFields
    (h : 0 ≤ bodyLength fields ∨ ¬ ∃ value, fields connection = some value ∧
      isKeepAlive value = true) :
    (conn.setFields fields).headerFields = some fields := by
  unfold Conn.setFields
  cases hField : fields connection with
  | none => rfl
  | some value =>
    dsimp only
    by_cases hKeep : isKeepAlive value = true
    · have hPos : 0 ≤ bodyLength fields := h.resolve_right fun hNot => hNot ⟨value, hField, hKeep⟩
      rw [if_pos hKeep, if_pos hPos]
    · rw [if_neg hKeep]

theorem headerFields_setFields_erased {value : Bytes} (hLength : bodyLength fields < 0)
    (hField : fields connection = some value) (hKeep : isKeepAlive value = true) :
    (conn.setFields fields).headerFields = some (Function.update fields connection none) := by
  unfold Conn.setFields
  rw [hField]
  dsimp only
  rw [if_pos hKeep, if_neg (by omega)]

end Set

-- ---------------------------------------------------------------------------
-- The whole request
-- ---------------------------------------------------------------------------

/-- The whole message is in the buffer. -/
theorem Message.WellFormed.arrived (h : r.WellFormed) :
    Arrived r.request.bytes r.request.headerBytes.length r.request.bytes.length
      (.receiving r.request.bytes) := by
  have hEnd := headerEnd_request h.unbroken [] r.request.bytes.length
  rw [List.append_nil, if_pos r.request.headerBytes_le] at hEnd
  exact ⟨r.request.headerBytes_le, Nat.le_refl _, .inl ⟨hEnd, received_receiving _⟩⟩

theorem Message.WellFormed.fieldsOf_eq (h : r.WellFormed) : fieldsOf r.request.bytes = r.map := by
  have hFields := fieldsOf_request h.unbroken []
  rwa [List.append_nil, h.fields_eq] at hFields

/-- Its length is that of the body. -/
theorem Message.WellFormed.lengthOf_eq (h : r.WellFormed) :
    lengthOf r.request.bytes = lengthInt r.body.length := by
  obtain ⟨text, hText, hSpells⟩ := h.length
  rw [lengthOf, h.fieldsOf_eq, bodyLength_spells hText hSpells]

theorem Message.length_body (r : Message) :
    r.request.bytes.length - r.request.headerBytes.length = r.body.length := by
  have hBytes : r.request.bytes.length = r.request.headerBytes.length + r.body.length := by
    rw [Request.bytes, List.length_append]
    rfl
  omega

/-- **RequestReady on a rendered request.** -/
theorem requestReady32_rendered (h : r.WellFormed) :
    ∃ conn, (Conn.receiving r.request.bytes).requestReady32 =
        (if 0 ≤ lengthInt r.body.length ∧ toInt32 r.body.length < lengthInt r.body.length
          then .incomplete else .parsed, conn) ∧
      conn.requestMethod = r.method ∧ conn.requestArgs = r.args ∧
      conn.headerFields = (({ unparsed r.request.bytes r.request.bytes.length with
        requestBodyOffset := some r.request.headerBytes.length } : Conn).setFields
          r.map).headerFields ∧
      conn.getRequestBody = if 0 ≤ lengthInt r.body.length then
        r.body.take (lengthInt r.body.length).toNat else r.body := by
  have hWaits : Waits32 r.request.bytes r.request.headerBytes.length r.request.bytes.length ↔
      0 ≤ lengthInt r.body.length ∧ toInt32 r.body.length < lengthInt r.body.length := by
    unfold Waits32
    rw [h.lengthOf_eq, r.length_body]
  have hLine := parseRequestLine_rendered h []
  rw [List.append_nil] at hLine
  refine ⟨parsedAt r.request.bytes r.request.headerBytes.length r.request.bytes.length, ?_, ?_⟩
  · rw [requestReady32_arrived h.arrived, if_congr hWaits rfl rfl]
  · have hBody : r.request.bytes.drop r.request.headerBytes.length = r.body := by
      rw [Request.bytes, List.drop_left]
      rfl
    obtain ⟨keep, fields', -, hEq⟩ := parsedAt_eq r.request.bytes
    have hUnparsed : (unparsed r.request.bytes r.request.bytes.length).requestMethod = r.method ∧
        (unparsed r.request.bytes r.request.bytes.length).requestArgs = r.args := by
      unfold unparsed
      rw [List.take_length, hLine]
      exact ⟨rfl, rfl⟩
    refine ⟨?_, ?_, ?_, ?_⟩
    · rw [hEq]
      exact hUnparsed.1
    · rw [hEq]
      exact hUnparsed.2
    · rw [parsedAt, h.fieldsOf_eq]
    · unfold Conn.getRequestBody
      rw [hEq]
      dsimp only [Option.getD_some]
      rw [unparsed_buffer, List.take_length, h.lengthOf_eq, substr, hBody]

/-- **Parsing inverts rendering** if and only if the length of the body fits into an `int`; or the
`int` it becomes is negative, so that the body is all that follows, and no field asks for the
connection to be kept. -/
theorem parse_inverts_iff (r : Message) (h : r.WellFormed) :
    r.Inverts ↔ r.body.length < 2 ^ 31 ∨ lengthInt r.body.length < 0 ∧ ¬ r.KeepsAlive := by
  obtain ⟨conn, hReady, hMethod, hArgs, hFields, hBody⟩ := requestReady32_rendered h
  have hLength : bodyLength r.map = lengthInt r.body.length := by
    obtain ⟨text, hText, hSpells⟩ := h.length
    exact bodyLength_spells hText hSpells
  -- method and arguments are always right; what is left are the fields and the body
  have hInverts : r.Inverts ↔
      ¬ (0 ≤ lengthInt r.body.length ∧ toInt32 r.body.length < lengthInt r.body.length) ∧
        conn.headerFields = some r.map ∧ conn.getRequestBody = r.body := by
    unfold Message.Inverts
    rw [hReady]
    constructor
    · rintro ⟨conn', hParsed, -, -, hFields', hBody'⟩
      obtain ⟨hStatus, rfl⟩ := Prod.mk.inj hParsed
      refine ⟨fun hWaits => ?_, hFields', hBody'⟩
      rw [if_pos hWaits] at hStatus
      exact absurd hStatus (by decide)
    · rintro ⟨hNot, hFields', hBody'⟩
      exact ⟨conn, by rw [if_neg hNot], hMethod, hArgs, hFields', hBody'⟩
  rw [hInverts, hFields, hBody]
  by_cases hSmall : r.body.length < 2 ^ 31
  · -- the `int` is the length, and the body is cut off behind it
    refine iff_of_true ⟨?_, ?_, ?_⟩ (.inl hSmall)
    · rw [lengthInt_of_lt hSmall, toInt32_of_lt hSmall]
      omega
    · refine headerFields_setFields (.inl ?_)
      rw [hLength, lengthInt_of_lt hSmall]
      omega
    · rw [lengthInt_of_lt hSmall, if_pos (by omega), Int.toNat_natCast, List.take_length]
  · by_cases hNegative : lengthInt r.body.length < 0
    · rw [if_neg (by omega)]
      by_cases hKeeps : r.KeepsAlive
      · refine iff_of_false ?_ ?_
        · -- a body without a length is not kept alive: the code erases the field
          rintro ⟨-, hSame, -⟩
          obtain ⟨value, hValue, hKeep⟩ := hKeeps
          rw [headerFields_setFields_erased (by omega) hValue hKeep, Option.some.injEq] at hSame
          have hErased := congrFun hSame connection
          rw [Function.update_self, hValue] at hErased
          cases hErased
        · rintro (hLt | ⟨-, hNot⟩)
          · exact hSmall hLt
          · exact hNot hKeeps
      · exact iff_of_true ⟨fun hWaits => by omega, headerFields_setFields (.inr hKeeps), rfl⟩
          (.inr ⟨hNegative, hKeeps⟩)
    · -- the `int` is smaller than the length
      refine iff_of_false ?_ ?_
      · rintro ⟨-, -, hSame⟩
        have hBound := lengthInt_lt r.body.length
        rw [if_pos (by omega)] at hSame
        have hLengths := congrArg List.length hSame
        rw [List.length_take] at hLengths
        omega
      · rintro (hLt | ⟨hLow, -⟩)
        · exact hSmall hLt
        · exact hNegative hLow

-- ---------------------------------------------------------------------------
-- Two requests
-- ---------------------------------------------------------------------------

/-- `"P a HTTP/1.0"`, a folded field `X`, and `Content-Length: ` with these digits -/
def foldedMessage (number body : Bytes) : Message where
  method := [80]
  args := [97]
  protocol := some [72, 84, 84, 80, 47, 49, 46, 48]
  fields := [⟨[88], [98], [([32, 9], [99])]⟩, ⟨HectorCore.Server.contentLength, number, []⟩]
  body := body

/-- A message whose field X has two lines. -/
theorem foldedMessage_wellFormed {number body : Bytes} (hDigits : ∀ c ∈ number, isDigit c = true)
    (hLength : digits 0 number = body.length) : (foldedMessage number body).WellFormed := by
  have hLine : 10 ∉ number := fun hTen => absurd (hDigits 10 hTen) (by decide)
  have hLetter : ∀ c : UInt8, 33 ≤ c → 32 ∉ [c] ∧ 13 ∉ [c] ∧ 10 ∉ [c] := by
    intro c hc
    simp only [List.mem_singleton]
    refine ⟨?_, ?_, ?_⟩ <;> rintro rfl <;> exact absurd hc (by decide)
  have hNames : [[88], HectorCore.Server.contentLength].Nodup := by decide
  have hText : (foldedMessage number body).map HectorCore.Server.contentLength =
      some (number ++ []) := by
    unfold Message.map foldedMessage
    rw [List.find?_cons_of_neg (by decide), List.find?_cons_of_pos (by simp)]
    rfl
  rw [List.append_nil] at hText
  refine ⟨hLetter 80 (by decide), hLetter 97 (by decide), ?_, ?_, hNames, number, hText, [], number,
    rfl, by simp, hDigits,
    hLength⟩
  · rintro protocol hProtocol
    obtain rfl : [72, 84, 84, 80, 47, 49, 46, 48] = protocol := Option.some.inj hProtocol
    decide
  · have hFolded : (⟨[88], [98], [([32, 9], [99])]⟩ : HeaderField).WellFormed :=
      ⟨by decide, by decide, by simp [isBlank], by decide +kernel, by decide, by simp [isBlank],
        by simp [isBlank]⟩
    have hName : HectorCore.Server.contentLength ≠ [] ∧ 13 ∉ HectorCore.Server.contentLength ∧
        10 ∉ HectorCore.Server.contentLength ∧
        ¬ colonSpace <:+: HectorCore.Server.contentLength := by decide +kernel
    have hNumber : (⟨HectorCore.Server.contentLength, number, []⟩ : HeaderField).WellFormed :=
      ⟨hName.1, ⟨hName.2.1, hName.2.2.1⟩, by simp [HectorCore.Server.contentLength, isBlank],
        hName.2.2.2, hLine, by simp, by simp⟩
    intro f hf
    rcases List.mem_cons.mp hf with rfl | hf
    · exact hFolded
    · obtain rfl := List.mem_singleton.mp hf
      exact hNumber

/-- With a body of two bytes. -/
theorem parse_inverts_folded : (foldedMessage [50] [97, 98]).Inverts :=
  (parse_inverts_iff _ (foldedMessage_wellFormed (by decide +kernel) (by decide +kernel))).mpr
    (.inl (by decide +kernel))

/-- `"4294967296"` -/
def fourGiB : Bytes := [52, 50, 57, 52, 57, 54, 55, 50, 57, 54]

/-- With a body of 4 GiB. -/
theorem not_inverts_fourGiB {body : Bytes} (hLength : body.length = 2 ^ 32) :
    (foldedMessage fourGiB body).WellFormed ∧ ¬ (foldedMessage fourGiB body).Inverts := by
  have hDigits : digits 0 fourGiB = body.length := by
    rw [hLength]
    decide +kernel
  have hWellFormed := foldedMessage_wellFormed (by decide +kernel) hDigits
  refine ⟨hWellFormed, ?_⟩
  obtain ⟨conn, hReady, -, -, -, hRead⟩ := requestReady32_rendered hWellFormed
  have hInt : lengthInt body.length = 0 := by
    rw [hLength]
    decide +kernel
  rintro ⟨conn', hParsed, -, -, -, hSame⟩
  rw [hReady] at hParsed
  obtain ⟨-, rfl⟩ := Prod.mk.inj hParsed
  have hEmpty : body = body.take (0 : Int).toNat := by
    have hBody : (foldedMessage fourGiB body).body = body := rfl
    rw [hSame, hBody, hInt, if_pos (Int.le_refl 0)] at hRead
    exact hRead
  have hZero : body.length = 0 := congrArg List.length hEmpty
  omega

/-- A body of `2 ^ 32` bytes is read as an empty one. -/
theorem parse_loses_body :
    (foldedMessage fourGiB (List.replicate (2 ^ 32) 97)).WellFormed ∧
      ¬ (foldedMessage fourGiB (List.replicate (2 ^ 32) 97)).Inverts :=
  not_inverts_fourGiB List.length_replicate

end HectorCore.Server
