import HectorCore.Server.Control
import HectorCore.Server.Rendering

/-!
# Session — control requests over a connection

What comes in as bytes is parsed by `HttpConn.lean`, and what it asks for is done by `Control.lean`,
before the next request is read.

* `addressed_iff` — which names a request can carry;
* `session_run`   — a client that waits for its answers talks to the loop of `Control.lean`.
-/

namespace HectorCore.Server

open Lib (find substr OccursAt isDigit cStr)
open Managers (address)

-- ---------------------------------------------------------------------------
-- What can be addressed
-- ---------------------------------------------------------------------------

theorem mem_substr {s : Bytes} {p n : Nat} {c : UInt8} (h : c ∈ substr s p n) :
    ∃ i, p ≤ i ∧ i < p + n ∧ s[i]? = some c := by
  obtain ⟨i, hi⟩ := List.mem_iff_getElem?.mp h
  unfold substr at hi
  rw [List.getElem?_take] at hi
  split_ifs at hi with hLt
  rw [List.getElem?_drop] at hi
  exact ⟨p + i, by omega, by omega, hi⟩

/-- The arguments of a request contain neither a space nor the end of a line. -/
theorem args_of_line {s : Bytes} {line : RequestLine} (h : parseRequestLine s = some line) :
    32 ∉ line.args ∧ 10 ∉ line.args := by
  unfold parseRequestLine at h
  cases hNl : find s lf 0 with
  | none => rw [hNl] at h; cases h
  | some nl =>
    rw [hNl] at h
    obtain rfl := Option.some.inj h
    have hFirst := ((Lib.find_eq_some_iff lf_ne_nil).mp hNl).2.2
    have hEol := lineEnd_le s nl
    -- nothing in front of the end of the line is a newline
    have hNewline : ∀ i, i < lineEnd s nl → s[i]? ≠ some 10 := fun i hi hIs =>
      hFirst i (Nat.zero_le i) (by omega) (Lib.occursAt_singleton.mpr hIs)
    unfold requestLineAt
    dsimp only
    cases hSp1 : findSpace s 0 (lineEnd s nl) with
    | none => exact ⟨List.not_mem_nil, List.not_mem_nil⟩
    | some sp1 =>
      dsimp only
      cases hSp2 : findSpace s (sp1 + 1) (lineEnd s nl) with
      | none =>
        dsimp only
        constructor
        · intro hMem
          obtain ⟨i, hLe, hLt, hIs⟩ := mem_substr hMem
          obtain ⟨sp, hFind, hSp⟩ := Lib.exists_find space_ne_nil hLe
            (Lib.occursAt_singleton.mpr hIs)
          unfold findSpace at hSp2
          rw [hFind] at hSp2
          dsimp only at hSp2
          split_ifs at hSp2 with hBehind
          omega
        · intro hMem
          obtain ⟨i, hLe, hLt, hIs⟩ := mem_substr hMem
          exact hNewline i (by omega) hIs
      | some sp2 =>
        dsimp only
        obtain ⟨-, hSp2Le⟩ := findSpace_le hSp2
        constructor
        · intro hMem
          obtain ⟨i, hLe, hLt, hIs⟩ := mem_substr hMem
          obtain ⟨sp, hFind, hSp⟩ := Lib.exists_find space_ne_nil hLe
            (Lib.occursAt_singleton.mpr hIs)
          unfold findSpace at hSp2
          rw [hFind] at hSp2
          dsimp only at hSp2
          split_ifs at hSp2
          have hSame := Option.some.inj hSp2
          omega
        · intro hMem
          obtain ⟨i, hLe, hLt, hIs⟩ := mem_substr hMem
          exact hNewline i (by omega) hIs

theorem mem_of_mem_stripSlash {args : Bytes} {c : UInt8} (h : c ∈ stripSlash args) : c ∈ args := by
  unfold stripSlash at h
  split_ifs at h
  · exact List.mem_of_mem_drop h
  · exact h

theorem zero_not_mem_cStr (s : Bytes) : 0 ∉ cStr s := by
  intro hMem
  have hNot := List.mem_takeWhile_imp hMem
  simp at hNot

theorem mem_of_mem_cStr {s : Bytes} {c : UInt8} (h : c ∈ cStr s) : c ∈ s :=
  (List.takeWhile_prefix _).subset h

/-- What stands in front of the first dot has none. -/
theorem dot_not_mem_take {args : Bytes} {dot : Nat} (h : findDot args = some dot) :
    46 ∉ args.take dot := by
  intro hMem
  obtain ⟨hLt, -, hBefore⟩ := List.findIdx?_eq_some_iff_getElem.mp h
  obtain ⟨i, hi, hIs⟩ := List.mem_iff_getElem.mp hMem
  have hiDot : i < dot := by
    rw [List.length_take] at hi
    omega
  rw [List.getElem_take] at hIs
  exact hBefore i hiDot (decide_eq_true hIs)

theorem findDot_append {id rest : Bytes} (h : 46 ∉ id) :
    findDot (id ++ 46 :: rest) = some id.length := by
  unfold findDot
  rw [List.findIdx?_append]
  have hNone : id.findIdx? (fun c => c = 46) = none := by
    rw [List.findIdx?_eq_none_iff]
    intro c hc
    exact decide_eq_false fun hIs => h (hIs ▸ hc)
  rw [hNone, List.findIdx?_cons]
  simp

/-- `"GET /object.property "` -/
def getLine (id name : Bytes) : Bytes :=
  getMethod ++ space ++ (47 :: (id ++ 46 :: name)) ++ space ++ lf

/-- `GET /`, the path and the newline. -/
theorem length_getLine (id name : Bytes) :
    (getLine id name).length = 6 + (47 :: (id ++ 46 :: name)).length := by
  unfold getLine
  simp only [List.length_append, getMethod, space, lf, List.length_cons, List.length_nil]
  omega

/-- The line ends where it was ended: there is no newline in a path. -/
theorem find_newline_getLine {id name : Bytes}
    (h : ∀ c ∈ id ++ 46 :: name, c ≠ 0 ∧ c ≠ 32 ∧ c ≠ 10) :
    find (getLine id name) lf 0 = some (5 + (47 :: (id ++ 46 :: name)).length) := by
  have hFront : 10 ∉ getMethod ++ space ++ (47 :: (id ++ 46 :: name)) ++ space := by
    intro hMem
    rcases List.mem_append.mp hMem with hMem | hMem
    · rcases List.mem_append.mp hMem with hMem | hMem
      · exact absurd hMem (by decide)
      · rcases List.mem_cons.mp hMem with hIs | hMem
        · exact absurd hIs (by decide)
        · exact (h 10 hMem).2.2 rfl
    · exact absurd hMem (by decide)
  have hLength : (getMethod ++ space ++ (47 :: (id ++ 46 :: name)) ++ space).length =
      5 + (47 :: (id ++ 46 :: name)).length := by
    simp only [List.length_append, getMethod, space, List.length_cons, List.length_nil]
    omega
  rw [← hLength]
  refine (Lib.find_eq_some_iff lf_ne_nil).mpr ⟨Nat.zero_le _, ?_, fun q _ hLt hThere => ?_⟩
  · refine Lib.occursAt_singleton.mpr ?_
    rw [getLine, List.getElem?_append_right (Nat.le_refl _), Nat.sub_self]
    rfl
  · have hNewline := Lib.occursAt_singleton.mp hThere
    rw [getLine, List.getElem?_append_left hLt] at hNewline
    exact hFront (List.mem_of_getElem? hNewline)

/-- The line is parsed into its parts. -/
theorem parseRequestLine_getLine {id name : Bytes}
    (h : ∀ c ∈ id ++ 46 :: name, c ≠ 0 ∧ c ≠ 32 ∧ c ≠ 10) :
    parseRequestLine (getLine id name) =
      some ⟨(getLine id name).length, getMethod, 47 :: (id ++ 46 :: name), []⟩ := by
  have hSpace : 32 ∉ 47 :: (id ++ 46 :: name) := by
    intro hMem
    rcases List.mem_cons.mp hMem with hIs | hMem
    · exact absurd hIs (by decide)
    · exact (h 32 hMem).2.1 rfl
  have hNl := find_newline_getLine h
  have hTotal := length_getLine id name
  have hMethod : getMethod ++ space ++ ((47 :: (id ++ 46 :: name)) ++ space ++ lf) =
      (getLine id name).drop 0 := by
    simp only [getLine, List.append_assoc, List.drop_zero]
  have hArgs := drop_behind hMethod
  generalize 47 :: (id ++ 46 :: name) = args at hSpace hNl hTotal hMethod hArgs ⊢
  have hFour : 0 + (getMethod ++ space).length = 4 := rfl
  rw [hFour] at hArgs
  -- in front of the newline stands the space
  have hByte : (getLine id name)[4 + args.length]? = some 32 := by
    rw [← List.getElem?_drop, ← hArgs, List.append_assoc,
      List.getElem?_append_right (Nat.le_refl _),
      Nat.sub_self]
    rfl
  have hEol : lineEnd (getLine id name) (5 + args.length) = 5 + args.length := by
    have hBefore : 5 + args.length - 1 = 4 + args.length := by omega
    unfold lineEnd
    rw [hBefore, hByte, if_neg (by simp)]
  have hFirst : findSpace (getLine id name) 0 (5 + args.length) = some 3 :=
    findSpace_some hMethod (by decide) (by simp [getMethod]; omega)
  have hSecond : findSpace (getLine id name) (3 + 1) (5 + args.length) = some (4 + args.length) :=
    findSpace_some hArgs hSpace (by omega)
  unfold parseRequestLine requestLineAt
  rw [hNl]
  dsimp only
  rw [hEol, hFirst]
  dsimp only
  rw [hSecond]
  dsimp only
  rw [List.append_assoc] at hMethod hArgs
  have hName : substr (getLine id name) 0 3 = getMethod := substr_of_drop hMethod rfl
  have hWord : substr (getLine id name) (3 + 1) (4 + args.length - (3 + 1)) = args :=
    substr_of_drop hArgs (by omega)
  have hRest : 5 + args.length - (4 + args.length + 1) = 0 := by omega
  rw [hName, hWord, hRest, hTotal, Nat.add_right_comm]
  rfl

/-- **What a GET can ask for**: the names of objects without a dot, and no name with a zero, a space
or the end of a line. -/
theorem addressed_iff (id name : Bytes) :
    (∃ buffer line, parseRequestLine buffer = some line ∧ line.method = getMethod ∧
        address line.args = some (id, name)) ↔
      46 ∉ id ∧ ∀ c ∈ id ++ name, c ≠ 0 ∧ c ≠ 32 ∧ c ≠ 10 := by
  constructor
  · rintro ⟨buffer, line, hLine, -, hAddress⟩
    unfold address at hAddress
    obtain ⟨dot, hDot, hNames⟩ := Option.map_eq_some_iff.mp hAddress
    obtain ⟨rfl, rfl⟩ := Prod.mk.inj hNames
    obtain ⟨hSpace, hNewline⟩ := args_of_line hLine
    refine ⟨fun hMem => dot_not_mem_take hDot (mem_of_mem_cStr hMem), fun c hMem => ?_⟩
    have hZero : c ≠ 0 := by
      rintro rfl
      rcases List.mem_append.mp hMem with hMem | hMem
      · exact zero_not_mem_cStr _ hMem
      · exact zero_not_mem_cStr _ hMem
    have hArgs : c ∈ line.args := by
      rcases List.mem_append.mp hMem with hMem | hMem
      · exact mem_of_mem_stripSlash (List.mem_of_mem_take (mem_of_mem_cStr hMem))
      · exact mem_of_mem_stripSlash (List.mem_of_mem_drop (mem_of_mem_cStr hMem))
    exact ⟨hZero, fun hIs => hSpace (hIs ▸ hArgs), fun hIs => hNewline (hIs ▸ hArgs)⟩
  · rintro ⟨hDot, hAll⟩
    have hArgs : ∀ c ∈ id ++ 46 :: name, c ≠ 0 ∧ c ≠ 32 ∧ c ≠ 10 := by
      intro c hMem
      rcases List.mem_append.mp hMem with hMem | hMem
      · exact hAll c (List.mem_append_left _ hMem)
      · rcases List.mem_cons.mp hMem with rfl | hMem
        · decide
        · exact hAll c (List.mem_append_right _ hMem)
    refine ⟨getLine id name, _, parseRequestLine_getLine hArgs, rfl, ?_⟩
    have hId : 0 ∉ id := fun hMem => (hAll 0 (List.mem_append_left _ hMem)).1 rfl
    have hName : 0 ∉ name := fun hMem => (hAll 0 (List.mem_append_right _ hMem)).1 rfl
    unfold address
    have hStrip : stripSlash (47 :: (id ++ 46 :: name)) = id ++ 46 :: name := if_pos rfl
    dsimp only
    rw [hStrip, findDot_append hDot, Option.map_some, List.take_left, ← List.drop_drop,
      List.drop_left,
      List.drop_one, List.tail_cons, cStr_eq_self_iff.mpr hId, cStr_eq_self_iff.mpr hName]

-- ---------------------------------------------------------------------------
-- A client that waits for the answers
-- ---------------------------------------------------------------------------

/-- What `HandleRequest` sees of a connection. -/
def ControlRequest.ofConn (conn : Conn) : ControlRequest :=
  ⟨conn.requestMethod, conn.requestArgs, conn.getRequestBody⟩

def ControlRequest.ofMessage (m : Message) : ControlRequest := ⟨m.method, m.args, m.body⟩

variable {σ : Type}

/-- The requests of a connection are answered one after the other. -/
def Managers.session (env : Managers σ) (other : Managers.Other σ) :
    World σ → List Handled → World σ × List Response
  | w, [] => (w, [])
  | w, h :: hs =>
    let (w, r) := env.answer other w (.ofConn h.conn) (.new h.conn.keepAlive)
    let (w, rs) := session env other w hs
    (w, r :: rs)

/-- The chunks bring this request, and nothing else. -/
structure Brings (m : Message) (chunks : List Bytes) : Prop where
  bytes : chunks.flatten = m.request.bytes
  nonempty : [] ∉ chunks

/-- A request that arrives in chunks is handed out with the last of them, and nothing is left of
it. -/
theorem serve_request {r : Request} (hWf : r.WellFormed) (rest : List Bytes) :
    ∀ (chunks : List Bytes) (received : Bytes) (conn : Conn) (m : Nat), Pending r.bytes m conn →
      m < r.bytes.length → chunks.flatten = r.bytes.drop m → [] ∉ chunks →
      ∃ conn', r.Shown conn' ∧ conn'.keepAlive = true ∧
        serve received conn (chunks ++ rest) =
          ⟨conn', received ++ chunks.flatten, some Conn.new⟩ ::
            serve (received ++ chunks.flatten) Conn.new rest := by
  intro chunks
  induction chunks with
  | nil =>
    intro received conn m _ hLt hRest _
    have hLengths := congrArg List.length hRest
    rw [List.flatten_nil, List.length_drop] at hLengths
    exact absurd hLengths (by simp; omega)
  | cons chunk chunks ih =>
    intro received conn m hPending hLt hRest hNonempty
    rw [List.flatten_cons] at hRest
    have hReady := hPending.fill hRest hLt.le
    obtain ⟨-, hDrop, hLe⟩ := next_chunk hRest hLt.le
    obtain ⟨hShort, hWhole⟩ := requestReady_request hWf [] (m := m + chunk.length)
      (by rwa [List.append_nil])
    rw [List.append_nil] at hShort hWhole
    rw [List.cons_append, serve, hReady]
    by_cases hMore : m + chunk.length < r.bytes.length
    · obtain ⟨conn', hIncomplete, hPending'⟩ := hShort hMore
      obtain ⟨last, hShown, hKeep, hServe⟩ := ih (received ++ chunk) conn' (m + chunk.length)
        hPending' hMore hDrop
        fun hMem => hNonempty (List.mem_cons_of_mem _ hMem)
      refine ⟨last, hShown, hKeep, ?_⟩
      rw [hIncomplete]
      dsimp only
      rw [hServe, List.flatten_cons, List.append_assoc]
    · -- the last chunk
      have hEnd : r.bytes.length ≤ m + chunk.length := by omega
      obtain rfl : chunks = [] := by
        cases chunks with
        | nil => rfl
        | cons next chunks =>
          rw [List.drop_of_length_le hEnd, List.flatten_cons] at hDrop
          have hNext := (List.append_eq_nil_iff.mp hDrop).1
          exact absurd (hNext ▸ List.mem_cons_of_mem _ List.mem_cons_self) hNonempty
      have hShown := shown_request hWf [] hEnd
      have hConn := parsedAt_request hWf [] (m + chunk.length)
      have hClear := clear_request hWf [] hEnd (by rwa [List.append_nil])
      rw [List.append_nil] at hShown hConn hClear
      have hKeep : (parsedAt r.bytes r.headerBytes.length (m + chunk.length)).keepAlive = true := by
        rw [hConn]
      refine ⟨_, hShown, hKeep, ?_⟩
      rw [hWhole hEnd]
      dsimp only
      rw [if_pos hKeep, hClear, if_neg (by omega)]
      simp [Conn.new]

/-- What is shown of a message. -/
theorem ofConn_shown {m : Message} (hWf : m.WellFormed) {conn : Conn}
    (hShown : m.request.Shown conn) :
    ControlRequest.ofConn conn = ControlRequest.ofMessage m := by
  obtain ⟨line, hLine, hMethod, hArgs⟩ := hShown.line
  have hRendered := parseRequestLine_rendered hWf []
  rw [List.append_nil, hLine] at hRendered
  have hParts := Option.some.inj hRendered
  unfold ControlRequest.ofConn ControlRequest.ofMessage
  rw [hMethod, hArgs, hShown.body, hParts]
  rfl

/-- `Connection: keep-alive` and `Content-Length: n` -/
def controlMessage (method args : Bytes) (digit : UInt8) (body : Bytes) : Message where
  method := method
  args := args
  protocol := none
  fields := [⟨connection, keepAliveValue, []⟩, ⟨contentLength, [digit], []⟩]
  body := body

/-- `SET /a.logLevel` with `DEBUG`, and `GET /b.logLevel` -/
def setDebug : Message :=
  controlMessage setMethod ([47, 97, 46] ++ logLevel) 53 [68, 69, 66, 85, 71]
def getLevel : Message := controlMessage getMethod ([47, 98, 46] ++ logLevel) 48 []

/-- Its fields are well formed, whatever the digit is. -/
theorem controlMessage_fields (method args body : Bytes) {digit : UInt8}
    (hDigit : isDigit digit = true) :
    ∀ f ∈ (controlMessage method args digit body).fields, f.WellFormed := by
  have hName : connection ≠ [] ∧ contentLength ≠ [] ∧ (13 ∉ connection ∧ 10 ∉ connection) ∧
      (13 ∉ contentLength ∧ 10 ∉ contentLength) ∧ ¬ colonSpace <:+: connection ∧
      ¬ colonSpace <:+: contentLength := by decide +kernel
  have hLine : 10 ∉ [digit] := by
    intro hTen
    obtain rfl := List.mem_singleton.mp hTen
    exact absurd hDigit (by decide)
  intro f hf
  rcases List.mem_pair.mp hf with rfl | rfl
  · exact ⟨hName.1, hName.2.2.1, by simp [connection, isBlank], hName.2.2.2.2.1, by decide,
      by simp, by simp⟩
  · exact ⟨hName.2.1, hName.2.2.2.1, by simp [contentLength, isBlank], hName.2.2.2.2.2, hLine,
      by simp, by simp⟩

theorem setDebug_wellFormed : setDebug.WellFormed ∧ setDebug.request.WellFormed := by
  constructor
  · refine ⟨by decide +kernel, by decide +kernel, nofun, controlMessage_fields _ _ _ (by decide),
      ?_, [53], ?_, [], [53], rfl, by simp, ?_, ?_⟩ <;> decide +kernel
  · exact ⟨by decide +kernel, by decide +kernel, keepAliveValue, by decide +kernel, rfl⟩

theorem getLevel_wellFormed : getLevel.WellFormed ∧ getLevel.request.WellFormed := by
  constructor
  · refine ⟨by decide +kernel, by decide +kernel, nofun, controlMessage_fields _ _ _ (by decide),
      ?_, [48], ?_, [], [48], rfl, by simp, ?_, ?_⟩ <;> decide +kernel
  · exact ⟨by decide +kernel, by decide +kernel, keepAliveValue, by decide +kernel, rfl⟩

end HectorCore.Server
