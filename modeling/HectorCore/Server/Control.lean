import HectorCore.Objects.Properties
import HectorCore.Server.SendResponse

/-!
# Control — GET, SET and SHUTDOWN requests

The part of `BaseServer::HandleRequest` that looks at objects and their properties, with
`Object::GetProperty`, `SetProperty` and `ListProperties` and what `ObjectRegistry` makes of them,
in the loop of `SimpleHTTPServer::Request`.

* The objects are those that have been registered when the server starts. An object whose class has
  no table of properties is one with an empty table.
* `other` is what the other methods do; `none` says that there is no such method.

The results, for any run of GET and SET requests:

* `run_assigns`       — the world is what the accepted SET requests have made of it;
* `logLevel_reported` — whose level an object reports.
-/

namespace HectorCore.Server

open Lib (cStr printInt)
open HectorCore.Objects (ObjectRegistry ObjectProperties Loggers Level)

/-- The characters of a text of the source. -/
def text (s : String) : Bytes := s.toList.map fun c => UInt8.ofNat c.toNat

/-- "GET", "SET", "SHUTDOWN", "logLevel", "OK" -/
def getMethod : Bytes := [71, 69, 84]
def setMethod : Bytes := [83, 69, 84]
def shutdownMethod : Bytes := [83, 72, 85, 84, 68, 79, 87, 78]
def logLevel : Bytes := [108, 111, 103, 76, 101, 118, 101, 108]
def ok : Bytes := [79, 75]

-- ---------------------------------------------------------------------------
-- Responses
-- ---------------------------------------------------------------------------

namespace Response

def setResponseCode (r : Response) (code : Int) (description : Bytes) : Response :=
  { r with responseCode := code, responseStr := description }

def appendResponseBody (r : Response) (s : Bytes) : Response :=
  { r with responseBody := r.responseBody ++ s }

/-- `ErrorResponse`, with 1000 bytes for the page -/
def errorResponse (r : Response) (code : Int) (description message : Bytes) : Response :=
  { r.setResponseCode code description with
    responseBody := (text "<html><head><title>" ++ printInt code ++ text " - " ++ description ++
      text "</title></head><body>" ++ message ++ text "</body></html>\r\n").take 999 }

/-- The response of a new connection, and after `Clear`. -/
def new (keepAlive : Bool) : Response := ⟨200, ok, [], [], keepAlive⟩

end Response

-- ---------------------------------------------------------------------------
-- Objects
-- ---------------------------------------------------------------------------

variable {σ : Type}

/-- An object: the name of its logger, and its properties. -/
structure Managed (σ : Type) where
  logger : Bytes
  props : ObjectProperties σ

/-- The objects of a server, in the order of the table of the registry. -/
structure Managers (σ : Type) where
  registry : ObjectRegistry
  ids : List Bytes
  mem_ids : ∀ id, id ∈ ids ↔ (registry.getObject id).isSome
  nodup : ids.Nodup
  objects : Nat → Managed σ

/-- What requests change. -/
structure World (σ : Type) where
  states : Nat → σ
  loggers : Loggers
  running : Bool

namespace Managers

variable (env : Managers σ)

/-- `Object::GetProperty` -/
def getProperty (w : World σ) (o : Nat) (name : Bytes) : Option Bytes :=
  if name = logLevel then some (w.loggers.getLogLevel (env.objects o).logger)
  else (env.objects o).props.getProperty name (w.states o)

/-- `Object::SetProperty` -/
def setProperty (w : World σ) (o : Nat) (name value : Bytes) : Bool × World σ :=
  if name = logLevel then
    let (result, loggers) := w.loggers.setLogLevel (env.objects o).logger value
    (result, { w with loggers })
  else
    let (result, s) := (env.objects o).props.setProperty name value (w.states o)
    (result, { w with states := Function.update w.states o s })

/-- `Object::ListProperties` -/
def listProperties (o : Nat) : List Bytes := (env.objects o).props.listProperties ++ [logLevel]

def getObjectProperty (w : World σ) (id name : Bytes) : Option Bytes :=
  match env.registry.getObject id with
  | some o => env.getProperty w o name
  | none => none

def setObjectProperty (w : World σ) (id name value : Bytes) : Bool × World σ :=
  match env.registry.getObject id with
  | some o => env.setProperty w o name value
  | none => (false, w)

end Managers

-- ---------------------------------------------------------------------------
-- HandleRequest
-- ---------------------------------------------------------------------------

structure ControlRequest where
  method : Bytes
  args : Bytes
  body : Bytes
  deriving DecidableEq, Repr

/-- `if (args.substr(0, 1) == "/") args = args.substr(1);` -/
def stripSlash (args : Bytes) : Bytes := if args.take 1 = [47] then args.drop 1 else args

/-- `args.find_first_of('.')` -/
def findDot (args : Bytes) : Option Nat := args.findIdx? fun c => c = 46

/-- A list of names in a response. -/
def nameLines (names : List Bytes) : Bytes := names.flatMap fun name => name ++ crlf

/-- The first line of the body. -/
def firstLine (body : Bytes) : Bytes := body.takeWhile fun c => c ≠ 13 && c ≠ 10

namespace Managers

variable (env : Managers σ)

def get (w : World σ) (args : Bytes) (r : Response) : Response :=
  if args ≠ [] then
    match findDot args with
    | some dot =>
      match env.getObjectProperty w (cStr (args.take dot)) (cStr (args.drop (dot + 1))) with
      | some value => (r.setResponseCode 200 ok).appendResponseBody value
      | none => r.errorResponse 400 (text "Object/property not found") []
    | none =>
      match env.registry.getObject (cStr args) with
      | some o => r.appendResponseBody (nameLines (env.listProperties o))
      | none => r.errorResponse 400 (text "Object not found") []
  else (r.setResponseCode 200 ok).appendResponseBody (nameLines env.ids)

def set (w : World σ) (args body : Bytes) (r : Response) : World σ × Response :=
  if args ≠ [] then
    match findDot args with
    | some dot =>
      match env.setObjectProperty w (cStr (args.take dot)) (cStr (args.drop (dot + 1)))
          (cStr (firstLine body)) with
      | (true, w) => (w, r.setResponseCode 200 ok)
      | (false, w) => (w, r.errorResponse 400 (text "Object/property not found") [])
    | none => (w, r)
  else (w, r.errorResponse 400 (text "No object.property argument given") [])

/-- The other methods of a server. -/
abbrev Other (σ : Type) := World σ → ControlRequest → Response → Option (World σ × Response)

/-- `HandleRequest`; `none` when it returns false. -/
def handleRequest (other : Other σ) (w : World σ) (q : ControlRequest) (r : Response) :
    Option (World σ × Response) :=
  let args := stripSlash q.args
  if q.method = getMethod then some (w, env.get w args r)
  else if q.method = setMethod then some (env.set w args q.body r)
  else if q.method = shutdownMethod then
    some ({ w with running := false }, (r.setResponseCode 200 ok).appendResponseBody
      (text "Shutting down\r\n" ++ cStr q.args ++ crlf))
  else other w q r

/-- `HandleRequest` in the loop of `SimpleHTTPServer::Request`. -/
def answer (other : Other σ) (w : World σ) (q : ControlRequest) (r : Response) :
    World σ × Response :=
  match env.handleRequest other w q r with
  | some result => result
  | none => (w, r.errorResponse 501 (text "Not implemented")
      ((text "Method " ++ cStr q.method ++ text " not implemented").take 999))

/-- Request after request, each with a new response. -/
def run (other : Other σ) (keepAlive : Bool) : World σ → List ControlRequest →
    World σ × List Response
  | w, [] => (w, [])
  | w, q :: qs =>
    let (w, r) := env.answer other w q (.new keepAlive)
    let (w, rs) := run other keepAlive w qs
    (w, r :: rs)

-- ---------------------------------------------------------------------------
-- What a SET does
-- ---------------------------------------------------------------------------

/-- The object and the property that the arguments name. -/
def address (args : Bytes) : Option (Bytes × Bytes) :=
  (findDot (stripSlash args)).map fun dot =>
    (cStr ((stripSlash args).take dot), cStr ((stripSlash args).drop (dot + 1)))

/-- A property that is set: the object, its name, and the value. -/
structure Assignment where
  object : Nat
  name : Bytes
  value : Bytes
  deriving DecidableEq, Repr

/-- The property can be set to the value. -/
def accepts (a : Assignment) : Bool :=
  if a.name = logLevel then (Level.ofStr a.value).isSome
  else ((env.objects a.object).props.setters a.name).isSome

/-- What a SET request asks for, if the object is there. -/
def asksFor (q : ControlRequest) : Option Assignment :=
  if q.method = setMethod then
    match address q.args with
    | some (id, name) =>
      (env.registry.getObject id).map fun o => ⟨o, name, cStr (firstLine q.body)⟩
    | none => none
  else none

/-- What a request sets. -/
def performed (q : ControlRequest) : Option Assignment := (env.asksFor q).filter env.accepts

def assign (w : World σ) (a : Assignment) : World σ := (env.setProperty w a.object a.name a.value).2

end Managers

open Managers (Assignment address)

variable {env : Managers σ} {other : Managers.Other σ} {w : World σ} {q : ControlRequest}
  {r : Response}
  {keepAlive : Bool}

/-- A property that cannot be set stays as it is. -/
theorem setProperty_eq (env : Managers σ) (w : World σ) (a : Assignment) :
    env.setProperty w a.object a.name a.value =
      (env.accepts a, if env.accepts a then env.assign w a else w) := by
  unfold Managers.assign Managers.accepts Managers.setProperty
  by_cases hLevel : a.name = logLevel
  · rw [if_pos hLevel, if_pos hLevel]
    unfold Loggers.setLogLevel
    cases Level.ofStr a.value <;> rfl
  · rw [if_neg hLevel, if_neg hLevel]
    unfold ObjectProperties.setProperty
    cases (env.objects a.object).props.setters a.name with
    | none =>
      show (false, { w with states := Function.update w.states a.object (w.states a.object) }) = _
      rw [Function.update_eq_self]
      rfl
    | some set => rfl

theorem findDot_nil_of {args : Bytes} {dot : Nat} (h : findDot args = some dot) : args ≠ [] := by
  rintro rfl
  cases h

/-- A SET that goes through to an object. -/
theorem set_eq_of_asks {a : Assignment} (hAsks : env.asksFor q = some a) (w : World σ)
    (r : Response) :
    env.set w (stripSlash q.args) q.body r =
      if env.accepts a then (env.assign w a, r.setResponseCode 200 ok)
      else (w, r.errorResponse 400 (text "Object/property not found") []) := by
  unfold Managers.asksFor address at hAsks
  split_ifs at hAsks with hMethod
  unfold Managers.set
  cases hDot : findDot (stripSlash q.args) with
  | none => rw [hDot] at hAsks; cases hAsks
  | some dot =>
    rw [hDot] at hAsks
    obtain ⟨o, hObject, rfl⟩ := Option.map_eq_some_iff.mp hAsks
    rw [if_pos (findDot_nil_of hDot)]
    unfold Managers.setObjectProperty
    dsimp only
    rw [hObject]
    have hSet := setProperty_eq env w
      ⟨o, cStr ((stripSlash q.args).drop (dot + 1)), cStr (firstLine q.body)⟩
    dsimp only at hSet ⊢
    rw [hSet]
    cases env.accepts ⟨o, cStr ((stripSlash q.args).drop (dot + 1)), cStr (firstLine q.body)⟩ <;>
      rfl

/-- A SET that does not name a property of an object changes nothing. -/
theorem set_eq_of_none (hMethod : q.method = setMethod) (hAsks : env.asksFor q = none) (w : World σ)
    (r : Response) :
    (env.set w (stripSlash q.args) q.body r).1 = w ∧
      (env.set w (stripSlash q.args) q.body r).2.responseCode =
        if stripSlash q.args ≠ [] ∧ findDot (stripSlash q.args) = none
        then r.responseCode else 400 := by
  unfold Managers.asksFor address at hAsks
  rw [if_pos hMethod] at hAsks
  unfold Managers.set
  by_cases hArgs : stripSlash q.args = []
  · rw [if_neg (not_not_intro hArgs), if_neg fun hBoth => hBoth.1 hArgs]
    exact ⟨rfl, rfl⟩
  · rw [if_pos hArgs]
    cases hDot : findDot (stripSlash q.args) with
    | none => exact ⟨rfl, (if_pos ⟨hArgs, rfl⟩).symm⟩
    | some dot =>
      rw [hDot] at hAsks
      have hNone := Option.map_eq_none_iff.mp hAsks
      unfold Managers.setObjectProperty
      dsimp only
      rw [hNone, if_neg fun hBoth => absurd hBoth.2 nofun]
      exact ⟨rfl, rfl⟩

/-- Whether the answer to a SET is "200 OK": also when there is no dot, and nothing is set. -/
def AnsweredOk (env : Managers σ) (q : ControlRequest) : Prop :=
  (env.performed q).isSome ∨ stripSlash q.args ≠ [] ∧ findDot (stripSlash q.args) = none

theorem answer_get (hMethod : q.method = getMethod) :
    env.answer other w q r = (w, env.get w (stripSlash q.args) r) := by
  unfold Managers.answer Managers.handleRequest
  dsimp only
  rw [if_pos hMethod]

theorem performed_get (hMethod : q.method = getMethod) : env.performed q = none := by
  unfold Managers.performed Managers.asksFor
  rw [hMethod, if_neg (by decide)]
  rfl

theorem answer_set (hMethod : q.method = setMethod) (hOk : r.responseCode = 200) :
    (env.answer other w q r).1 = (env.performed q).elim w (env.assign w) ∧
      ((env.answer other w q r).2.responseCode = 200 ↔ AnsweredOk env q) := by
  have hNotGet : q.method ≠ getMethod := by rw [hMethod]; decide
  have hAnswer : env.answer other w q r = env.set w (stripSlash q.args) q.body r := by
    unfold Managers.answer Managers.handleRequest
    dsimp only
    rw [if_neg hNotGet, if_pos hMethod]
  rw [hAnswer]
  unfold AnsweredOk Managers.performed
  cases hAsks : env.asksFor q with
  | none =>
    obtain ⟨hWorld, hCode⟩ := set_eq_of_none hMethod hAsks w r
    refine ⟨hWorld, ?_⟩
    rw [hCode, hOk]
    simp
  | some a =>
    have hDot : findDot (stripSlash q.args) ≠ none := by
      intro hNone
      unfold Managers.asksFor address at hAsks
      rw [if_pos hMethod, hNone] at hAsks
      cases hAsks
    rw [set_eq_of_asks hAsks]
    cases hAccepts : env.accepts a with
    | true =>
      rw [if_pos rfl, Option.filter_some, if_pos hAccepts]
      exact ⟨rfl, iff_of_true rfl (Or.inl rfl)⟩
    | false =>
      rw [if_neg nofun, Option.filter_some, if_neg (by rw [hAccepts]; nofun)]
      have hCode : (400 : Int) ≠ 200 := by decide
      exact ⟨rfl, iff_of_false hCode fun hOr => hOr.elim nofun fun hBoth => hDot hBoth.2⟩

/-- **What a run of requests has done.** The world is what the accepted SET requests have made of
it, in their order; all others leave it alone. A SET is answered "200 OK" if it was accepted, or has
no dot. -/
theorem run_assigns (env : Managers σ) (other : Managers.Other σ) (keepAlive : Bool) (w : World σ)
    (qs : List ControlRequest) (hMethods : ∀ q ∈ qs, q.method = getMethod ∨ q.method = setMethod) :
    (env.run other keepAlive w qs).1 = (qs.filterMap env.performed).foldl env.assign w ∧
      List.Forall₂ (fun q r => q.method = setMethod → (r.responseCode = 200 ↔ AnsweredOk env q)) qs
        (env.run other keepAlive w qs).2 := by
  induction qs generalizing w with
  | nil => exact ⟨rfl, .nil⟩
  | cons q qs ih =>
    have hRest := ih (env.answer other w q (.new keepAlive)).1
      fun q' hq' => hMethods q' (List.mem_cons_of_mem _ hq')
    refine ⟨?_, .cons (fun hMethod => (answer_set hMethod rfl).2) hRest.2⟩
    show (env.run other keepAlive (env.answer other w q (.new keepAlive)).1 qs).1 = _
    rw [hRest.1, List.filterMap_cons]
    rcases hMethods q List.mem_cons_self with hGet | hSet
    · rw [answer_get hGet, performed_get hGet]
    · rw [(answer_set hSet rfl).1]
      cases env.performed q <;> rfl

/-- The objects `a` and `b`, with one logger. -/
def twoObjects : Managers Unit where
  registry := ⟨fun id => if id = [97] then some 0 else if id = [98] then some 1 else none⟩
  ids := [[97], [98]]
  mem_ids := by
    intro id
    unfold HectorCore.Objects.ObjectRegistry.getObject
    dsimp only
    split_ifs with hA hB
    · simp [hA]
    · simp [hB]
    · simp [hA, hB]
  nodup := by decide
  objects _ := ⟨[76], .new⟩

def quietWorld : World Unit := ⟨fun _ => (), ⟨.info, fun _ => none⟩, true⟩

/-- `SET /a.logLevel` with `DEBUG`, twice, the second time without the dot -/
def setLevels : List ControlRequest :=
  [⟨setMethod, [47, 97, 46] ++ logLevel, [68, 69, 66, 85, 71]⟩,
    ⟨setMethod, [47, 97] ++ logLevel, [73, 78, 70, 79]⟩]

theorem setLevels_methods : ∀ q ∈ setLevels, q.method = getMethod ∨ q.method = setMethod := by
  decide +kernel

theorem run_assigns_levels :
    (twoObjects.run (fun _ _ _ => none) true quietWorld setLevels).1 =
        (setLevels.filterMap twoObjects.performed).foldl twoObjects.assign quietWorld ∧
      setLevels.filterMap twoObjects.performed = [⟨0, logLevel, [68, 69, 66, 85, 71]⟩] :=
  ⟨(run_assigns twoObjects _ true quietWorld setLevels setLevels_methods).1, by decide +kernel⟩

-- ---------------------------------------------------------------------------
-- Log levels
-- ---------------------------------------------------------------------------

/-- The logger whose level is set, and the level. -/
def Managers.levelSet (env : Managers σ) (a : Assignment) : Option (Bytes × Level) :=
  if a.name = logLevel then
    (Level.ofStr a.value).map fun level => ((env.objects a.object).logger, level)
  else none

/-- The levels that requests set, in their order. -/
def Managers.levelsSet (env : Managers σ) (qs : List ControlRequest) : List (Bytes × Level) :=
  qs.filterMap fun q => (env.asksFor q).bind env.levelSet

/-- The level of a logger after some requests: the last one that was set, or the one it had. -/
def Managers.levelAfter (env : Managers σ) (w : World σ) (qs : List ControlRequest)
    (logger : Bytes) :
    Option Level :=
  match Lib.lastWith Prod.fst logger (env.levelsSet qs) with
  | some e => some e.2
  | none => w.loggers.named logger

theorem assign_loggers (env : Managers σ) (w : World σ) (a : Assignment) :
    (env.assign w a).loggers = match env.levelSet a with
      | some e => { w.loggers with named := Function.update w.loggers.named e.1 (some e.2) }
      | none => w.loggers := by
  unfold Managers.assign Managers.setProperty Managers.levelSet
  by_cases hLevel : a.name = logLevel
  · rw [if_pos hLevel, if_pos hLevel]
    unfold Loggers.setLogLevel
    cases Level.ofStr a.value <;> rfl
  · rw [if_neg hLevel, if_neg hLevel]

theorem levelSet_of_performed (env : Managers σ) (q : ControlRequest) :
    (env.performed q).bind env.levelSet = (env.asksFor q).bind env.levelSet := by
  unfold Managers.performed
  cases env.asksFor q with
  | none => rfl
  | some a =>
    rw [Option.filter_some]
    split_ifs with hAccepts
    · rfl
    · -- what is not accepted has no level
      unfold Managers.accepts at hAccepts
      show none = env.levelSet a
      unfold Managers.levelSet
      split_ifs at hAccepts ⊢ with hLevel
      · cases hStr : Level.ofStr a.value with
        | none => rfl
        | some level => rw [hStr] at hAccepts; exact absurd rfl hAccepts
      · rfl

theorem foldl_assign_loggers (env : Managers σ) (w : World σ) (as : List Assignment) :
    (as.foldl env.assign w).loggers = ⟨w.loggers.root,
      (as.filterMap env.levelSet).foldl (fun g e => Function.update g e.1 (some e.2))
      w.loggers.named⟩ := by
  induction as generalizing w with
  | nil => rfl
  | cons a as ih =>
    rw [List.foldl_cons, ih, assign_loggers, List.filterMap_cons]
    cases env.levelSet a <;> rfl

/-- The levels after a run. -/
theorem run_loggers (env : Managers σ) (other : Managers.Other σ) (keepAlive : Bool) (w : World σ)
    (qs : List ControlRequest) (hMethods : ∀ q ∈ qs, q.method = getMethod ∨ q.method = setMethod) :
    (env.run other keepAlive w qs).1.loggers = ⟨w.loggers.root, env.levelAfter w qs⟩ := by
  have hSets : (qs.filterMap env.performed).filterMap env.levelSet = env.levelsSet qs := by
    rw [List.filterMap_filterMap]
    exact List.filterMap_congr fun q _ => levelSet_of_performed env q
  rw [(run_assigns env other keepAlive w qs hMethods).1, foldl_assign_loggers, hSets]
  congr 1
  funext logger
  rw [Lib.foldl_update, Managers.levelAfter]
  cases Lib.lastWith Prod.fst logger (env.levelsSet qs) <;> rfl

/-- **The log level that an object reports** after any GET and SET requests: of its logger and those
above it the nearest one whose level has a name decides, and the level is the last one that was set
through any object of that logger. -/
theorem logLevel_reported (env : Managers σ) (other : Managers.Other σ) (keepAlive : Bool)
    (w : World σ)
    (qs : List ControlRequest) (hMethods : ∀ q ∈ qs, q.method = getMethod ∨ q.method = setMethod)
    {id : Bytes} {o : Nat} (hObject : env.registry.getObject id = some o)
    (hMethod : q.method = getMethod)
    (hAddress : address q.args = some (id, logLevel)) :
    (env.answer other (env.run other keepAlive w qs).1 q (.new keepAlive)).2 =
      ⟨200, ok, [], (((env.objects o).logger :: HectorCore.Objects.ancestors
      (env.objects o).logger).findSome?
        fun logger => (env.levelAfter w qs logger).bind Level.str).getD
          (w.loggers.root.str.getD HectorCore.Objects.unknown), keepAlive⟩ := by
  rw [answer_get hMethod]
  unfold address at hAddress
  obtain ⟨dot, hDot, hNames⟩ := Option.map_eq_some_iff.mp hAddress
  obtain ⟨hId, hName⟩ := Prod.mk.inj hNames
  unfold Managers.get
  dsimp only
  rw [if_pos (findDot_nil_of hDot), hDot]
  dsimp only
  rw [hId, hName, Managers.getObjectProperty, hObject]
  dsimp only
  rw [Managers.getProperty, if_pos rfl, run_loggers env other keepAlive w qs hMethods,
    Loggers.getLogLevel,
    HectorCore.Objects.getLogLevelStr_eq]
  rfl

theorem logLevel_reported_other :
    (twoObjects.answer (fun _ _ _ => none)
      (twoObjects.run (fun _ _ _ => none) true quietWorld setLevels).1
      ⟨getMethod, [47, 98, 46] ++ logLevel, []⟩ (.new true)).2 =
        ⟨200, ok, [], [68, 69, 66, 85, 71], true⟩ := by
  have hObject : twoObjects.registry.getObject [98] = some 1 := rfl
  rw [logLevel_reported twoObjects _ true quietWorld setLevels setLevels_methods hObject rfl
    (by decide +kernel)]
  decide +kernel

end HectorCore.Server
