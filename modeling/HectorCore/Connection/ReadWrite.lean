import HectorCore.Connection.Stderr
import HectorCore.Lib.CText
import Mathlib.Algebra.Group.Nat.Defs
import Mathlib.Data.Nat.Find

/-!
# ReadWrite — a conversation with a child process

`ProcessConnection::ReadWrite` (`lib/ProcessConnection.cc`) and `StdioConnection::ReadWrite`
(`lib/StdioConnection.cc`), which is the same without a standard error. The loop ends when `select`
has nothing to report, and that it can only say when both sides are done: until then it waits.

* `Turn` is what the operating system answers in one turn of the loop; which descriptors are ready
  matters for those that the code asks for only.
* `Blocks` is the documented behaviour of `select` without a time-out: it comes back with an error
  or with a descriptor.
* The two sides do not look at each other. `Channel.after` is what one of them does by itself.

Main result: `readWrite_returns_iff`. A `read` that returns zero changes nothing: the end of the
file does not end the loop.
-/

namespace HectorCore.Connection

-- ---------------------------------------------------------------------------
-- The code
-- ---------------------------------------------------------------------------

/-- `written_bytes` and `write_done`, or `read_bytes` and `read_done`. -/
structure Channel where
  bytes : Nat
  done : Bool
  deriving DecidableEq, Repr

/-- `(buffer == NULL || len == 0) ? true : false`; `NULL` has no length. -/
def Channel.start (buffer : Option Nat) : Channel := ⟨0, buffer.getD 0 = 0⟩

/-- `write` or `read` has returned `r`. -/
def Channel.transfer (len : Nat) (c : Channel) (r : Int) : Channel :=
  if r < 0 then { c with done := true }
  else if 0 < r then
    let bytes := c.bytes + r.toNat
    if bytes = len then ⟨bytes, true⟩ else { c with bytes }
  else c

structure Call where
  writeBuffer : Option Nat
  readBuffer : Option Nat
  waitForRead : Bool

/-- The answers of one turn. -/
structure Turn where
  /-- `select` fails. -/
  error : Bool
  writable : Bool
  readable : Bool
  complaining : Bool
  /-- What `write` returns, and what `read` returns for the output and the standard error. -/
  written : Int
  read : Int
  complaint : Option (List UInt8)
  deriving DecidableEq

structure State where
  write : Channel
  read : Channel
  stderr : Stderr
  timeout : Bool
  deriving DecidableEq

inductive Outcome where
  | running (s : State)
  | returned (result : Int) (s : State)
  /-- A copy that is not defined. -/
  | undefined

section Code

-- whether there is a standard error: `ProcessConnection`, or `StdioConnection`
variable (hasStderr : Bool) (call : Call)

/-- "ready to read stderr" -/
def Stderr.hear (s : Stderr) (complaint : Option (List UInt8)) : Stderr :=
  match complaint with
  | none | some [] => s
  | some chunk => s.receive chunk

/-- The condition of the loop, and the result behind it. -/
def check (s : State) : Outcome :=
  if !s.write.done || (call.waitForRead && !s.read.done) || !s.timeout then .running s
  else .returned (Lib.toInt32 (s.read.bytes + s.write.bytes)) s

/-- The body of the loop. -/
def turn (s : State) (t : Turn) : Outcome :=
  let writes := !s.write.done && t.writable
  let reads := !s.read.done && t.readable
  let complains := hasStderr && t.complaining
  if t.error then .returned (-1) s
  else if !writes && !reads && !complains then check call { s with timeout := true }
  else
    let write := if writes then s.write.transfer (call.writeBuffer.getD 0) t.written else s.write
    let read := if reads then s.read.transfer (call.readBuffer.getD 0) t.read else s.read
    let stderr := if complains then s.stderr.hear t.complaint else s.stderr
    if stderr.undefined then .undefined
    else check call { write, read, stderr, timeout := false }

/-- `ReadWrite`, after so many turns. -/
def readWrite (stderr : Stderr) (env : Nat → Turn) : Nat → Outcome
  | 0 => check call ⟨.start call.writeBuffer, .start call.readBuffer, stderr, false⟩
  | n + 1 =>
    match readWrite stderr env n with
    | .running s => turn hasStderr call s (env n)
    | outcome => outcome

end Code

-- ---------------------------------------------------------------------------
-- One side
-- ---------------------------------------------------------------------------

/-- One side after so many turns: `ready` when `select` says so, and `result` is what is
returned. -/
def Channel.after (buffer : Option Nat) (ready : Nat → Bool) (result : Nat → Int) : Nat → Channel
  | 0 => .start buffer
  | n + 1 =>
    let c := after buffer ready result n
    if !c.done && ready n then c.transfer (buffer.getD 0) (result n) else c

/-- A side that is done stays as it is. -/
theorem Channel.after_of_done {buffer : Option Nat} {ready : Nat → Bool} {result : Nat → Int}
    {m n : Nat} (hDone : (after buffer ready result m).done = true) (hLe : m ≤ n) :
    after buffer ready result n = after buffer ready result m := by
  induction n, hLe using Nat.le_induction with
  | base => rfl
  | succ n _ ih =>
    rw [after, ih]
    simp [hDone]

/-- Nothing comes any more, and the side is not done yet: it will never be. -/
theorem Channel.after_of_zero {buffer : Option Nat} {ready : Nat → Bool} {result : Nat → Int}
    {m n : Nat} (hZero : ∀ i, m ≤ i → result i = 0) (hLe : m ≤ n) :
    after buffer ready result n = after buffer ready result m := by
  induction n, hLe using Nat.le_induction with
  | base => rfl
  | succ n hn ih =>
    rw [after, hZero n hn, ← ih]
    simp [transfer]

section Answers

variable (hasStderr : Bool) (call : Call) (stderr : Stderr) (env : Nat → Turn)

/-- The writing side, and the reading side. -/
def writeAfter : Nat → Channel :=
  Channel.after call.writeBuffer (fun n => (env n).writable) fun n => (env n).written

def readAfter : Nat → Channel :=
  Channel.after call.readBuffer (fun n => (env n).readable) fun n => (env n).read

def stderrAfter : Nat → Stderr
  | 0 => stderr
  | n + 1 =>
    if hasStderr && (env n).complaining then (stderrAfter n).hear (env n).complaint
    else stderrAfter n

/-- Some descriptor that the code asks for is ready. -/
def Ready (n : Nat) : Prop :=
  ((writeAfter call env n).done = false ∧ (env n).writable = true) ∨
    ((readAfter call env n).done = false ∧ (env n).readable = true) ∨
    (hasStderr = true ∧ (env n).complaining = true)

/-- `select` comes back with an error or a descriptor, when it is called without a time-out. -/
def Blocks : Prop :=
  ∀ n, (env n).error = false →
    (writeAfter call env n).done = false ∨ (readAfter call env n).done = false →
    Ready hasStderr call env n

/-- From some turn on there is nothing but the end of the file to read. -/
def EndsOfFile : Prop := ∃ m, ∀ n, m ≤ n → (env n).readable = true ∧ (env n).read = 0

/-- The call returns, and the number of bytes. -/
def Returns : Prop :=
  ∃ n s, readWrite hasStderr call stderr env n =
    .returned ((s.read.bytes + s.write.bytes : Nat) : Int) s

/-- Both sides are done, the standard error is quiet then, nothing has failed so far, and an `int`
can count the bytes. -/
structure EndsAt (n : Nat) : Prop where
  noError : ∀ i ≤ n, (env i).error = false
  written : (writeAfter call env n).done = true
  read : (readAfter call env n).done = true
  quiet : hasStderr = true → (env n).complaining = false
  defined : ∀ i ≤ n, (stderrAfter hasStderr stderr env i).undefined = false
  counted : (readAfter call env n).bytes + (writeAfter call env n).bytes < 2 ^ 31

end Answers

section Proofs

variable {hasStderr : Bool} {call : Call} {stderr : Stderr} {env : Nat → Turn} {n : Nat}

/-- The state of the loop before a turn, if there is one. -/
def stateAfter (hasStderr : Bool) (call : Call) (stderr : Stderr) (env : Nat → Turn) (n : Nat) :
    State :=
  ⟨writeAfter call env n, readAfter call env n, stderrAfter hasStderr stderr env n, false⟩

theorem check_of_not_timeout {s : State} (h : s.timeout = false) : check call s = .running s := by
  simp [check, h]

theorem turn_error (h : (env n).error = true) :
    turn hasStderr call (stateAfter hasStderr call stderr env n) (env n) =
      .returned (-1) (stateAfter hasStderr call stderr env n) := by
  simp [turn, h]

/-- A turn in which something happens. -/
theorem turn_ready (hError : (env n).error = false) (h : Ready hasStderr call env n) :
    turn hasStderr call (stateAfter hasStderr call stderr env n) (env n) =
      if (stderrAfter hasStderr stderr env (n + 1)).undefined then .undefined
      else .running (stateAfter hasStderr call stderr env (n + 1)) := by
  have hSome : (!(!(writeAfter call env n).done && (env n).writable) &&
      !(!(readAfter call env n).done && (env n).readable) &&
      !(hasStderr && (env n).complaining)) = false := by
    obtain ⟨hDone, hReady⟩ | ⟨hDone, hReady⟩ | ⟨hThere, hReady⟩ := h
    · simp [hDone, hReady]
    · simp [hDone, hReady]
    · simp [hThere, hReady]
  unfold turn
  simp only [stateAfter, hError, Bool.false_eq_true, if_false, hSome]
  exact if_congr Iff.rfl rfl (check_of_not_timeout rfl)

variable (stderr) in
/-- A turn in which nothing happens ends the loop, since both sides are done. -/
theorem turn_idle (hBlocks : Blocks hasStderr call env) (hError : (env n).error = false)
    (h : ¬ Ready hasStderr call env n) :
    (writeAfter call env n).done = true ∧ (readAfter call env n).done = true ∧
      turn hasStderr call (stateAfter hasStderr call stderr env n) (env n) =
        .returned (Lib.toInt32 ((readAfter call env n).bytes + (writeAfter call env n).bytes))
          { stateAfter hasStderr call stderr env n with timeout := true } := by
  have hWritten : (writeAfter call env n).done = true := by
    by_contra hNot
    exact h (hBlocks n hError (Or.inl (Bool.eq_false_iff.mpr hNot)))
  have hRead : (readAfter call env n).done = true := by
    by_contra hNot
    exact h (hBlocks n hError (Or.inr (Bool.eq_false_iff.mpr hNot)))
  refine ⟨hWritten, hRead, ?_⟩
  have hQuiet : (hasStderr && (env n).complaining) = false := by
    by_contra hNot
    exact h (Or.inr (Or.inr (Bool.and_eq_true_iff.mp (Bool.not_eq_false _ |>.mp hNot))))
  simp [turn, check, stateAfter, hError, hWritten, hRead, hQuiet]

/-- The loop goes on after a turn if something has happened in it, and nothing has failed. -/
theorem turn_running_iff (hBlocks : Blocks hasStderr call env) {s : State} :
    turn hasStderr call (stateAfter hasStderr call stderr env n) (env n) = .running s ↔
      s = stateAfter hasStderr call stderr env (n + 1) ∧
        ((env n).error = false ∧ Ready hasStderr call env n) ∧
        (stderrAfter hasStderr stderr env (n + 1)).undefined = false := by
  cases hError : (env n).error with
  | true =>
    rw [turn_error hError]
    simp
  | false =>
    by_cases hReady : Ready hasStderr call env n
    · rw [turn_ready hError hReady]
      cases hUndefined : (stderrAfter hasStderr stderr env (n + 1)).undefined with
      | true => simp
      | false => simp [hReady, eq_comm]
    · rw [(turn_idle stderr hBlocks hError hReady).2.2]
      simp [hReady]

theorem readWrite_running_iff (hDefined : stderr.undefined = false)
    (hBlocks : Blocks hasStderr call env) {s : State} :
    readWrite hasStderr call stderr env n = .running s ↔
      s = stateAfter hasStderr call stderr env n ∧
        (∀ i < n, (env i).error = false ∧ Ready hasStderr call env i) ∧
        ∀ i ≤ n, (stderrAfter hasStderr stderr env i).undefined = false := by
  induction n generalizing s with
  | zero =>
    have hStart : readWrite hasStderr call stderr env 0 =
        .running (stateAfter hasStderr call stderr env 0) := check_of_not_timeout rfl
    have hFirst : ∀ i ≤ 0, (stderrAfter hasStderr stderr env i).undefined = false := by
      intro i hi
      obtain rfl := Nat.le_zero.mp hi
      exact hDefined
    rw [hStart]
    constructor
    · rintro ⟨⟩
      exact ⟨rfl, fun i hi => absurd hi (Nat.not_lt_zero i), hFirst⟩
    · rintro ⟨rfl, -⟩
      rfl
  | succ n ih =>
    constructor
    · intro hRunning
      cases hBefore : readWrite hasStderr call stderr env n with
      | returned | undefined =>
        rw [readWrite, hBefore] at hRunning
        cases hRunning
      | running s₀ =>
        obtain ⟨rfl, hTurns, hHeard⟩ := ih.mp hBefore
        rw [readWrite, hBefore] at hRunning
        obtain ⟨hState, hTurn, hLast⟩ := (turn_running_iff hBlocks).mp hRunning
        refine ⟨hState, fun i hi => ?_, fun i hi => ?_⟩
        · obtain hOld | rfl := Nat.lt_succ_iff_lt_or_eq.mp hi
          · exact hTurns i hOld
          · exact hTurn
        · obtain hOld | rfl := Nat.le_or_eq_of_le_succ hi
          · exact hHeard i hOld
          · exact hLast
    · rintro ⟨hState, hTurns, hHeard⟩
      have hBefore := ih.mpr ⟨rfl, fun i hi => hTurns i (Nat.lt_succ_of_lt hi),
        fun i hi => hHeard i (Nat.le_succ_of_le hi)⟩
      rw [readWrite, hBefore]
      exact (turn_running_iff hBlocks).mpr
        ⟨hState, hTurns n (Nat.lt_succ_self n), hHeard (n + 1) (Nat.le_refl _)⟩

/-- The turn in which the loop has ended. -/
theorem exists_last_turn {r : Int} {s : State}
    (h : readWrite hasStderr call stderr env n = .returned r s) :
    ∃ m s', readWrite hasStderr call stderr env m = .running s' ∧
      turn hasStderr call s' (env m) = .returned r s := by
  induction n with
  | zero =>
    rw [readWrite, check_of_not_timeout rfl] at h
    cases h
  | succ n ih =>
    cases hBefore : readWrite hasStderr call stderr env n with
    | running s' =>
      rw [readWrite, hBefore] at h
      exact ⟨n, s', hBefore, h⟩
    | returned r' s' =>
      rw [readWrite, hBefore] at h
      cases h
      exact ih hBefore
    | undefined =>
      rw [readWrite, hBefore] at h
      cases h

/-- The first time that something does not hold. -/
theorem exists_first {p : Nat → Prop} {n : Nat} (hn : ¬ p n) :
    ∃ m ≤ n, ¬ p m ∧ ∀ i < m, p i := by
  classical
  have hExists : ∃ m, ¬ p m := ⟨n, hn⟩
  exact ⟨Nat.find hExists, Nat.find_min' hExists hn, Nat.find_spec hExists,
    fun i hi => not_not.mp (Nat.find_min hExists hi)⟩

/-- The reading side is done before the end of the file is all that comes. -/
theorem EndsAt.done_before {m : Nat} (h : EndsAt hasStderr call stderr env n)
    (hEnd : ∀ i, m ≤ i → (env i).read = 0) : (readAfter call env m).done = true := by
  obtain hLe | hLater := Nat.le_total n m
  · rw [readAfter, Channel.after_of_done h.read hLe]
    exact h.read
  · have hSame : readAfter call env n = readAfter call env m :=
      Channel.after_of_zero hEnd hLater
    rw [← hSame]
    exact h.read

end Proofs

/-- `ReadWrite` returns the number of bytes if and only if both sides are done at some time, and no
descriptor is ready then, without an error or an undefined copy before. -/
theorem readWrite_returns_iff {hasStderr : Bool} {call : Call} {stderr : Stderr}
    {env : Nat → Turn} (hDefined : stderr.undefined = false) (hBlocks : Blocks hasStderr call env) :
    Returns hasStderr call stderr env ↔ ∃ n, EndsAt hasStderr call stderr env n := by
  constructor
  · rintro ⟨n, s, hReturned⟩
    obtain ⟨m, s', hRunning, hTurn⟩ := exists_last_turn hReturned
    obtain ⟨rfl, hTurns, hHeard⟩ := (readWrite_running_iff hDefined hBlocks).mp hRunning
    cases hError : (env m).error with
    | true =>
      rw [turn_error hError] at hTurn
      injection hTurn with hResult
      omega
    | false =>
      have hIdle : ¬ Ready hasStderr call env m := by
        intro hReady
        rw [turn_ready hError hReady] at hTurn
        split at hTurn <;> cases hTurn
      obtain ⟨hWritten, hRead, hEnd⟩ := turn_idle stderr hBlocks hError hIdle
      rw [hEnd] at hTurn
      injection hTurn with hResult hState
      subst hState
      refine ⟨m, ?_, hWritten, hRead, ?_, hHeard, (Lib.toInt32_natCast_iff _).mp ?_⟩
      · intro i hi
        obtain hOld | rfl := Nat.lt_or_eq_of_le hi
        · exact (hTurns i hOld).1
        · exact hError
      · intro hThere
        by_contra hNoise
        exact hIdle (Or.inr (Or.inr ⟨hThere, Bool.not_eq_false _ |>.mp hNoise⟩))
      · rw [Int.natCast_add]
        exact hResult
  · rintro ⟨n, hEnds⟩
    have hQuiet : ¬ Ready hasStderr call env n := by
      rintro (⟨hDone, -⟩ | ⟨hDone, -⟩ | ⟨hThere, hNoise⟩)
      · exact Bool.false_ne_true (hDone.symm.trans hEnds.written)
      · exact Bool.false_ne_true (hDone.symm.trans hEnds.read)
      · exact Bool.false_ne_true ((hEnds.quiet hThere).symm.trans hNoise)
    -- the loop ends at the first time that nothing is ready
    obtain ⟨m, hLe, hIdle, hFirst⟩ := exists_first hQuiet
    have hError := hEnds.noError m hLe
    have hRunning := (readWrite_running_iff (n := m) hDefined hBlocks).mpr ⟨rfl,
      fun i hi => ⟨hEnds.noError i (Nat.le_trans (Nat.le_of_lt hi) hLe), hFirst i hi⟩,
      fun i hi => hEnds.defined i (Nat.le_trans hi hLe)⟩
    obtain ⟨hWritten, hRead, hEnd⟩ := turn_idle stderr hBlocks hError hIdle
    have hCounted := hEnds.counted
    rw [readAfter, Channel.after_of_done hRead hLe, writeAfter, Channel.after_of_done hWritten hLe]
      at hCounted
    refine ⟨m + 1, { stateAfter hasStderr call stderr env m with timeout := true }, ?_⟩
    rw [readWrite, hRunning]
    refine hEnd.trans (congrArg (Outcome.returned · _) ?_)
    rw [← Int.natCast_add]
    exact (Lib.toInt32_natCast_iff _).mpr hCounted

-- ---------------------------------------------------------------------------
-- Nobody writes, and the child says two bytes, or nothing
-- ---------------------------------------------------------------------------

/-- What `read` returns every turn. -/
def reads (r : Nat → Int) : Nat → Turn := fun n => ⟨false, false, true, false, 0, r n, none⟩

theorem blocks_reads {hasStderr : Bool} {len : Nat} (r : Nat → Int) :
    Blocks hasStderr ⟨none, some len, true⟩ (reads r) := by
  intro n _ hWaits
  have hWritten : (writeAfter ⟨none, some len, true⟩ (reads r) n).done = true := by
    rw [writeAfter, Channel.after_of_done (m := 0) rfl (Nat.zero_le n)]
    rfl
  obtain hNot | hRead := hWaits
  · exact absurd (hNot.symm.trans hWritten) Bool.false_ne_true
  · exact Or.inr (Or.inl ⟨hRead, rfl⟩)

/-- Two bytes, one at a time, and then the end of the file. -/
def twoBytes (n : Nat) : Int := if n < 2 then 1 else 0

/-- The two bytes fill the buffer. -/
theorem readWrite_returns_full :
    Blocks false ⟨none, some 2, true⟩ (reads twoBytes) ∧ EndsOfFile (reads twoBytes) ∧
      Returns false ⟨none, some 2, true⟩ Stderr.init (reads twoBytes) := by
  refine ⟨blocks_reads twoBytes, ⟨2, fun n hn => ⟨rfl, if_neg (Nat.not_lt.mpr hn)⟩⟩, ?_⟩
  refine (readWrite_returns_iff rfl (blocks_reads twoBytes)).mpr ⟨2, ?_⟩
  exact ⟨fun _ _ => rfl, rfl, rfl, nofun, by decide, by decide⟩

/-- The child has closed its output, and there is room for more. -/
theorem not_returns_reads (hasStderr : Bool) :
    Blocks hasStderr ⟨none, some 16, true⟩ (reads fun _ => 0) ∧ EndsOfFile (reads fun _ => 0) ∧
      ¬ Returns hasStderr ⟨none, some 16, true⟩ Stderr.init (reads fun _ => 0) := by
  refine ⟨blocks_reads fun _ => 0, ⟨0, fun _ _ => ⟨rfl, rfl⟩⟩, ?_⟩
  rintro ⟨n, s, hReturned⟩
  have hHeard : ∀ i, stderrAfter hasStderr Stderr.init (reads fun _ => 0) i = Stderr.init := by
    intro i
    induction i with
    | zero => rfl
    | succ i ih =>
      rw [stderrAfter, ih]
      simp [reads]
  have hRead : ∀ i, readAfter ⟨none, some 16, true⟩ (reads fun _ => 0) i = ⟨0, false⟩ := fun i =>
    Channel.after_of_zero (m := 0) (fun _ _ => rfl) (Nat.zero_le i)
  have hRunning : readWrite hasStderr ⟨none, some 16, true⟩ Stderr.init (reads fun _ => 0) n =
      .running (stateAfter hasStderr ⟨none, some 16, true⟩ Stderr.init (reads fun _ => 0) n) :=
    (readWrite_running_iff rfl (blocks_reads fun _ => 0)).mpr
      ⟨rfl, fun i _ => ⟨rfl, Or.inr (Or.inl ⟨by rw [hRead], rfl⟩)⟩, fun i _ => by rw [hHeard]; rfl⟩
  rw [hRunning] at hReturned
  cases hReturned

/-- Neither connection returns. -/
theorem end_of_file_endless :
    (Blocks true ⟨none, some 16, true⟩ (reads fun _ => 0) ∧ EndsOfFile (reads fun _ => 0) ∧
        ¬ Returns true ⟨none, some 16, true⟩ Stderr.init (reads fun _ => 0)) ∧
      Blocks false ⟨none, some 16, true⟩ (reads fun _ => 0) ∧ EndsOfFile (reads fun _ => 0) ∧
        ¬ Returns false ⟨none, some 16, true⟩ Stderr.init (reads fun _ => 0) :=
  ⟨not_returns_reads true, not_returns_reads false⟩

end HectorCore.Connection
