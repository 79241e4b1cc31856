import HectorCore.Lib.Run
import HectorCore.Load.Emission

/-!
# Reopen — another file for a module that is running

`ReopenFile` with all its exits, `Init` and `SetFilename`, and the lock of `fileCond`.

* The operating system answers `open`, `flock` and the opening of the `ifstream`.
* The exit for an `ifstream` that cannot be opened does not unlock `fileCond`.
* `ReopenFile` puts the new descriptor into a local `fd`. `SetFilename` asks the member, which is
  `-1` for ever, and never reopens a file.

The result is `setFilename_takes_effect_iff`.
-/

namespace HectorCore.Load

open HectorCore.Lib
open HectorCore.Stream (InputStream IStream Protobuf Resource openStream)

variable {M : Type}

/-- What the operating system answers in `ReopenFile`, and what is in the file. -/
structure Answers where
  opens : Bool
  locks : Bool
  streams : Bool
  contents : List UInt8
  deriving DecidableEq, Repr

/-- The file, if it can be opened. -/
def Answers.file (a : Answers) (text : Bool) : Option (List UInt8) :=
  if a.opens && a.locks && (!text || a.streams) then some a.contents else none

/-- A module, and whether `fileCond` is held. -/
structure Module where
  state : State
  held : Bool
  deriving DecidableEq, Repr

namespace Module

/-- `ReopenFile`, when the lock is free. -/
def reopenFile (a : Answers) (f : Module) : Module :=
  let m := { f.state with stream := none, markEmmited := false, byteCount := 0 }
  if !a.opens then ⟨m, false⟩
  else if !a.locks then ⟨m, false⟩
  else if !m.text then ⟨{ m with stream := some (.binary ⟨openStream a.contents, 0, 0⟩) }, false⟩
  else if !a.streams then ⟨m, true⟩
  else ⟨{ m with stream := some (.text (IStream.ofBytes a.contents)) }, false⟩

/-- The constructor and `Init`. -/
def init (filename : List UInt8) (text wait : Bool) (resourceType : UInt32) (mark maxItems : Int)
    (a : Answers) : Module :=
  reopenFile a
    ⟨{ filename, text, wait, resourceType, mark, maxItems, skipItems := 0, items := 0
       markEmmited := false, byteCount := 0, fd := -1, stream := none }, false⟩

/-- `SetFilename`; `none` when it would wait for the lock. -/
def setFilename (value : List UInt8) (a : Answers) (f : Module) : Option Module :=
  let f := { f with state := { f.state with filename := value } }
  if f.state.fd ≥ 0 then
    if f.held then none else some (f.reopenFile a)
  else some f

inductive Event where
  | setFilename (value : List UInt8) (a : Answers)
  | processInput (sleep : Bool) (id : Int32)

/-- `none` when the call does not come back. -/
def step (pb : Protobuf M) (f : Module) : Event → Option Module
  | .setFilename value a => f.setFilename value a
  | .processInput sleep id =>
    if f.state.aborts then none
    else some { f with state := (f.state.processInputSync pb sleep id).2 }

/-- If the operating system gives the file, this is the `ReopenFile` of `Load.Module`. -/
theorem reopenFile_of_file {a : Answers} {f : Module} {contents : List UInt8}
    (h : a.file f.state.text = some contents) :
    f.reopenFile a = ⟨f.state.reopenFile contents, false⟩ := by
  obtain ⟨opens, locks, streams, contents⟩ := a
  obtain ⟨m, held⟩ := f
  cases hText : m.text <;> cases opens <;> cases locks <;> cases streams <;>
    simp_all [Answers.file, reopenFile, State.reopenFile]

end Module

-- ---------------------------------------------------------------------------
-- The records that ProcessInput returns
-- ---------------------------------------------------------------------------

/-- The number of records that the first `n` calls of `DeserializeResource` decode. -/
def countDecoded (pb : Protobuf M) (resourceType : UInt32) (ids : Nat → Int32)
    (stream : InputStream)
    (n : Nat) : Nat :=
  (List.range n).countP fun i => (decoded pb resourceType ids stream i).isSome

/-- What call `n` of `DeserializeResource` decodes, as long as no more than `maxItems` records have
been read. -/
def wanted (pb : Protobuf M) (resourceType : UInt32) (ids : Nat → Int32) (maxItems items : Int)
    (stream : InputStream) (n : Nat) : Option (Resource M) :=
  if maxItems ≠ 0 ∧ maxItems ≤ items + countDecoded pb resourceType ids stream n then none
  else decoded pb resourceType ids stream n

namespace State

/-- The record that a call of `ProcessInputSync` returns: what it has counted, and no marker. -/
def nextRecord (pb : Protobuf M) (sleep : Bool) (id : Int32) (m : State) : Option (Resource M) :=
  match m.processInputSync pb sleep id with
  | (.resource r, m') => if m'.items ≠ m.items then some r else none
  | _ => none

/-- The record that call `n` returns. -/
def record (pb : Protobuf M) (sleep : Bool) (ids : Nat → Int32) (m : State) (n : Nat) :
    Option (Resource M) :=
  (m.afterCalls pb sleep ids n).nextRecord pb sleep (ids n)

end State

/-- What is left for `ProcessInputSync` to return. -/
def remaining (pb : Protobuf M) (m : State) (ids : Nat → Int32) (n : Nat) : Option (Resource M) :=
  m.stream.bind fun stream => wanted pb m.resourceType ids m.maxItems m.items stream n

/-- The records of the file from its beginning. -/
def recordsOf (pb : Protobuf M) (m : State) (contents : List UInt8) (ids : Nat → Int32) (n : Nat) :
    Option (Resource M) :=
  wanted pb m.resourceType ids m.maxItems m.items (InputStream.ofBytes m.text contents) n

/-- **The new file has taken effect, and the module is usable**: the lock is free, and there is no
stream because the file cannot be opened, or the next records are those of the file. -/
def TakesEffect (pb : Protobuf M) (a : Answers) (f : Module) : Prop :=
  f.held = false ∧
    ((f.state.stream = none ∧ a.file f.state.text = none) ∨
      ∃ contents, a.file f.state.text = some contents ∧
        ∀ sleep ids n, f.state.record pb sleep ids n = recordsOf pb f.state contents ids n)

/-- `Init` has lost the lock. -/
def Answers.losesLock (a : Answers) (text : Bool) : Bool := a.opens && a.locks && text && !a.streams

/-- Before the call: `Init` has not lost the lock, and neither file can be opened, or what is left
of the first one is decoded like the new one. -/
def NothingToChange (pb : Protobuf M) (first a : Answers) (f : Module) : Prop :=
  first.losesLock f.state.text = false ∧
    ((first.file f.state.text = none ∧ a.file f.state.text = none) ∨
      ∃ contents, a.file f.state.text = some contents ∧
        ∀ ids n, remaining pb f.state ids n = recordsOf pb f.state contents ids n)

section Records

variable {pb : Protobuf M} {sleep : Bool} {ids : Nat → Int32} {id : Int32} {m m₀ : State}
  {stream : InputStream} {n : Nat}

/-- What the calls leave of the module, whatever they return. -/
structure SameProperties (m₀ m : State) : Prop where
  resourceType : m.resourceType = m₀.resourceType
  maxItems : m.maxItems = m₀.maxItems
  skipItems : m.skipItems = 0
  text : m.text = m₀.text
  fd : m.fd = m₀.fd

/-- A call that counts nothing: its record, and the module after it. -/
structure Uncounted (m₀ m : State) (outcome : Outcome M × State) : Prop where
  same : SameProperties m₀ outcome.2
  items : outcome.2.items = m.items
  stream : outcome.2.stream = m.stream

theorem uncounted_emitMark (h : SameProperties m₀ m) :
    Uncounted m₀ m (m.emitMark id : Outcome M × State) := by
  rw [State.emitMark]
  split_ifs
  · exact ⟨⟨h.resourceType, h.maxItems, h.skipItems, h.text, h.fd⟩, rfl, rfl⟩
  · exact ⟨h, rfl, rfl⟩

/-- A call that does not find a record waits, or comes to the marker. -/
theorem uncounted_notFound (h : SameProperties m₀ m) :
    Uncounted m₀ m
      (if sleep && m.wait then (.waits, m) else m.emitMark id : Outcome M × State) := by
  split
  · exact ⟨h, rfl, rfl⟩
  · exact uncounted_emitMark h

theorem nextRecord_of_items (h : (m.processInputSync pb sleep id).2.items = m.items) :
    m.nextRecord pb sleep id = none := by
  rw [State.nextRecord]
  split
  · rename_i hCall
    rw [hCall] at h
    rw [if_neg (not_not_intro h)]
  · rfl

theorem call_full (hFull : m.Full) (h : SameProperties m₀ m) :
    Uncounted m₀ m (m.processInputSync pb sleep id) := by
  rw [processInputSync_full hFull]
  exact uncounted_emitMark h

theorem call_without_stream (hStream : m.stream = none) (h : SameProperties m₀ m) :
    Uncounted m₀ m (m.processInputSync pb sleep id) := by
  by_cases hFull : m.Full
  · exact call_full hFull h
  rw [State.processInputSync, if_neg (fun hLimit => hFull ⟨hLimit.1, hLimit.2⟩),
    skipLoop_zero h.skipItems]
  simp only [hStream, Option.map_none]
  exact uncounted_notFound h

theorem call_found (hFull : ¬ m.Full) (h : SameProperties m₀ m) (hStream : m.stream = some stream)
    {r : Resource M} {size : Int}
    (hRead : (stream.deserializeResource pb m₀.resourceType id).1 = some (r, size)) :
    m.nextRecord pb sleep id = some r ∧
      SameProperties m₀ (m.processInputSync pb sleep id).2 ∧
      (m.processInputSync pb sleep id).2.items = m.items + 1 ∧
      (m.processInputSync pb sleep id).2.stream =
        some (stream.deserializeResource pb m₀.resourceType id).2 := by
  have hCall : m.processInputSync pb sleep id = _ :=
    processInputSync_decoded hFull h.skipItems h.resourceType hStream (Prod.ext hRead rfl)
  rw [State.nextRecord, hCall]
  refine ⟨?_, ⟨h.resourceType, h.maxItems, h.skipItems, h.text, h.fd⟩, rfl, rfl⟩
  simp

theorem call_notFound (hFull : ¬ m.Full) (h : SameProperties m₀ m)
    (hStream : m.stream = some stream)
    (hRead : (stream.deserializeResource pb m₀.resourceType id).1 = none) :
    Uncounted m₀ { m with stream := some (stream.deserializeResource pb m₀.resourceType id).2 }
      (m.processInputSync pb sleep id) := by
  have hCall : stream.deserializeResource pb m.resourceType id =
      (none, (stream.deserializeResource pb m₀.resourceType id).2) := by
    rw [h.resourceType]
    exact Prod.ext hRead rfl
  rw [State.processInputSync, if_neg (fun hLimit => hFull ⟨hLimit.1, hLimit.2⟩),
    skipLoop_zero h.skipItems]
  simp only [hStream, Option.map_some, hCall]
  exact uncounted_notFound ⟨h.resourceType, h.maxItems, h.skipItems, h.text, h.fd⟩

theorem countDecoded_succ {resourceType : UInt32} :
    countDecoded pb resourceType ids stream (n + 1) = countDecoded pb resourceType ids stream n +
      if (decoded pb resourceType ids stream n).isSome then 1 else 0 := by
  rw [countDecoded, List.range_succ, List.countP_append, List.countP_singleton]
  rfl

/-- The module after `n` calls: all of them have read, or the limit has been reached. -/
def CalledTo (pb : Protobuf M) (ids : Nat → Int32) (stream : InputStream) (m₀ : State) (n : Nat)
    (m : State) : Prop :=
  SameProperties m₀ m ∧
    ((m.items = m₀.items + countDecoded pb m₀.resourceType ids stream n ∧
        m.stream = some (streamAfter pb m₀.resourceType ids stream n)) ∨
      m.Full ∧ m₀.maxItems ≤ m₀.items + countDecoded pb m₀.resourceType ids stream n)

theorem CalledTo.record_eq (h : CalledTo pb ids stream m₀ n m) :
    m.nextRecord pb sleep (ids n) =
        wanted pb m₀.resourceType ids m₀.maxItems m₀.items stream n ∧
      CalledTo pb ids stream m₀ (n + 1) (m.processInputSync pb sleep (ids n)).2 := by
  obtain ⟨hSame, hAt⟩ := h
  rw [wanted, CalledTo, countDecoded_succ]
  by_cases hFull : m.Full
  · -- nothing is read any more
    have hCall : Uncounted m₀ m (m.processInputSync pb sleep (ids n)) := call_full hFull hSame
    have hLimit : m₀.maxItems ≠ 0 ∧
        m₀.maxItems ≤ m₀.items + countDecoded pb m₀.resourceType ids stream n := by
      obtain ⟨hNe, hLe⟩ := hFull
      rw [hSame.maxItems] at hNe hLe
      rcases hAt with ⟨hItems, -⟩ | ⟨-, hOver⟩
      · exact ⟨hNe, by omega⟩
      · exact ⟨hNe, hOver⟩
    rw [if_pos hLimit]
    refine ⟨nextRecord_of_items hCall.items, hCall.same, .inr ⟨?_, ?_⟩⟩
    · rw [State.Full, hCall.items, hCall.same.maxItems, ← hSame.maxItems]
      exact hFull
    · split_ifs <;> omega
  · have hRead : m.items = m₀.items + countDecoded pb m₀.resourceType ids stream n ∧
        m.stream = some (streamAfter pb m₀.resourceType ids stream n) := by
      rcases hAt with hRead | ⟨hOver, -⟩
      · exact hRead
      · exact absurd hOver hFull
    obtain ⟨hItems, hStream⟩ := hRead
    rw [if_neg (by rw [← hItems, ← hSame.maxItems]; exact hFull)]
    cases hNext : decoded pb m₀.resourceType ids stream n with
    | none =>
      have hCall : Uncounted m₀ _ (m.processInputSync pb sleep (ids n)) :=
        call_notFound hFull hSame hStream (Option.map_eq_none_iff.mp hNext)
      refine ⟨nextRecord_of_items hCall.items, hCall.same, .inl ⟨?_, hCall.stream⟩⟩
      rw [hCall.items]
      simpa using hItems
    | some r =>
      obtain ⟨⟨r', size⟩, hSome, rfl⟩ := Option.map_eq_some_iff.mp hNext
      obtain ⟨hRecord, hSame', hItems', hStream'⟩ :
          m.nextRecord pb sleep (ids n) = some r' ∧ _ := call_found hFull hSame hStream hSome
      refine ⟨hRecord, hSame', .inl ⟨?_, hStream'⟩⟩
      rw [hItems', hItems, Option.isSome_some, if_pos rfl]
      omega

/-- **The records of ProcessInputSync** are what is decoded of its stream, up to the limit. -/
theorem record_eq_remaining (hSkip : m.skipItems = 0) (n : Nat) :
    m.record pb sleep ids n = remaining pb m ids n := by
  have hSame : SameProperties m m := ⟨rfl, rfl, hSkip, rfl, rfl⟩
  cases hStream : m.stream with
  | none =>
    have hAfter : ∀ n, SameProperties m (m.afterCalls pb sleep ids n) ∧
        (m.afterCalls pb sleep ids n).stream = none := by
      intro n
      induction n with
      | zero => exact ⟨hSame, hStream⟩
      | succ n ih =>
        have hCall : Uncounted m _
          ((m.afterCalls pb sleep ids n).processInputSync pb sleep (ids n)) :=
          call_without_stream ih.2 ih.1
        exact ⟨hCall.same, hCall.stream.trans ih.2⟩
    rw [remaining, hStream, State.record]
    obtain ⟨hSame', hNone⟩ := hAfter n
    exact nextRecord_of_items (call_without_stream hNone hSame').items
  | some stream =>
    have hAfter : ∀ n, CalledTo pb ids stream m n (m.afterCalls pb sleep ids n) := by
      intro n
      induction n with
      | zero => exact ⟨hSame, .inl ⟨by simp [countDecoded, State.afterCalls], hStream⟩⟩
      | succ n ih => exact ih.record_eq.2
    rw [remaining, hStream, State.record]
    exact (hAfter n).record_eq.1

/-- A stream stays a stream, and NULL stays NULL. -/
theorem call_stream (hSkip : m.skipItems = 0) :
    SameProperties m (m.processInputSync pb sleep id).2 ∧
      ((m.processInputSync pb sleep id).2.stream = none ↔ m.stream = none) := by
  have hSame : SameProperties m m := ⟨rfl, rfl, hSkip, rfl, rfl⟩
  rcases hStream : m.stream with _ | stream
  · have hCall : Uncounted m m (m.processInputSync pb sleep id) := call_without_stream hStream hSame
    exact ⟨hCall.same, by rw [hCall.stream, hStream]⟩
  by_cases hFull : m.Full
  · have hCall : Uncounted m m (m.processInputSync pb sleep id) := call_full hFull hSame
    exact ⟨hCall.same, by rw [hCall.stream, hStream]⟩
  rcases hRead : (stream.deserializeResource pb m.resourceType id).1 with _ | ⟨r, size⟩
  · have hCall : Uncounted m _ (m.processInputSync pb sleep id) :=
      call_notFound hFull hSame hStream hRead
    exact ⟨hCall.same, by rw [hCall.stream]; simp⟩
  · obtain ⟨-, hAfter, -, hNext⟩ : m.nextRecord pb sleep id = some r ∧ _ :=
      call_found hFull hSame hStream hRead
    exact ⟨hAfter, by rw [hNext]; simp⟩

end Records

-- ---------------------------------------------------------------------------
-- Runs
-- ---------------------------------------------------------------------------

/-- What `Init` has done to the lock and to the stream, and nobody undoes. -/
structure Initialized (first : Answers) (isText : Bool) (f : Module) : Prop where
  text : f.state.text = isText
  skipItems : f.state.skipItems = 0
  fd : f.state.fd = -1
  held : f.held = first.losesLock isText
  stream : f.state.stream = none ↔ first.file isText = none

namespace Module

variable {pb : Protobuf M} {first a : Answers} {text : Bool} {f f' : Module} {value : List UInt8}

theorem initialized_init (filename : List UInt8) (text wait : Bool) (resourceType : UInt32)
    (mark maxItems : Int) (first : Answers) :
    Initialized first text (init filename text wait resourceType mark maxItems first) := by
  obtain ⟨opens, locks, streams, contents⟩ := first
  cases text <;> cases opens <;> cases locks <;> cases streams <;>
    constructor <;> simp [init, reopenFile, Answers.losesLock, Answers.file]

/-- `SetFilename` sets the name. -/
theorem setFilename_eq (h : Initialized first text f) :
    f.setFilename value a = some { f with state := { f.state with filename := value } } := by
  rw [setFilename]
  dsimp only
  rw [if_neg (by rw [h.fd]; decide)]

theorem initialized_step {e : Event} (h : Initialized first text f)
    (hStep : f.step pb e = some f') : Initialized first text f' := by
  cases e with
  | setFilename value a =>
    rw [step, setFilename_eq h, Option.some.injEq] at hStep
    subst hStep
    exact ⟨h.text, h.skipItems, h.fd, h.held, h.stream⟩
  | processInput sleep id =>
    rw [step] at hStep
    split at hStep
    · exact absurd hStep (by simp)
    · rw [Option.some.injEq] at hStep
      subst hStep
      obtain ⟨hSame, hStream⟩ : SameProperties f.state (f.state.processInputSync pb sleep id).2 ∧
        _ :=
        call_stream h.skipItems
      exact ⟨hSame.text.trans h.text, hSame.skipItems, hSame.fd.trans h.fd, h.held,
        hStream.trans h.stream⟩

/-- One call of `SetFilename`. -/
theorem takesEffect_iff (h : Initialized first text f) (hSet : f.setFilename value a = some f') :
    TakesEffect pb a f' ↔ NothingToChange pb first a f := by
  rw [setFilename_eq h, Option.some.injEq] at hSet
  subst hSet
  have hRecords : ∀ sleep ids n,
      State.record pb sleep ids { f.state with filename := value } n =
        remaining pb f.state ids n := by
    intro sleep ids n
    exact record_eq_remaining (m := { f.state with filename := value }) h.skipItems n
  rw [TakesEffect, NothingToChange, h.text]
  refine and_congr (by rw [h.held]) (or_congr (and_congr_left' h.stream) ?_)
  refine exists_congr fun contents => and_congr_right' ?_
  constructor
  · intro hEqual ids n
    rw [← hRecords false ids n]
    exact hEqual false ids n
  · intro hEqual sleep ids n
    rw [hRecords sleep ids n]
    exact hEqual ids n

end Module

/--
**When another file takes effect.** Take any properties of the module, any outcome of `Init`, and
any calls of `SetFilename` and `ProcessInput` after it. The lock is free after every call of
`SetFilename`, and the next records are those of the new file (or it cannot be opened, and there is
no stream), if and only if every one of these calls found nothing to change.
-/
theorem setFilename_takes_effect_iff (pb : Protobuf M) (filename : List UInt8) (text wait : Bool)
    (resourceType : UInt32) (mark maxItems : Int) (first : Answers) (events : List Module.Event) :
    (∀ before value a after f f', events = before ++ .setFilename value a :: after →
        run (Module.step pb) (Module.init filename text wait resourceType mark maxItems first)
          before =
          some f →
        f.setFilename value a = some f' → TakesEffect pb a f') ↔
      ∀ before value a after f, events = before ++ .setFilename value a :: after →
        run (Module.step pb) (Module.init filename text wait resourceType mark maxItems first)
          before =
          some f →
        NothingToChange pb first a f := by
  have hInit : ∀ before f, run (Module.step pb)
      (Module.init filename text wait resourceType mark maxItems first) before = some f →
      Initialized first text f := by
    intro before f hRun
    exact run_invariant (Initialized first text) (fun _ _ _ => Module.initialized_step) hRun
      (Module.initialized_init filename text wait resourceType mark maxItems first)
  constructor
  · intro h before value a after f hEvents hRun
    have hSet : f.setFilename value a = _ := Module.setFilename_eq (hInit before f hRun)
    exact (Module.takesEffect_iff (hInit before f hRun) hSet).mp
      (h before value a after f _ hEvents hRun hSet)
  · intro h before value a after f f' hEvents hRun hSet
    exact (Module.takesEffect_iff (hInit before f hRun) hSet).mpr
      (h before value a after f hEvents hRun)

/-- Two files, both of which can be opened; the records of the first are read on. -/
theorem setFilename_without_effect :
    ∃ f', (Module.init [97] false false 0 (-1) 0
          ⟨true, true, true, [1, 1, 65, 1, 1, 66]⟩).setFilename
        [98] ⟨true, true, true, [1, 1, 67, 1, 1, 68]⟩ = some f' ∧
      ¬ TakesEffect fileProtobuf ⟨true, true, true, [1, 1, 67, 1, 1, 68]⟩ f' := by
  refine ⟨_, rfl, ?_⟩
  rintro ⟨-, ⟨hStream, -⟩ | ⟨contents, hFile, hRecords⟩⟩
  · exact absurd hStream (by decide)
  · obtain rfl := Option.some.inj hFile
    have hFirst := hRecords false Int32.ofNat 0
    exact absurd hFirst (by decide)

end HectorCore.Load
