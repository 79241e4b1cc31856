import HectorCore.Save.Rotation

/-!
# Multi — the same module as OUTPUT and as MULTI

`lib/processing_engine/module/Save.cc`: `ProcessMultiSync`, beside the `ProcessOutputSync` of
`Save/Rotation.lean`.

* `ProcessOutputSync` opens the next file in front of the first record that does not belong into the
  present one, by the items and the size of that file; `ProcessMultiSync` behind the last record
  that does, by the items of all files, and looks at no size.
* A file is opened once at most in a run. So the answers of the operating system are indexed by the
  number of the file, and both modes get the same ones.
* `resourcesProcessed` is a variable of the body of the loop and never reaches 1000: the loop takes
  the whole queue.

A resource at a time, the two modes differ by `saveOutput_rotate` and `multiOne_file`; the runs are
compared in `Save/SameFiles.lean`, and failed switches are the subject of `Save/FileSwitch.lean`.
-/

namespace HectorCore.Save

open HectorCore.Lib
open HectorCore.Stream (Payload Resource)

variable {M : Type}

-- ---------------------------------------------------------------------------
-- The two modes
-- ---------------------------------------------------------------------------

/-- What becomes of a resource; the first is the text of the error, "File not opened". -/
inductive Report where
  | fileNotOpened
  | serialized
  | filtered
  deriving DecidableEq, Repr

/-- What `ProcessMultiSync` leaves to its caller. -/
structure MultiResult (M : Type) where
  outputResources : List (Resource M)
  reports : List Report
  expectResources : Int
  processingResources : Int
  result : Bool

namespace Config

variable (cfg : Config M) (answers : Nat → Answers)

/-- `ProcessOutputSync`, with the report. -/
def output (s : State) (resource : Resource M) : Option (State × Report) :=
  (cfg.processOutputSync s (resource, answers (s.fileId + 1))).map fun s' =>
    (s', if s.stream = .null then .fileNotOpened else .serialized)

/-- The body of the loop of `ProcessMultiSync`; `none` when it uses a deleted stream. -/
def multi (filter : List UInt32) (s : State) (r : Resource M) : Option (State × Report) :=
  if filter = [] ∨ r.payload.typeId ∈ filter then
    match s.stream with
    | .null => some (s, .fileNotOpened)
    | .deleted => none
    | .file name =>
      let s := { s with
        disk := Function.update s.disk name (some ((s.disk name).getD [] ++ cfg.record r))
        items := s.items + 1 }
      if cfg.maxItemsPerFile > 0 ∧ s.items % cfg.maxItemsPerFile = 0 then
        some (cfg.reopenFile (answers (s.fileId + 1)) { s with fileId := s.fileId + 1 },
          .serialized)
      else some (s, .serialized)
  else some (s, .filtered)

/-- `ProcessMultiSync`; 10000 is `MAX_RESOURCES`. -/
def processMultiSync (filter : List UInt32) :
    State → List (Resource M) → Option (State × MultiResult M)
  | s, [] => some (s, ⟨[], [], 10000, 0, false⟩)
  | s, r :: inputResources =>
    (cfg.multi answers filter s r).bind fun (s', report) =>
      (processMultiSync filter s' inputResources).map fun (s'', result) =>
        (s'', { result with
          outputResources := r :: result.outputResources, reports := report :: result.reports })

/-- The state after one resource of the OUTPUT module, and after one call of the MULTI module
without a filter. -/
def saveOutput (s : State) (resource : Resource M) : Option State :=
  (cfg.output answers s resource).map Prod.fst

def saveMulti (s : State) (inputResources : List (Resource M)) : Option State :=
  (cfg.processMultiSync answers [] s inputResources).map Prod.fst

/-- `ReopenFile` succeeds. -/
def Opens (a : Answers) : Prop := a.opens = true ∧ a.locks = true ∧
    (cfg.text = true → a.streams = true)

end Config

-- ---------------------------------------------------------------------------
-- Records
-- ---------------------------------------------------------------------------

section Records

variable {cfg : Config M}

theorem encodeVarint_ne_nil (k n : Nat) : encodeVarint (k + 1) n ≠ [] := by
  rw [encodeVarint]
  split <;> simp

/-- Records are not empty, in either format. -/
theorem record_pos (resource : Resource M) : 0 < (cfg.record resource).length := by
  refine List.length_pos_iff.mpr ?_
  cases hText : cfg.text with
  | true => exact record_ne_nil hText
  | false =>
    rw [Config.record, HectorCore.Stream.serializeTo, hText, if_neg (by simp),
      HectorCore.Stream.serializeResource]
    refine List.append_ne_nil_of_right_ne_nil _ ?_
    cases resource.payload with
    | testResource str =>
      exact List.append_ne_nil_of_left_ne_nil (encodeVarint_ne_nil 4 _) _
    | testProtobufResource r =>
      exact List.append_ne_nil_of_left_ne_nil (encodeVarint_ne_nil 4 _) _
    | markerResource mark => exact encodeVarint_ne_nil 4 _

/-- The last resources of a sequence are told by their records. -/
theorem length_eq_of_records {done current current' : List (Resource M)}
    (h : current <:+ done) (h' : current' <:+ done)
    (hRecords : current.flatMap cfg.record = current'.flatMap cfg.record) :
    current.length = current'.length := by
  have hPart : ∀ {a b : List (Resource M)}, a <:+ b →
      a.flatMap cfg.record = b.flatMap cfg.record → a.length = b.length := by
    rintro a _ ⟨front, rfl⟩ hSame
    rw [List.flatMap_append, List.self_eq_append_left, List.flatMap_eq_nil_iff] at hSame
    -- a record in front would make the bytes longer
    have hFront : front = [] := by
      refine List.eq_nil_iff_forall_not_mem.mpr fun r hr => ?_
      have hPos : 0 < (cfg.record r).length := record_pos r
      rw [hSame r hr] at hPos
      exact absurd hPos (by simp)
    rw [hFront, List.nil_append]
  rcases List.suffix_or_suffix_of_suffix h h' with hLe | hLe
  · exact hPart hLe hRecords
  · exact (hPart hLe hRecords.symm).symm

end Records

-- ---------------------------------------------------------------------------
-- The file that is written
-- ---------------------------------------------------------------------------

section Files

variable {cfg : Config M} {answers : Nat → Answers} {s : State} {a : Answers}

namespace Config

variable (cfg : Config M)

/-- The file behind the stream. -/
def target (fileId : Nat) : List UInt8 := if cfg.text then cfg.filename else cfg.fileName fileId

/-- What the file holds when it is opened. -/
def base (disk : List UInt8 → Option (List UInt8)) (fileId : Nat) : List UInt8 :=
  if cfg.text || cfg.overwrite then [] else (disk (cfg.fileName fileId)).getD []

/-- The next file, as `ProcessOutputSync` opens it. -/
def rotate (answers : Nat → Answers) (s : State) : State :=
  { cfg.reopenFile (answers (s.fileId + 1)) { s with fileId := s.fileId + 1 } with
    savedItems := 0, savedSize := 0 }

def itemSize (resource : Resource M) : Int :=
  if cfg.maxSizePerFile > 0 then getSize cfg.messageSize resource.payload else 0

/-- One more record in the file. -/
def append (s : State) (name : List UInt8) (resource : Resource M) : State :=
  { s with
    disk := Function.update s.disk name (some ((s.disk name).getD [] ++ cfg.record resource))
    items := s.items + 1 }

def write (s : State) (name : List UInt8) (resource : Resource M) : State :=
  { cfg.append s name resource with
    savedItems := s.savedItems + 1, savedSize := s.savedSize + cfg.itemSize resource }

/-- The record does not belong into the present file. -/
def Full (s : State) (resource : Resource M) : Prop :=
  (cfg.maxItemsPerFile > 0 ∧ s.savedItems = cfg.maxItemsPerFile) ∨
    (cfg.maxSizePerFile > 0 ∧ s.savedSize + cfg.itemSize resource > cfg.maxSizePerFile)

end Config

/-- Without what only `ProcessOutputSync` counts. -/
def State.unsaved (s : State) : State := { s with savedItems := 0, savedSize := 0 }

/-- A file that can be opened is opened, whatever else is answered. -/
theorem reopenFile_of_opens (h : cfg.Opens a) : cfg.reopenFile a s = cfg.reopenFile .ok s := by
  obtain ⟨hOpens, hLocks, hStreams⟩ := h
  cases hText : cfg.text with
  | false => simp [Config.reopenFile, Answers.ok, hOpens, hLocks, hText]
  | true => simp [Config.reopenFile, Answers.ok, hOpens, hLocks, hText, hStreams hText]

/-- A switch that fails deletes the old stream and leaves its pointer, if there was one. -/
theorem reopenFile_of_not_opens (h : ¬ cfg.Opens a) :
    (cfg.reopenFile a s).stream = if s.stream = .null then .null else .deleted := by
  rw [Config.reopenFile]
  by_cases hOpens : a.opens = true
  · by_cases hLocks : a.locks = true
    · have hText : cfg.text = true ∧ a.streams = false := by
        by_contra hNot
        refine h ⟨hOpens, hLocks, fun hText => ?_⟩
        by_contra hStreams
        exact hNot ⟨hText, by simpa using hStreams⟩
      simp [hOpens, hLocks, hText.1, hText.2]
    · simp [hOpens, hLocks]
  · simp [hOpens]

/-- The stream of a text file is opened on `filename`, whatever its number. -/
theorem reopenFile_ok_stream : (cfg.reopenFile .ok s).stream = .file (cfg.target s.fileId) := by
  cases hText : cfg.text <;> simp [Config.reopenFile, Answers.ok, Config.target, hText]

/-- What the opened file holds. -/
theorem reopenFile_ok_disk :
    (cfg.reopenFile .ok s).disk (cfg.target s.fileId) = some (cfg.base s.disk s.fileId) := by
  cases hText : cfg.text with
  | true => simp [Config.reopenFile, Answers.ok, Config.target, Config.base, hText]
  | false => simp [Config.reopenFile, Answers.ok, Config.target, Config.base, hText]

/-- The other files stay as they are. -/
theorem reopenFile_ok_disk_of_ne {name : List UInt8} (hFile : name ≠ cfg.fileName s.fileId)
    (hName : name ≠ cfg.filename) : (cfg.reopenFile .ok s).disk name = s.disk name := by
  cases hText : cfg.text with
  | true =>
    simp [Config.reopenFile, Answers.ok, hText, Function.update_of_ne hFile,
      Function.update_of_ne hName]
  | false => simp [Config.reopenFile, Answers.ok, hText, Function.update_of_ne hFile]

@[simp] theorem reopenFile_fileId : (cfg.reopenFile a s).fileId = s.fileId := by
  rw [Config.reopenFile]
  split_ifs <;> rfl

@[simp] theorem reopenFile_items : (cfg.reopenFile a s).items = s.items := by
  rw [Config.reopenFile]
  split_ifs <;> rfl

/-- `ReopenFile` does not look at the counters. -/
theorem reopenFile_counters (savedItems savedSize : Int) :
    cfg.reopenFile a { s with savedItems, savedSize } =
      { cfg.reopenFile a s with savedItems, savedSize } := by
  rw [Config.reopenFile, Config.reopenFile]
  split_ifs <;> rfl

/-- The names of two files differ. -/
theorem numbered_ne_fileName {i k : Nat} (h : k ≠ i) : cfg.numbered k ≠ cfg.fileName i := by
  rw [Config.fileName]
  split
  · exact fun hSame => h (numbered_inj hSame)
  · exact numbered_ne_filename k

theorem numbered_ne_target {i k : Nat} (h : k ≠ i) : cfg.numbered k ≠ cfg.target i := by
  rw [Config.target]
  split
  · exact numbered_ne_filename k
  · exact numbered_ne_fileName h

theorem rotate_of_not_opens (hStream : s.stream ≠ .null)
    (h : ¬ cfg.Opens (answers (s.fileId + 1))) :
    (cfg.rotate answers s).stream = .deleted :=
  (reopenFile_of_not_opens h).trans (if_neg hStream)

/-- A switch that succeeds leads to the next file. -/
theorem rotate_of_opens (h : cfg.Opens (answers (s.fileId + 1))) :
    (cfg.rotate answers s).stream = .file (cfg.target (cfg.rotate answers s).fileId) := by
  have hId : (cfg.rotate answers s).fileId = s.fileId + 1 := reopenFile_fileId
  rw [hId]
  show (cfg.reopenFile _ _).stream = _
  rw [reopenFile_of_opens h, reopenFile_ok_stream]

theorem init_unsaved {disk : List UInt8 → Option (List UInt8)} :
    (cfg.init a disk).unsaved = cfg.init a disk :=
  (reopenFile_counters 0 0).symm

/-- The resources that have been written, and those of them that are in the file behind the
stream. -/
structure Writing (cfg : Config M) (answers : Nat → Answers)
    (disk : List UInt8 → Option (List UInt8))
    (done current : List (Resource M)) (s : State) : Prop where
  stream : s.stream = .file (cfg.target s.fileId)
  content : s.disk (cfg.target s.fileId) =
    some (cfg.base disk s.fileId ++ current.flatMap cfg.record)
  later : ∀ k > s.fileId, s.disk (cfg.numbered k) = disk (cfg.numbered k)
  suffix : current <:+ done
  opens : ∀ k, 1 < k → k ≤ s.fileId → cfg.Opens (answers k)

variable {disk : List UInt8 → Option (List UInt8)} {done current : List (Resource M)}

/-- Nothing has been written behind `Init`. -/
theorem writing_init (h : cfg.Opens (answers 1)) :
    Writing cfg answers disk [] [] (cfg.init (answers 1) disk) := by
  rw [Config.init, reopenFile_of_opens h]
  refine ⟨?_, ?_, ?_, List.suffix_refl _, ?_⟩
  · rw [reopenFile_fileId, reopenFile_ok_stream]
  · rw [reopenFile_fileId, List.flatMap_nil, List.append_nil]
    exact reopenFile_ok_disk
  · intro k hk
    rw [reopenFile_fileId] at hk
    exact reopenFile_ok_disk_of_ne (numbered_ne_fileName hk.ne') (numbered_ne_filename k)
  · intro k hk hLe
    rw [reopenFile_fileId] at hLe
    exact absurd hLe (by simpa using hk)

/-- The next file is empty, or what was on the disk before the run. -/
theorem Writing.rotate (h : Writing cfg answers disk done current s)
    (hLimit : cfg.maxItemsPerFile > 0 ∨ cfg.maxSizePerFile > 0)
    (hOpens : cfg.Opens (answers (s.fileId + 1))) :
    Writing cfg answers disk done [] (cfg.rotate answers s) := by
  rw [Config.rotate, reopenFile_of_opens hOpens]
  -- nobody has written to the next file yet
  have hBase : cfg.base s.disk (s.fileId + 1) = cfg.base disk (s.fileId + 1) := by
    rw [Config.base, Config.base,
      show cfg.fileName (s.fileId + 1) = cfg.numbered (s.fileId + 1) from if_pos hLimit,
      h.later (s.fileId + 1) (Nat.lt_succ_self _)]
  have hId : (cfg.reopenFile .ok { s with fileId := s.fileId + 1 }).fileId = s.fileId + 1 :=
    reopenFile_fileId
  refine ⟨?_, ?_, ?_, List.nil_suffix, ?_⟩
  · dsimp only
    rw [hId, reopenFile_ok_stream]
  · dsimp only
    rw [hId, ← hBase, List.flatMap_nil, List.append_nil]
    exact reopenFile_ok_disk
  · intro k hk
    dsimp only at hk ⊢
    rw [hId] at hk
    rw [← h.later k (Nat.lt_of_succ_lt hk)]
    exact reopenFile_ok_disk_of_ne (numbered_ne_fileName hk.ne') (numbered_ne_filename k)
  · intro k hk hLe
    dsimp only at hLe
    rw [hId] at hLe
    rcases Nat.lt_or_ge s.fileId k with hGt | hLt
    · obtain rfl : k = s.fileId + 1 := Nat.le_antisymm hLe hGt
      exact hOpens
    · exact h.opens k hk hLt

/-- One record is appended to the file behind the stream. -/
theorem Writing.write (h : Writing cfg answers disk done current s) (resource : Resource M) :
    Writing cfg answers disk (done ++ [resource]) (current ++ [resource])
      (cfg.write s (cfg.target s.fileId) resource) := by
  refine ⟨h.stream, ?_, ?_, ?_, h.opens⟩
  · show Function.update _ _ _ (cfg.target s.fileId) = _
    rw [Function.update_self, h.content, Option.getD_some, List.append_assoc, List.flatMap_append,
      List.flatMap_singleton]
    rfl
  · intro k hk
    -- the present file is not one of the later ones
    have hOther : k ≠ s.fileId := Nat.ne_of_gt hk
    show Function.update _ _ _ (cfg.numbered k) = _
    rw [Function.update_of_ne (numbered_ne_target hOther)]
    exact h.later k hk
  · obtain ⟨front, rfl⟩ := h.suffix
    exact ⟨front, by rw [List.append_assoc]⟩

theorem Writing.unsaved (h : Writing cfg answers disk done current s) :
    Writing cfg answers disk done current s.unsaved :=
  ⟨h.stream, h.content, h.later, h.suffix, h.opens⟩

end Files

-- ---------------------------------------------------------------------------
-- One resource
-- ---------------------------------------------------------------------------

section OneResource

variable {cfg : Config M} {answers : Nat → Answers} {s : State} {name : List UInt8}
  {resource : Resource M}

theorem saveOutput_eq (s : State) (resource : Resource M) :
    cfg.saveOutput answers s resource =
      cfg.processOutputSync s (resource, answers (s.fileId + 1)) := by
  rw [Config.saveOutput, Config.output, Option.map_map]
  exact Option.map_id'

/-- Without a stream the resource is not written: "File not opened". -/
theorem saveOutput_null (h : s.stream = .null) : cfg.saveOutput answers s resource = some s := by
  rw [saveOutput_eq, Config.processOutputSync]
  exact if_pos h

/-- A record that belongs into the present file is written there. -/
theorem saveOutput_write (h : s.stream = .file name) (hFull : ¬ cfg.Full s resource) :
    cfg.saveOutput answers s resource = some (cfg.write s name resource) := by
  have hNull : s.stream ≠ .null := by simp [h]
  rw [Config.Full, Config.itemSize] at hFull
  rw [saveOutput_eq, Config.processOutputSync]
  dsimp only
  rw [if_neg hNull, if_neg hFull, h]
  simp [Config.write, Config.append, Config.itemSize, h]

/-- One that does not is written as the first record of the next file. -/
theorem saveOutput_rotate (hNull : s.stream ≠ .null) (hFull : cfg.Full s resource)
    (h : (cfg.rotate answers s).stream = .file name) :
    cfg.saveOutput answers s resource = some (cfg.write (cfg.rotate answers s) name resource) := by
  rw [Config.Full, Config.itemSize] at hFull
  rw [saveOutput_eq, Config.processOutputSync]
  dsimp only
  rw [if_neg hNull, if_pos hFull]
  have hStream :
      (cfg.reopenFile (answers (s.fileId + 1)) { s with fileId := s.fileId + 1 }).stream =
        .file name := h
  rw [hStream]
  simp [Config.write, Config.append, Config.rotate, Config.itemSize, hStream]

/-- If the next file cannot be opened the run ends: the stream has been deleted. -/
theorem saveOutput_lost (hNull : s.stream ≠ .null) (hFull : cfg.Full s resource)
    (h : ¬ cfg.Opens (answers (s.fileId + 1))) : cfg.saveOutput answers s resource = none := by
  rw [Config.Full, Config.itemSize] at hFull
  rw [saveOutput_eq, Config.processOutputSync]
  dsimp only
  have hStream :
      (cfg.reopenFile (answers (s.fileId + 1)) { s with fileId := s.fileId + 1 }).stream =
        .deleted := rotate_of_not_opens hNull h
  rw [if_neg hNull, if_pos hFull, hStream]

/-- One resource in the MULTI mode. -/
def multiOne (cfg : Config M) (answers : Nat → Answers) (s : State) (resource : Resource M) :
    Option State :=
  (cfg.multi answers [] s resource).map Prod.fst

theorem multiOne_null (h : s.stream = .null) : multiOne cfg answers s resource = some s := by
  simp [multiOne, Config.multi, h]

/-- So it does in the MULTI mode, with the first record behind the switch. -/
theorem multiOne_deleted (h : s.stream = .deleted) : multiOne cfg answers s resource = none := by
  simp [multiOne, Config.multi, h]

/-- A resource that the filter lets through is written, and the next file is opened behind it. -/
theorem multi_file {filter : List UInt32} (hFilter : filter = [] ∨ resource.payload.typeId ∈ filter)
    (h : s.stream = .file name) :
    cfg.multi answers filter s resource =
      some (if cfg.maxItemsPerFile > 0 ∧ (s.items + 1) % cfg.maxItemsPerFile = 0
        then cfg.reopenFile (answers (s.fileId + 1)) { cfg.append s name resource with
          fileId := s.fileId + 1 }
        else cfg.append s name resource, .serialized) := by
  rw [Config.multi, if_pos hFilter, h]
  dsimp only
  split_ifs
  · simp [Config.append, h]
  · simp [Config.append, h]

/-- In the MULTI mode the next file is opened behind the last record of the present one. -/
theorem multiOne_file (h : s.stream = .file name) :
    multiOne cfg answers s.unsaved resource =
      some (if cfg.maxItemsPerFile > 0 ∧ (s.items + 1) % cfg.maxItemsPerFile = 0
        then cfg.rotate answers (cfg.write s name resource)
        else (cfg.write s name resource).unsaved) := by
  have hStream : s.unsaved.stream = .file name := h
  rw [multiOne, multi_file (.inl rfl) hStream, Option.map_some,
    Config.rotate, ← reopenFile_counters]
  rfl

/-- A call of the MULTI module is the loop over its queue. -/
theorem saveMulti_eq_run (s : State) (inputResources : List (Resource M)) :
    cfg.saveMulti answers s inputResources = run (multiOne cfg answers) s inputResources := by
  rw [Config.saveMulti]
  induction inputResources generalizing s with
  | nil => rfl
  | cons r inputResources ih =>
    rw [Config.processMultiSync, run, multiOne]
    cases hFirst : cfg.multi answers [] s r with
    | none => rfl
    -- the call goes on with the rest of the queue
    | some first =>
      rw [Option.bind_some, Option.map_map, Option.map_some, Option.bind_some, ← ih first.1]
      rfl

/-- How the resources are divided among the calls does not matter. -/
theorem run_saveMulti (s : State) (calls : List (List (Resource M))) :
    run (cfg.saveMulti answers) s calls = run (multiOne cfg answers) s calls.flatten := by
  induction calls generalizing s with
  | nil => rfl
  | cons call calls ih =>
    refine Option.ext fun s' => ?_
    rw [run_cons_eq_some, List.flatten_cons, run_append_eq_some]
    simp only [saveMulti_eq_run, ih]

end OneResource

end HectorCore.Save
