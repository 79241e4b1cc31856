import HectorCore.Save.Multi

/-!
# FileSwitch — what a failed switch of files leaves behind

`lib/processing_engine/module/Save.cc`: the calls of `ReopenFile` in `ProcessOutputSync` and
`ProcessMultiSync`, over any sequence of calls and any answers of the operating system.

The property is that of the stream which a call finds: NULL, and then nothing is written, or open on
the file with the number of the latest `ReopenFile`. Every state may be followed by a call, so it is
stated of the last state too.

The result is `file_switch_noticed_iff`.
-/

namespace HectorCore.Save

open HectorCore.Lib
open HectorCore.Stream (Payload Resource)

variable {M : Type}

-- ---------------------------------------------------------------------------
-- Calls
-- ---------------------------------------------------------------------------

/-- One call of the module, in either mode. -/
inductive Call (M : Type) where
  | output (resource : Resource M)
  | multi (inputResources : List (Resource M))

/-- "File not opened" for every resource that is to be written. -/
def Call.refused (filter : List UInt32) : Call M → List Report
  | .output _ => [.fileNotOpened]
  | .multi inputResources => inputResources.map fun r =>
    if filter = [] ∨ r.payload.typeId ∈ filter then .fileNotOpened else .filtered

namespace Config

variable (cfg : Config M) (answers : Nat → Answers) (filter : List UInt32)

/-- The state and the reports after a call; `none` when it uses a deleted stream. -/
def call (s : State) : Call M → Option (State × List Report)
  | .output resource => (cfg.output answers s resource).map fun (s', report) => (s', [report])
  | .multi inputResources =>
    (cfg.processMultiSync answers filter s inputResources).map fun (s', result) =>
    (s', result.reports)

/-- What a call leaves of the module; what it reports is `refused`. -/
def callState (s : State) (call : Call M) : Option State :=
  (cfg.call answers filter s call).map Prod.fst

/-- The files that `ProcessMultiSync` switches to with these counters can be opened. -/
def switchesMulti : Int → Nat → List (Resource M) → Prop
  | _, _, [] => True
  | items, fileId, r :: inputResources =>
    if filter = [] ∨ r.payload.typeId ∈ filter then
      if cfg.maxItemsPerFile > 0 ∧ (items + 1) % cfg.maxItemsPerFile = 0 then
        cfg.Opens (answers (fileId + 1)) ∧ switchesMulti (items + 1) (fileId + 1) inputResources
      else switchesMulti (items + 1) fileId inputResources
    else switchesMulti items fileId inputResources

end Config

/-- Every `ReopenFile` of the call succeeds. -/
def Switches (cfg : Config M) (answers : Nat → Answers) (filter : List UInt32) (s : State) :
    Call M → Prop
  | .output resource => cfg.Full s resource → cfg.Opens (answers (s.fileId + 1))
  | .multi inputResources => cfg.switchesMulti answers filter s.items s.fileId inputResources

/-- The stream is NULL, or open on the file of the latest `ReopenFile`. -/
def Sound (cfg : Config M) (s : State) : Prop :=
  s.stream = .null ∨ s.stream = .file (cfg.fileName s.fileId)

/-- **The call finds a sound stream**: without a file it says so and writes nothing, and no deleted
stream is used. -/
structure Noticed (cfg : Config M) (answers : Nat → Answers) (filter : List UInt32) (s : State)
    (call : Call M) : Prop where
  sound : Sound cfg s
  refused : s.stream = .null → cfg.call answers filter s call = some (s, call.refused filter)
  comesBack : (cfg.call answers filter s call).isSome

-- ---------------------------------------------------------------------------
-- Without a file
-- ---------------------------------------------------------------------------

section NoFile

variable {cfg : Config M} {answers : Nat → Answers} {filter : List UInt32} {s s' : State}

/-- Without a file each resource that passes the filter is refused; the module stays as it is. -/
theorem processMultiSync_null (h : s.stream = .null) (inputResources : List (Resource M)) :
    ∃ result, cfg.processMultiSync answers filter s inputResources = some (s, result) ∧
      result.reports = (Call.multi inputResources).refused filter := by
  induction inputResources with
  | nil => exact ⟨_, rfl, rfl⟩
  | cons r inputResources ih =>
    obtain ⟨result, hRest, hReports⟩ := ih
    have hFirst : cfg.multi answers filter s r =
        some (s,
          if filter = [] ∨ r.payload.typeId ∈ filter then .fileNotOpened else .filtered) := by
      rw [Config.multi, h]
      split <;> rfl
    rw [Config.processMultiSync, hFirst, Option.bind_some]
    dsimp only
    rw [hRest]
    exact ⟨_, rfl, congrArg _ hReports⟩

/-- So it is for both kinds of call. -/
theorem call_null (h : s.stream = .null) (call : Call M) :
    cfg.call answers filter s call = some (s, call.refused filter) := by
  cases call with
  | output resource =>
    have hSame : cfg.processOutputSync s (resource, answers (s.fileId + 1)) = some s := by
      rw [← saveOutput_eq]
      exact saveOutput_null h
    rw [Config.call, Config.output, hSame, h]
    rfl
  | multi inputResources =>
    obtain ⟨result, hRun, hReports⟩ : ∃ result,
        cfg.processMultiSync answers filter s inputResources = some (s, result) ∧
          result.reports = (Call.multi inputResources).refused filter :=
      processMultiSync_null h inputResources
    rw [Config.call, hRun, ← hReports]
    rfl

theorem noticed_null (h : s.stream = .null) (call : Call M) :
    Noticed cfg answers filter s call where
  sound := .inl h
  refused _ := call_null h call
  comesBack := by rw [call_null h]; rfl

/-- The module stays without a file for any number of calls. -/
theorem allOk_null (h : s.stream = .null) (calls : List (Call M)) :
    AllOk (cfg.callState answers filter) (Noticed cfg answers filter) s calls ∧
      ∀ s', run (cfg.callState answers filter) s calls = some s' → Sound cfg s' := by
  have hStay : ∀ call, cfg.callState answers filter s call = some s := by
    intro call
    rw [Config.callState, call_null h]
    rfl
  induction calls with
  | nil =>
    refine ⟨trivial, fun s' hRun => ?_⟩
    rw [run_nil, Option.some.injEq] at hRun
    exact hRun ▸ .inl h
  | cons call calls ih =>
    refine ⟨⟨noticed_null h call, fun s' hStep => ?_⟩, fun s' hRun => ?_⟩
    · cases (hStay call).symm.trans hStep
      exact ih.1
    · rw [run, hStay, Option.bind_some] at hRun
      exact ih.2 s' hRun

end NoFile

-- ---------------------------------------------------------------------------
-- With a file
-- ---------------------------------------------------------------------------

section OpenFile

variable {cfg : Config M} {answers : Nat → Answers} {filter : List UInt32} {s s' : State}

/-- The call has used a deleted stream, or leaves one. -/
def Lost (result : Option State) : Prop :=
  result = none ∨ ∃ s, result = some s ∧ s.stream = .deleted

/-- A file is open, and it is the one that `fileId` names. -/
def Kept (cfg : Config M) (result : Option State) : Prop :=
  ∃ s, result = some s ∧ s.stream = .file (cfg.target s.fileId)

/-- `ProcessOutputSync`: what becomes of the file is up to the one it switches to. -/
theorem output_kept (h : s.stream = .file (cfg.target s.fileId)) (resource : Resource M) :
    (Switches cfg answers filter s (.output resource) →
      Kept cfg (cfg.saveOutput answers s resource)) ∧
      (¬ Switches cfg answers filter s (.output resource) →
        Lost (cfg.saveOutput answers s resource)) := by
  have hNull : s.stream ≠ .null := by simp [h]
  by_cases hFull : cfg.Full s resource
  · by_cases hOpens : cfg.Opens (answers (s.fileId + 1))
    · have hStream := rotate_of_opens hOpens
      exact ⟨fun _ => ⟨_, saveOutput_rotate hNull hFull hStream, hStream⟩,
        fun hNot => absurd (fun _ => hOpens) hNot⟩
    · exact ⟨fun hSwitches => absurd (hSwitches hFull) hOpens,
        fun _ => .inl (saveOutput_lost hNull hFull hOpens)⟩
  · exact ⟨fun _ => ⟨_, saveOutput_write h hFull, h⟩, fun hNot => absurd (absurd · hFull) hNot⟩

/-- A deleted stream stays. -/
theorem multi_deleted (h : s.stream = .deleted) (inputResources : List (Resource M)) :
    Lost ((cfg.processMultiSync answers filter s inputResources).map Prod.fst) := by
  induction inputResources with
  | nil => exact .inr ⟨s, rfl, h⟩
  | cons r inputResources ih =>
    rw [Config.processMultiSync]
    by_cases hFilter : filter = [] ∨ r.payload.typeId ∈ filter
    · rw [Config.multi, if_pos hFilter, h]
      exact .inl rfl
    · rw [Config.multi, if_neg hFilter, Option.bind_some, Option.map_map]
      exact ih

/-- `ProcessMultiSync`: the same for all the files that one call goes through. -/
theorem multi_kept (h : s.stream = .file (cfg.target s.fileId))
    (inputResources : List (Resource M)) :
    (cfg.switchesMulti answers filter s.items s.fileId inputResources →
        Kept cfg ((cfg.processMultiSync answers filter s inputResources).map Prod.fst)) ∧
      (¬ cfg.switchesMulti answers filter s.items s.fileId inputResources →
        Lost ((cfg.processMultiSync answers filter s inputResources).map Prod.fst)) := by
  induction inputResources generalizing s with
  | nil => exact ⟨fun _ => ⟨s, rfl, h⟩, fun hNot => absurd trivial hNot⟩
  | cons r inputResources ih =>
    rw [Config.processMultiSync, Config.switchesMulti]
    by_cases hFilter : filter = [] ∨ r.payload.typeId ∈ filter
    · rw [if_pos hFilter, multi_file hFilter h, Option.bind_some, Option.map_map]
      by_cases hLast : cfg.maxItemsPerFile > 0 ∧ (s.items + 1) % cfg.maxItemsPerFile = 0
      · rw [if_pos hLast, if_pos hLast]
        by_cases hOpens : cfg.Opens (answers (s.fileId + 1))
        · rw [and_iff_right hOpens, reopenFile_of_opens hOpens]
          have hNext := @ih (cfg.reopenFile .ok { cfg.append s (cfg.target s.fileId) r with
            fileId := s.fileId + 1 }) (by rw [reopenFile_ok_stream, reopenFile_fileId])
          rw [reopenFile_items, reopenFile_fileId] at hNext
          exact hNext
        · refine ⟨fun hSwitches => absurd hSwitches.1 hOpens, fun _ => ?_⟩
          refine multi_deleted ?_ inputResources
          rw [reopenFile_of_not_opens hOpens]
          simp [Config.append, h]
      · rw [if_neg hLast, if_neg hLast]
        exact ih (s := cfg.append s (cfg.target s.fileId) r) h
    · rw [if_neg hFilter, Config.multi, if_neg hFilter, Option.bind_some, Option.map_map]
      exact ih h

theorem call_kept (h : s.stream = .file (cfg.target s.fileId)) (call : Call M) :
    (Switches cfg answers filter s call → Kept cfg (cfg.callState answers filter s call)) ∧
      (¬ Switches cfg answers filter s call → Lost (cfg.callState answers filter s call)) := by
  cases call with
  | output resource =>
    rw [Config.callState, Config.call, Option.map_map]
    exact output_kept h resource
  | multi inputResources =>
    rw [Config.callState, Config.call, Option.map_map]
    exact multi_kept h inputResources

/-- The first call comes back, and the others go on from where it left the module. -/
theorem noticed_head {call : Call M} {calls : List (Call M)}
    (h : AllOk (cfg.callState answers filter) (Noticed cfg answers filter) s (call :: calls)) :
    ∃ s', cfg.callState answers filter s call = some s' ∧
      AllOk (cfg.callState answers filter) (Noticed cfg answers filter) s' calls := by
  obtain ⟨first, hFirst⟩ := Option.isSome_iff_exists.mp h.1.comesBack
  have hState : cfg.callState answers filter s call = some first.1 := by
    rw [Config.callState, hFirst]
    rfl
  exact ⟨first.1, hState, h.2 _ hState⟩

/-- The calls find a sound stream, and leave one. -/
def AllNoticed (cfg : Config M) (answers : Nat → Answers) (filter : List UInt32) (s : State)
    (calls : List (Call M)) : Prop :=
  AllOk (cfg.callState answers filter) (Noticed cfg answers filter) s calls ∧
    ∀ s', run (cfg.callState answers filter) s calls = some s' → Sound cfg s'

theorem AllNoticed.sound {calls : List (Call M)} (h : AllNoticed cfg answers filter s calls) :
    Sound cfg s := by
  cases calls with
  | nil => exact h.2 s rfl
  | cons call calls => exact h.1.1.sound

theorem allNoticed_cons {call : Call M} {calls : List (Call M)} :
    AllNoticed cfg answers filter s (call :: calls) ↔ Noticed cfg answers filter s call ∧
      ∃ s', cfg.callState answers filter s call = some s' ∧
        AllNoticed cfg answers filter s' calls := by
  constructor
  · rintro ⟨hAll, hEnd⟩
    obtain ⟨s', hStep, hRest⟩ := noticed_head hAll
    exact ⟨hAll.1, s', hStep, hRest,
      fun s'' hRun => hEnd s'' (run_cons_eq_some.mpr ⟨s', hStep, hRun⟩)⟩
  · rintro ⟨hFirst, s', hStep, hRest, hEnd⟩
    refine ⟨⟨hFirst, fun s'' hStep' => ?_⟩, fun s'' hRun => ?_⟩
    · cases hStep.symm.trans hStep'
      exact hRest
    · obtain ⟨t, hStep', hRun'⟩ := run_cons_eq_some.mp hRun
      cases hStep.symm.trans hStep'
      exact hEnd s'' hRun'

/-- From an open file every switch has to succeed, when the stream is on the file of that name. -/
theorem allNoticed_iff (hName : ∀ k, cfg.target k = cfg.fileName k)
    (h : s.stream = .file (cfg.target s.fileId)) (calls : List (Call M)) :
    AllNoticed cfg answers filter s calls ↔
      AllOk (cfg.callState answers filter) (Switches cfg answers filter) s calls := by
  have hSound : ∀ {t : State}, t.stream = .file (cfg.target t.fileId) → Sound cfg t := by
    intro t ht
    exact .inr (by rw [ht, hName])
  induction calls generalizing s with
  | nil =>
    refine iff_of_true ⟨trivial, fun s' hRun => ?_⟩ trivial
    rw [run_nil, Option.some.injEq] at hRun
    exact hRun ▸ hSound h
  | cons call calls ih =>
    rw [allNoticed_cons]
    by_cases hSwitches : Switches cfg answers filter s call
    · obtain ⟨s₁, hStep, hFile⟩ := (call_kept h call).1 hSwitches
      have hNoticed : Noticed cfg answers filter s call := by
        refine ⟨hSound h, fun hNull => absurd (h.symm.trans hNull) (by simp), ?_⟩
        rw [Config.callState] at hStep
        rw [← Option.isSome_map, hStep]
        rfl
      constructor
      · rintro ⟨-, s', hStep', hRest⟩
        cases hStep.symm.trans hStep'
        refine ⟨hSwitches, fun s' hStep' => ?_⟩
        cases hStep.symm.trans hStep'
        exact (ih hFile).mp hRest
      · rintro ⟨-, hRest⟩
        exact ⟨hNoticed, s₁, hStep, (ih hFile).mpr (hRest s₁ hStep)⟩
    · refine iff_of_false ?_ fun hAll => hSwitches hAll.1
      rintro ⟨-, s', hStep, hRest⟩
      rcases (call_kept h call).2 hSwitches with hNone | ⟨t, hSome, hDeleted⟩
      · exact absurd (hNone.symm.trans hStep) (by simp)
      · cases hSome.symm.trans hStep
        rcases hRest.sound with hNull | hFile
        · exact absurd (hDeleted.symm.trans hNull) (by simp)
        · exact absurd (hDeleted.symm.trans hFile) (by simp)

end OpenFile

/--
**When a failed switch of files is noticed.** Take any properties of the module, any files on the
disk before, any answers of the operating system, any filter, and any calls in either mode. Every
call finds a sound stream and no deleted one is used, if and only if the first file cannot be
opened, or the format is binary or nothing is limited, and every `ReopenFile` of a call succeeds.
-/
theorem file_switch_noticed_iff (cfg : Config M) (answers : Nat → Answers) (filter : List UInt32)
    (disk : List UInt8 → Option (List UInt8)) (calls : List (Call M)) :
    AllNoticed cfg answers filter (cfg.init (answers 1) disk) calls ↔
      ¬ cfg.Opens (answers 1) ∨
        ((cfg.text = false ∨ (cfg.maxItemsPerFile ≤ 0 ∧ cfg.maxSizePerFile ≤ 0)) ∧
          AllOk (cfg.callState answers filter) (Switches cfg answers filter)
            (cfg.init (answers 1) disk) calls) := by
  by_cases hFirst : cfg.Opens (answers 1)
  · rw [or_iff_right (not_not_intro hFirst)]
    have hFile : (cfg.init (answers 1) disk).stream =
        .file (cfg.target (cfg.init (answers 1) disk).fileId) := (writing_init hFirst).stream
    by_cases hPlain : cfg.text = false ∨ (cfg.maxItemsPerFile ≤ 0 ∧ cfg.maxSizePerFile ≤ 0)
    · rw [and_iff_right hPlain]
      refine allNoticed_iff (fun k => ?_) hFile calls
      rcases hPlain with hBinary | ⟨hItems, hSize⟩
      · rw [Config.target, hBinary]
        rfl
      · have hFileName : cfg.fileName k = cfg.filename := if_neg (by omega)
        rw [Config.target, hFileName, ite_self]
    · refine iff_of_false (fun hAll => ?_) fun h => hPlain h.1
      rw [not_or, Bool.not_eq_false, not_and_or, not_le, not_le] at hPlain
      rcases hAll.sound with hNull | hNumbered
      · exact absurd (hFile.symm.trans hNull) (by simp)
      · rw [hFile, Config.target, if_pos hPlain.1, Config.fileName, if_pos hPlain.2,
          Target.file.injEq] at hNumbered
        exact numbered_ne_filename _ hNumbered.symm
  · exact iff_of_true (allOk_null (reopenFile_of_not_opens hFirst) calls) (.inl hFirst)

/-- The second file cannot be opened, and the third resource goes to the stream of the first one. -/
theorem file_switch_unnoticed :
    ¬ AllNoticed (twoPerFile false) (fun k => ⟨k != 2, true, true⟩) []
      ((twoPerFile false).init ⟨true, true, true⟩ fun _ => none)
      [.multi (threeStrings.drop 1), .output ⟨1, 0, .testResource [97]⟩] := by
  intro hAll
  obtain ⟨-, s, hStep, hRest⟩ := allNoticed_cons.mp hAll
  have hDeleted : ((twoPerFile false).callState (fun k => ⟨k != 2, true, true⟩) []
      ((twoPerFile false).init ⟨true, true, true⟩ fun _ => none)
      (.multi (threeStrings.drop 1))).map State.stream = some .deleted := by
    decide
  rw [hStep, Option.map_some, Option.some.injEq] at hDeleted
  rcases hRest.sound with hNull | hFile
  · exact absurd (hDeleted.symm.trans hNull) (by simp)
  · exact absurd (hDeleted.symm.trans hFile) (by simp)

end HectorCore.Save
