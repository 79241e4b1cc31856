import HectorCore.Lib.Run
import HectorCore.Lib.CText
import HectorCore.Stream.Output
import Mathlib.Algebra.BigOperators.Group.List.Basic

/-!
# Rotation — the module that writes resources to files

`lib/processing_engine/module/Save.cc`: `ReopenFile`, `Init` and `ProcessOutputSync`. With a limit
on the items or on the size of a file the output is split into `filename.1`, `filename.2`, ...

* `ReopenFile` deletes the stream and does not reset the pointer: after a failed open a deleted
  stream is used, unless there was none.
* The descriptor is that of `filename.N`, but the `ofstream` of a text file is opened for
  `filename`.
* What has been written is in the file when the stream is deleted; `fileId` and the counters do not
  wrap around.
* `r.str().size()` of the protocol buffer message is a parameter.

The result is `save_splits_without_loss_iff`.
-/

namespace HectorCore.Save

open Lib (toInt32 digits digits_ne_nil)
open HectorCore.Lib
open HectorCore.Stream (MessageCodec Payload Resource serializeTo)

variable {M : Type}

-- ---------------------------------------------------------------------------
-- The module
-- ---------------------------------------------------------------------------

/-- `GetSize` -/
def getSize (messageSize : M → Nat) : Payload M → Int
  | .testResource str => toInt32 str.length
  | .testProtobufResource r => toInt32 (messageSize r)
  | .markerResource _ => 4

/-- The properties of the module, and what it uses of the protocol buffer library. -/
structure Config (M : Type) where
  codec : MessageCodec M
  print : M → List UInt8
  messageSize : M → Nat
  filename : List UInt8
  overwrite : Bool
  text : Bool
  saveResourceType : Bool
  saveResourceIdStatus : Bool
  maxItemsPerFile : Int
  maxSizePerFile : Int

/-- The member `stream`, and the file behind it. -/
inductive Target where
  | null
  | deleted
  | file (name : List UInt8)
  deriving DecidableEq, Repr

structure State where
  items : Int
  fileId : Nat
  savedItems : Int
  savedSize : Int
  stream : Target
  disk : List UInt8 → Option (List UInt8)

/-- What the operating system answers in `ReopenFile`. -/
structure Answers where
  opens : Bool
  locks : Bool
  streams : Bool
  deriving DecidableEq, Repr

namespace Config

variable (cfg : Config M)

/-- `filename` with `.fileId` behind it. -/
def numbered (fileId : Nat) : List UInt8 := cfg.filename ++ 46 :: digits fileId

def fileName (fileId : Nat) : List UInt8 :=
  if cfg.maxItemsPerFile > 0 ∨ cfg.maxSizePerFile > 0 then cfg.numbered fileId else cfg.filename

/-- `ReopenFile` -/
def reopenFile (a : Answers) (s : State) : State :=
  let s := { s with stream := if s.stream = .null then .null else .deleted }
  let name := cfg.fileName s.fileId
  if !a.opens then s
  else
    let kept := if cfg.overwrite then [] else (s.disk name).getD []
    let s := { s with disk := Function.update s.disk name (some kept) }
    if !a.locks then s
    else if !cfg.text then { s with stream := .file name }
    else if !a.streams then s
    else
      { s with
        disk := Function.update s.disk cfg.filename (some []), stream := .file cfg.filename }

/-- The constructor and `Init`. -/
def init (a : Answers) (disk : List UInt8 → Option (List UInt8)) : State :=
  cfg.reopenFile a ⟨0, 1, 0, 0, .null, disk⟩

/-- `SerializeResource` -/
def record (resource : Resource M) : List UInt8 :=
  serializeTo cfg.codec cfg.print cfg.text resource cfg.saveResourceType cfg.saveResourceIdStatus

/-- `ProcessOutputSync`; `none` when it uses a deleted stream. -/
def processOutputSync (s : State) (call : Resource M × Answers) : Option State :=
  let (resource, a) := call
  if s.stream = .null then some s
  else
    let size := if cfg.maxSizePerFile > 0 then getSize cfg.messageSize resource.payload else 0
    let s :=
      if (cfg.maxItemsPerFile > 0 ∧ s.savedItems = cfg.maxItemsPerFile) ∨
          (cfg.maxSizePerFile > 0 ∧ s.savedSize + size > cfg.maxSizePerFile) then
        { cfg.reopenFile a { s with fileId := s.fileId + 1 } with savedItems := 0, savedSize := 0 }
      else s
    match s.stream with
    | .file name =>
      some { s with
        disk := Function.update s.disk name (some ((s.disk name).getD [] ++ cfg.record resource))
        items := s.items + 1, savedItems := s.savedItems + 1, savedSize := s.savedSize + size }
    | _ => none

end Config

/-- All files are opened. -/
def Answers.ok : Answers := ⟨true, true, true⟩

-- ---------------------------------------------------------------------------
-- Records split over numbered files
-- ---------------------------------------------------------------------------

section Spec

variable (cfg : Config M)

/-- The sizes of the resources of one file. -/
def totalSize (chunk : List (Resource M)) : Int :=
  (chunk.map fun r => getSize cfg.messageSize r.payload).sum

/-- The limits on one file. -/
def WithinLimits (chunk : List (Resource M)) : Prop :=
  (0 < cfg.maxItemsPerFile → (chunk.length : Int) ≤ cfg.maxItemsPerFile) ∧
    (0 < cfg.maxSizePerFile → totalSize cfg chunk ≤ cfg.maxSizePerFile ∨ chunk.length = 1)

/-- **The output is split without loss**: the files hold the records of the sequence, one chunk
each, and every chunk is within the limits. -/
def SplitsWithoutLoss (resources : List (Resource M)) (s : State) : Prop :=
  ∃ chunks : List (List (Resource M)), chunks.flatten = resources ∧ chunks.length = s.fileId ∧
    ∀ i chunk, chunks[i]? = some chunk →
      s.disk (cfg.numbered (i + 1)) = some (chunk.flatMap cfg.record) ∧ WithinLimits cfg chunk

end Spec

-- ---------------------------------------------------------------------------
-- One call
-- ---------------------------------------------------------------------------

section OneCall

variable {cfg : Config M} {s s' : State} {resource : Resource M}

theorem numbered_inj {i j : Nat} (h : cfg.numbered i = cfg.numbered j) : i = j := by
  have hDigits : digits i = digits j := by
    simpa [Config.numbered] using h
  rw [← Lib.decimal_digits i, hDigits, Lib.decimal_digits]

theorem numbered_ne_filename (i : Nat) : cfg.numbered i ≠ cfg.filename := by
  intro h
  have hLength := congrArg List.length h
  simp [Config.numbered] at hLength

/-- Records are not empty in a text file. -/
theorem record_ne_nil (hText : cfg.text = true) : cfg.record resource ≠ [] := by
  rw [Config.record, serializeTo, if_pos hText, HectorCore.Stream.Text.serializeResource]
  refine List.append_ne_nil_of_right_ne_nil _ ?_
  cases resource.payload with
  | testResource str => simp [HectorCore.Stream.Text.serialize, HectorCore.Stream.Text.writeString]
  | testProtobufResource r => simp [HectorCore.Stream.Text.serialize]
  | markerResource mark =>
    simp [HectorCore.Stream.Text.serialize, HectorCore.Stream.Text.writeVarint32,
      HectorCore.Stream.Text.writeNumber]

variable (hLimit : 0 < cfg.maxItemsPerFile ∨ 0 < cfg.maxSizePerFile)
  (hOverwrite : cfg.overwrite = true)
include hLimit hOverwrite

theorem reopenFile_binary (hText : cfg.text = false) :
    cfg.reopenFile .ok s =
      { s with
        disk := Function.update s.disk (cfg.numbered s.fileId) (some [])
        stream := .file (cfg.numbered s.fileId) } := by
  have hName : cfg.fileName s.fileId = cfg.numbered s.fileId := if_pos hLimit
  simp [Config.reopenFile, Answers.ok, hText, hOverwrite, hName]

theorem reopenFile_text (hText : cfg.text = true) :
    cfg.reopenFile .ok s =
      { s with
        disk := Function.update (Function.update s.disk (cfg.numbered s.fileId) (some []))
          cfg.filename (some [])
        stream := .file cfg.filename } := by
  have hName : cfg.fileName s.fileId = cfg.numbered s.fileId := if_pos hLimit
  simp [Config.reopenFile, Answers.ok, hText, hOverwrite, hName]

end OneCall

-- ---------------------------------------------------------------------------
-- A binary file
-- ---------------------------------------------------------------------------

section Binary

variable {cfg : Config M} {s s' : State} {resource : Resource M} {full : List (List (Resource M))}
  {current : List (Resource M)}

/-- The files that are full, and the one that is being written. -/
structure Saved (cfg : Config M) (full : List (List (Resource M))) (current : List (Resource M))
    (s : State) : Prop where
  fileId : s.fileId = full.length + 1
  stream : s.stream = .file (cfg.numbered s.fileId)
  disk : ∀ i chunk, (full ++ [current])[i]? = some chunk →
    s.disk (cfg.numbered (i + 1)) = some (chunk.flatMap cfg.record)
  savedItems : s.savedItems = current.length
  savedSize : 0 < cfg.maxSizePerFile → s.savedSize = totalSize cfg current
  within : ∀ chunk ∈ full ++ [current], WithinLimits cfg chunk

theorem totalSize_append (resource : Resource M) :
    totalSize cfg (current ++ [resource]) =
      totalSize cfg current + getSize cfg.messageSize resource.payload := by
  simp [totalSize]

/-- A chunk is replaced at the end. -/
theorem getElem?_concat_of_ne {i : Nat} (hi : i ≠ full.length) (chunk : List (Resource M)) :
    (full ++ [chunk])[i]? = full[i]? := by
  rcases Nat.lt_or_ge i full.length with hLt | hGe
  · exact List.getElem?_append_left hLt
  · rw [List.getElem?_append_right hGe, List.getElem?_eq_none_iff.mpr hGe,
      List.getElem?_eq_none_iff, List.length_singleton]
    omega

/-- The record is written to the file. -/
theorem Saved.append (h : Saved cfg full current s) {size : Int}
    (hSize : 0 < cfg.maxSizePerFile → size = getSize cfg.messageSize resource.payload)
    (hWithin : WithinLimits cfg (current ++ [resource])) :
    Saved cfg full (current ++ [resource])
      { s with
        disk := Function.update s.disk (cfg.numbered s.fileId)
          (some ((s.disk (cfg.numbered s.fileId)).getD [] ++ cfg.record resource))
        items := s.items + 1, savedItems := s.savedItems + 1,
        savedSize := s.savedSize + size } := by
  refine ⟨h.fileId, h.stream, ?_, ?_, ?_, ?_⟩
  · intro i chunk hChunk
    dsimp only
    by_cases hi : i = full.length
    · subst hi
      have hLast : s.disk (cfg.numbered s.fileId) = some (current.flatMap cfg.record) := by
        rw [h.fileId]
        exact h.disk full.length current (by simp)
      rw [List.getElem?_concat_length, Option.some.injEq] at hChunk
      rw [← h.fileId, Function.update_self, hLast, ← hChunk]
      simp
    · have hOther : cfg.numbered (i + 1) ≠ cfg.numbered s.fileId := by
        intro hSame
        have hId := numbered_inj hSame
        rw [h.fileId] at hId
        omega
      rw [Function.update_of_ne hOther]
      rw [getElem?_concat_of_ne hi] at hChunk
      exact h.disk i chunk (by rw [getElem?_concat_of_ne hi]; exact hChunk)
  · show s.savedItems + 1 = _
    rw [h.savedItems, List.length_append]
    rfl
  · intro hPos
    show s.savedSize + size = _
    rw [totalSize_append, h.savedSize hPos, hSize hPos]
  · intro chunk hChunk
    rcases List.mem_append.mp hChunk with hFull | hLast
    · exact h.within chunk (List.mem_append_left _ hFull)
    · rw [List.mem_singleton.mp hLast]
      exact hWithin

/-- The next file is opened. -/
theorem Saved.rotate (h : Saved cfg full current s) :
    Saved cfg (full ++ [current]) []
      { s with
        fileId := s.fileId + 1
        disk := Function.update s.disk (cfg.numbered (s.fileId + 1)) (some [])
        stream := .file (cfg.numbered (s.fileId + 1)), savedItems := 0, savedSize := 0 } := by
  have hLength : (full ++ [current]).length = s.fileId := by
    rw [List.length_append, h.fileId]
    rfl
  refine ⟨?_, rfl, ?_, rfl, fun _ => rfl, ?_⟩
  · show s.fileId + 1 = _
    rw [hLength]
  · intro i chunk hChunk
    dsimp only
    by_cases hi : i = (full ++ [current]).length
    · subst hi
      rw [List.getElem?_concat_length, Option.some.injEq] at hChunk
      rw [hLength, Function.update_self, ← hChunk]
      rfl
    · have hOther : cfg.numbered (i + 1) ≠ cfg.numbered (s.fileId + 1) := by
        intro hSame
        have hId := numbered_inj hSame
        omega
      rw [Function.update_of_ne hOther]
      rw [getElem?_concat_of_ne hi] at hChunk
      exact h.disk i chunk hChunk
  · intro chunk hChunk
    rcases List.mem_append.mp hChunk with hFull | hLast
    · exact h.within chunk hFull
    · rw [List.mem_singleton.mp hLast]
      exact ⟨fun hPos => hPos.le, fun hPos => .inl hPos.le⟩

/-- A file with room for the record. -/
theorem Saved.withinLimits (h : Saved cfg full current s) {size : Int}
    (hSize : 0 < cfg.maxSizePerFile → size = getSize cfg.messageSize resource.payload)
    (hRoom : ¬ ((cfg.maxItemsPerFile > 0 ∧ s.savedItems = cfg.maxItemsPerFile) ∨
      (cfg.maxSizePerFile > 0 ∧ s.savedSize + size > cfg.maxSizePerFile))) :
    WithinLimits cfg (current ++ [resource]) := by
  have hWithin : WithinLimits cfg current := h.within current (by simp)
  constructor
  · intro hPos
    have hLe := hWithin.1 hPos
    have hNe : s.savedItems ≠ cfg.maxItemsPerFile := fun hEq => hRoom (.inl ⟨hPos, hEq⟩)
    rw [h.savedItems] at hNe
    rw [List.length_append, List.length_singleton]
    omega
  · intro hPos
    left
    have hLe : ¬ s.savedSize + size > cfg.maxSizePerFile := fun hGt => hRoom (.inr ⟨hPos, hGt⟩)
    rw [totalSize_append, ← h.savedSize hPos, ← hSize hPos]
    omega

variable (hLimit : 0 < cfg.maxItemsPerFile ∨ 0 < cfg.maxSizePerFile)
  (hOverwrite : cfg.overwrite = true) (hText : cfg.text = false)
include hLimit hOverwrite hText

theorem saved_init (disk : List UInt8 → Option (List UInt8)) :
    Saved cfg [] [] (cfg.init .ok disk) := by
  rw [Config.init, reopenFile_binary hLimit hOverwrite hText]
  refine ⟨rfl, rfl, ?_, rfl, fun _ => rfl, ?_⟩
  · intro i chunk hChunk
    rw [List.nil_append, List.getElem?_singleton] at hChunk
    split at hChunk
    · rename_i hi
      rw [Option.some.injEq] at hChunk
      rw [← hChunk, hi]
      exact Function.update_self ..
    · exact absurd hChunk (by simp)
  · intro chunk hChunk
    rw [List.mem_singleton.mp hChunk]
    exact ⟨fun hPos => hPos.le, fun hPos => .inl hPos.le⟩

/-- One record, in this file or in the next one. -/
theorem Saved.step (h : Saved cfg full current s) (resource : Resource M) :
    ∃ s', cfg.processOutputSync s (resource, .ok) = some s' ∧
      (Saved cfg full (current ++ [resource]) s' ∨
        Saved cfg (full ++ [current]) [resource] s') := by
  have hNull : s.stream ≠ .null := by
    rw [h.stream]
    simp
  have hSize : 0 < cfg.maxSizePerFile → (if cfg.maxSizePerFile > 0
      then getSize cfg.messageSize resource.payload else 0) =
        getSize cfg.messageSize resource.payload :=
    fun hPos => if_pos hPos
  rw [Config.processOutputSync]
  dsimp only
  rw [if_neg hNull]
  generalize (if cfg.maxSizePerFile > 0
    then getSize cfg.messageSize resource.payload else 0) = size at hSize ⊢
  by_cases hFull : (cfg.maxItemsPerFile > 0 ∧ s.savedItems = cfg.maxItemsPerFile) ∨
      (cfg.maxSizePerFile > 0 ∧ s.savedSize + size > cfg.maxSizePerFile)
  · have hWithin : WithinLimits cfg ([] ++ [resource]) := ⟨fun hPos => hPos, fun _ => .inr rfl⟩
    have hNext := h.rotate.append hSize hWithin
    rw [if_pos hFull, reopenFile_binary hLimit hOverwrite hText]
    exact ⟨_, rfl, .inr hNext⟩
  · have hNext := h.append hSize (h.withinLimits hSize hFull)
    rw [if_neg hFull, h.stream]
    rw [h.stream] at hNext
    exact ⟨_, rfl, .inl hNext⟩

/-- All records. -/
theorem Saved.run (resources : List (Resource M)) (h : Saved cfg full current s) :
    ∃ s' full' current', Lib.run cfg.processOutputSync s (resources.map (·, .ok)) = some s' ∧
      Saved cfg full' current' s' ∧
      (full' ++ [current']).flatten = (full ++ [current]).flatten ++ resources := by
  induction resources generalizing full current s with
  | nil => exact ⟨s, full, current, rfl, h, (List.append_nil _).symm⟩
  | cons resource resources ih =>
    obtain ⟨s₁, hStep, hSaved | hSaved⟩ := h.step hLimit hOverwrite hText resource
    · obtain ⟨s', full', current', hRun, hEnd, hFlatten⟩ := ih hSaved
      refine ⟨s', full', current', run_cons_eq_some.mpr ⟨s₁, hStep, hRun⟩, hEnd, ?_⟩
      rw [hFlatten]
      simp
    · obtain ⟨s', full', current', hRun, hEnd, hFlatten⟩ := ih hSaved
      refine ⟨s', full', current', run_cons_eq_some.mpr ⟨s₁, hStep, hRun⟩, hEnd, ?_⟩
      rw [hFlatten]
      simp

theorem splits_of_binary (resources : List (Resource M)) (disk : List UInt8 → Option (List UInt8)) :
    ∃ s, Lib.run cfg.processOutputSync (cfg.init .ok disk) (resources.map (·, .ok)) = some s ∧
      SplitsWithoutLoss cfg resources s := by
  obtain ⟨s, full, current, hRun, hSaved, hFlatten⟩ :=
    (saved_init hLimit hOverwrite hText disk).run hLimit hOverwrite hText resources
  refine ⟨s, hRun, full ++ [current], by rw [hFlatten]; simp, by rw [hSaved.fileId]; simp, ?_⟩
  intro i chunk hChunk
  exact ⟨hSaved.disk i chunk hChunk, hSaved.within chunk (List.mem_of_getElem? hChunk)⟩

end Binary

-- ---------------------------------------------------------------------------
-- A text file
-- ---------------------------------------------------------------------------

section Text

variable {cfg : Config M} {s : State}

/-- The numbered files are empty, and `filename` is written. -/
structure Misdirected (cfg : Config M) (s : State) : Prop where
  stream : s.stream = .file cfg.filename
  fileId : 0 < s.fileId
  disk : ∀ i, 0 < i → i ≤ s.fileId → s.disk (cfg.numbered i) = some []

variable (hLimit : 0 < cfg.maxItemsPerFile ∨ 0 < cfg.maxSizePerFile)
  (hOverwrite : cfg.overwrite = true) (hText : cfg.text = true)
include hLimit hOverwrite hText

theorem misdirected_init (disk : List UInt8 → Option (List UInt8)) :
    Misdirected cfg (cfg.init .ok disk) := by
  rw [Config.init, reopenFile_text hLimit hOverwrite hText]
  refine ⟨rfl, Nat.one_pos, ?_⟩
  intro i hPos hLe
  obtain rfl : i = 1 := Nat.le_antisymm hLe hPos
  dsimp only
  rw [Function.update_of_ne (numbered_ne_filename 1), Function.update_self]

/-- The next file is opened, and `filename` is cut to nothing. -/
theorem Misdirected.rotate (h : Misdirected cfg s) :
    Misdirected cfg
      { cfg.reopenFile .ok { s with fileId := s.fileId + 1 } with
        savedItems := 0, savedSize := 0 } := by
  rw [reopenFile_text hLimit hOverwrite hText]
  refine ⟨rfl, Nat.succ_pos _, ?_⟩
  intro i hPos hLe
  dsimp only at hLe ⊢
  rw [Function.update_of_ne (numbered_ne_filename i)]
  by_cases hi : i = s.fileId + 1
  · rw [hi, Function.update_self]
  · rw [Function.update_of_ne fun hSame => hi (numbered_inj hSame)]
    exact h.disk i hPos (by omega)

omit hLimit hOverwrite hText in
theorem Misdirected.write (h : Misdirected cfg s) (bytes : Option (List UInt8))
    (items savedItems savedSize : Int) :
    Misdirected cfg
      { s with
        disk := Function.update s.disk cfg.filename bytes, items, savedItems, savedSize } := by
  refine ⟨h.stream, h.fileId, ?_⟩
  intro i hPos hLe
  dsimp only
  rw [Function.update_of_ne (numbered_ne_filename i)]
  exact h.disk i hPos hLe

theorem Misdirected.step (h : Misdirected cfg s) (resource : Resource M) :
    ∃ s', cfg.processOutputSync s (resource, .ok) = some s' ∧ Misdirected cfg s' := by
  have hNull : s.stream ≠ .null := by
    rw [h.stream]
    simp
  rw [Config.processOutputSync]
  dsimp only
  rw [if_neg hNull]
  generalize (if cfg.maxSizePerFile > 0
    then getSize cfg.messageSize resource.payload else 0) = size
  by_cases hFull : (cfg.maxItemsPerFile > 0 ∧ s.savedItems = cfg.maxItemsPerFile) ∨
      (cfg.maxSizePerFile > 0 ∧ s.savedSize + size > cfg.maxSizePerFile)
  · have hNext := h.rotate hLimit hOverwrite hText
    rw [if_pos hFull]
    rw [reopenFile_text hLimit hOverwrite hText] at hNext ⊢
    exact ⟨_, rfl, hNext.write _ _ _ _⟩
  · rw [if_neg hFull]
    have hNext := h.write (some ((s.disk cfg.filename).getD [] ++ cfg.record resource))
      (s.items + 1)
      (s.savedItems + 1) (s.savedSize + size)
    rw [h.stream] at hNext ⊢
    exact ⟨_, rfl, hNext⟩

theorem Misdirected.run (resources : List (Resource M)) (h : Misdirected cfg s) :
    ∃ s', Lib.run cfg.processOutputSync s (resources.map (·, .ok)) = some s' ∧
      Misdirected cfg s' := by
  induction resources generalizing s with
  | nil => exact ⟨s, rfl, h⟩
  | cons resource resources ih =>
    obtain ⟨s₁, hStep, hNext⟩ := h.step hLimit hOverwrite hText resource
    obtain ⟨s', hRun, hEnd⟩ := ih hNext
    exact ⟨s', run_cons_eq_some.mpr ⟨s₁, hStep, hRun⟩, hEnd⟩

omit hLimit hOverwrite in
/-- Empty files hold nothing. -/
theorem Misdirected.eq_nil (h : Misdirected cfg s) {resources : List (Resource M)}
    (hSplits : SplitsWithoutLoss cfg resources s) : resources = [] := by
  obtain ⟨chunks, hFlatten, hLength, hFiles⟩ := hSplits
  rw [← hFlatten, List.flatten_eq_nil_iff]
  intro chunk hChunk
  obtain ⟨i, hi⟩ := List.mem_iff_getElem?.mp hChunk
  have hLt : i < chunks.length := (List.getElem?_eq_some_iff.mp hi).1
  have hEmpty := (hFiles i chunk hi).1
  rw [h.disk (i + 1) (Nat.succ_pos i) (by omega), Option.some.injEq] at hEmpty
  have hRecords := List.flatMap_eq_nil_iff.mp hEmpty.symm
  refine List.eq_nil_iff_forall_not_mem.mpr fun r hr => ?_
  exact record_ne_nil hText (hRecords r hr)

end Text

/--
**Which output is split without loss.** Take any properties of the module with `overwrite = true`
and at least one positive limit, any files on the disk before, and any sequence of resources, and
let all files be opened. The numbered files hold the records of the sequence, within the limits, if
and only if the format is binary or there are no resources.
-/
theorem save_splits_without_loss_iff (cfg : Config M)
    (hLimit : 0 < cfg.maxItemsPerFile ∨ 0 < cfg.maxSizePerFile) (hOverwrite : cfg.overwrite = true)
    (resources : List (Resource M)) (disk : List UInt8 → Option (List UInt8)) :
    (∃ s, run cfg.processOutputSync (cfg.init .ok disk) (resources.map (·, .ok)) = some s ∧
        SplitsWithoutLoss cfg resources s) ↔
      cfg.text = false ∨ resources = [] := by
  cases hText : cfg.text with
  | false => exact iff_of_true (splits_of_binary hLimit hOverwrite hText resources disk) (.inl rfl)
  | true =>
    have hInit := misdirected_init hLimit hOverwrite hText disk
    constructor
    · rintro ⟨s, hRun, hSplits⟩
      obtain ⟨s', hRun', hEnd⟩ := hInit.run hLimit hOverwrite hText resources
      cases hRun.symm.trans hRun'
      exact .inr (hEnd.eq_nil hText hSplits)
    · rintro (hBinary | rfl)
      · exact absurd hBinary (by decide)
      · have hId : (cfg.init .ok disk).fileId = 1 := by
          rw [Config.init, reopenFile_text hLimit hOverwrite hText]
        refine ⟨_, rfl, [[]], rfl, hId.symm, ?_⟩
        intro i chunk hChunk
        rw [List.getElem?_singleton] at hChunk
        split at hChunk
        · rename_i hi
          rw [Option.some.injEq] at hChunk
          rw [← hChunk, hi]
          exact ⟨hInit.disk 1 Nat.one_pos hId.ge, fun hPos => hPos.le, fun hPos => .inl hPos.le⟩
        · exact absurd hChunk (by simp)

/-- Two records for each file, and at most five bytes. -/
def twoPerFile (text : Bool) : Config (Option (List UInt8)) where
  codec := HectorCore.Stream.testProtobufCodec
  print _ := []
  messageSize r := (r.getD []).length
  filename := [102]
  overwrite := true
  text := text
  saveResourceType := true
  saveResourceIdStatus := false
  maxItemsPerFile := 2
  maxSizePerFile := 5

/-- A string that is too long for a file, and two strings that fit into one. -/
def threeStrings : List (Resource (Option (List UInt8))) :=
  [⟨1, 0, .testResource [97, 98, 99, 100, 101, 102]⟩, ⟨2, 0, .testResource [97]⟩,
    ⟨3, 0, .testResource [98]⟩]

theorem save_splits_three :
    ∃ s, run (twoPerFile false).processOutputSync ((twoPerFile false).init .ok fun _ => none)
        (threeStrings.map (·, .ok)) = some s ∧
      SplitsWithoutLoss (twoPerFile false) threeStrings s :=
  (save_splits_without_loss_iff (twoPerFile false) (.inl (by decide)) rfl threeStrings
    fun _ => none).mpr (.inl rfl)

/-- In the text format all three are lost to the numbered files. -/
theorem save_loses_text :
    ¬ ∃ s, run (twoPerFile true).processOutputSync ((twoPerFile true).init .ok fun _ => none)
        (threeStrings.map (·, .ok)) = some s ∧
      SplitsWithoutLoss (twoPerFile true) threeStrings s := by
  rintro ⟨s, hRun, hSplits⟩
  have hLimit : 0 < (twoPerFile true).maxItemsPerFile ∨ 0 < (twoPerFile true).maxSizePerFile :=
    .inl (by decide)
  obtain ⟨s', hRun', hEnd⟩ := (misdirected_init hLimit rfl rfl fun _ => none).run hLimit rfl rfl
    threeStrings
  cases hRun.symm.trans hRun'
  exact absurd (hEnd.eq_nil rfl hSplits) (by decide)

end HectorCore.Save
