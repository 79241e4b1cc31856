import HectorCore.Lib.Walk
import HectorCore.Load.Offset
import HectorCore.Server.Control

/-!
# Checkpoints — SAVE_CHECKPOINT and RESTORE_CHECKPOINT

The two methods of `BaseServer::HandleRequest`, and `SaveCheckpointSync` and `RestoreCheckpointSync`
on the way to the modules. Only `Load` has anything to keep. (The Perl and Python modules declare
functions of these names with one more argument, which are not called: `Object` has the ones that
are.)

* A `Load` is known by a number, and its id has the number of its thread in it.
* The files of the checkpoints are not among those that are loaded.
* `fwrite` may leave the bytes in the buffer, and nobody asks whether `fclose` has written them.
-/

namespace HectorCore.Server.Checkpoints

open Lib (walk passing atPlace endsWell reached lastWith cStr)
open HectorCore.Load (scanCheckpoint)

-- ---------------------------------------------------------------------------
-- The modules
-- ---------------------------------------------------------------------------

/-- The modules of a thread, the threads of a processor, and the processors of an engine. -/
abbrev Thread := List (Option Nat)
abbrev Processor := List Thread
abbrev Engine := List Processor

structure Modules where
  engines : List Engine
  ids : Nat → Bytes

/-- What the files hold; `none` where there is no file. -/
abbrev Files := Bytes → Option Bytes

/-- What becomes of a checkpoint: no file is opened, or `fwrite` fails, or it does not; and how many
bytes get to the file. -/
inductive Saving where
  | notOpened
  | notWritten (n : Nat)
  | closed (n : Nat)
  deriving DecidableEq, Repr

variable {σ : Type}

/-- `SaveCheckpointSync` or `RestoreCheckpointSync` of a processor, where `f` is that of a
`Load`. -/
def Processor.checkpointSync (f : Nat → σ → Bool × σ) (processor : Processor) : σ → Bool × σ :=
  walk (walk (passing id f)) processor

/-- The same of an engine. -/
def Engine.checkpointSync (f : Nat → σ → Bool × σ) (engine : Engine) : σ → Bool × σ :=
  walk (Processor.checkpointSync f) engine

namespace Modules

variable (env : Modules)

/-- The loop of `HandleRequest` over the engines. -/
def checkpoint (f : Nat → σ → Bool × σ) : σ → Bool × σ := walk (Engine.checkpointSync f) env.engines

/-- All `Load` modules, in the order of the loops. -/
def loads : List Nat := env.engines.flatten.flatten.flatten.filterMap id

/-- `snprintf(buffer1, sizeof(buffer1), "%s.%s", path, GetId())` -/
def file (path : Bytes) (n : Nat) : Bytes := (path ++ 46 :: env.ids n).take 1023

-- ---------------------------------------------------------------------------
-- Saving
-- ---------------------------------------------------------------------------

/-- `Load::SaveCheckpointSync` -/
def saveLoad (saving : Nat → Saving) (ms : Nat → HectorCore.Load.State) (path : Bytes) (n : Nat)
    (files : Files) : Bool × Files :=
  match saving n with
  | .notOpened => (false, files)
  | .notWritten k =>
    (false, Function.update files (env.file path n) (some ((ms n).saveCheckpointSync.take k)))
  | .closed k =>
    (true, Function.update files (env.file path n) (some ((ms n).saveCheckpointSync.take k)))

def saveCheckpoint (saving : Nat → Saving) (ms : Nat → HectorCore.Load.State) (args : Bytes)
    (files : Files)
    (r : Response) : Files × Response :=
  let (result, files) := env.checkpoint (env.saveLoad saving ms (cStr args)) files
  (files, if result then r.setResponseCode 200 ok
    else r.setResponseCode 500 (text "Error saving checkpoint"))

-- ---------------------------------------------------------------------------
-- Restoring
-- ---------------------------------------------------------------------------

/-- `Load::RestoreCheckpointSync`; `inputs` are the files that are loaded. -/
def restoreLoad (opens : Nat → Bool) (files inputs : Files) (path : Bytes) (n : Nat)
    (m : HectorCore.Load.State) : Bool × HectorCore.Load.State :=
  match if opens n then files (env.file path n) else none with
  | none => (false, m)
  | some bytes =>
    let buffer := bytes.take 1023
    if buffer.length = 0 then (false, m)
    else
      let name := ((scanCheckpoint (cStr buffer)).map Prod.fst).getD []
      m.restoreCheckpointSync (cStr buffer) ((inputs name).getD [])

def restoreCheckpoint (opens : Nat → Bool) (files inputs : Files) (args : Bytes)
    (ms : Nat → HectorCore.Load.State) (r : Response) : (Nat → HectorCore.Load.State) × Response :=
  let (result, ms) := env.checkpoint (atPlace (env.restoreLoad opens files inputs (cStr args))) ms
  (ms, if result then r.setResponseCode 200 ok
    else r.setResponseCode 500 (text "Error restoring checkpoint"))

end Modules

-- ---------------------------------------------------------------------------
-- The loops
-- ---------------------------------------------------------------------------

variable {env : Modules} {f : Nat → σ → Bool × σ} {saving : Nat → Saving}
  {ms : Nat → HectorCore.Load.State}
  {path : Bytes} {files : Files} {r : Response}

/-- The four loops are one over the `Load` modules. -/
theorem checkpoint_eq (env : Modules) (f : Nat → σ → Bool × σ) (s : σ) :
    env.checkpoint f s = walk f env.loads s := by
  have hProcessor : Processor.checkpointSync f = walk (walk (passing id f)) := rfl
  have hEngine : Engine.checkpointSync f = walk (walk (walk (passing id f))) := rfl
  unfold Modules.checkpoint Modules.loads
  rw [hEngine, Lib.walk_flatten, Lib.walk_flatten, Lib.walk_flatten, Lib.walk_passing]

-- ---------------------------------------------------------------------------
-- What is saved
-- ---------------------------------------------------------------------------

/-- `SaveCheckpointSync` returns true. -/
def Saving.ends : Saving → Bool
  | .closed _ => true
  | .notOpened | .notWritten _ => false

/-- How many bytes get to the file, if there is one. -/
def Saving.wrote : Saving → Option Nat
  | .notOpened => none
  | .notWritten n | .closed n => some n

/-- What a `Load` leaves in its file. -/
def written (saving : Nat → Saving) (ms : Nat → HectorCore.Load.State) (n : Nat) : Option Bytes :=
  (saving n).wrote.map fun k => (ms n).saveCheckpointSync.take k

/-- The files that are written, by the modules that the loops get to. -/
def Modules.writes (env : Modules) (saving : Nat → Saving) (ms : Nat → HectorCore.Load.State)
    (path : Bytes) :
    List (Bytes × Bytes) :=
  (reached (fun n => (saving n).ends) env.loads).filterMap fun n =>
    (written saving ms n).map fun bytes => (env.file path n, bytes)

theorem saveLoad_eq (n : Nat) (files : Files) :
    env.saveLoad saving ms path n files = ((saving n).ends,
      match written saving ms n with
      | some bytes => Function.update files (env.file path n) (some bytes)
      | none => files) := by
  unfold Modules.saveLoad written Saving.wrote Saving.ends
  cases saving n <;> rfl

theorem foldl_written (ns : List Nat) (files : Files) :
    ns.foldl (fun files n => match written saving ms n with
        | some bytes => Function.update files (env.file path n) (some bytes)
        | none => files) files =
      (ns.filterMap fun n => (written saving ms n).map fun bytes => (env.file path n, bytes)).foldl
        (fun (files : Files) (e : Bytes × Bytes) => Function.update files e.1 (some e.2))
        files := by
  induction ns generalizing files with
  | nil => rfl
  | cons n ns ih =>
    rw [List.foldl_cons, List.filterMap_cons]
    cases written saving ms n with
    | none => exact ih _
    | some bytes => exact ih _

/-- The loop over the `Load` modules, when they save. -/
theorem checkpoint_saveLoad (env : Modules) (saving : Nat → Saving)
    (ms : Nat → HectorCore.Load.State)
    (path : Bytes) (files : Files) :
    env.checkpoint (env.saveLoad saving ms path) files = (env.loads.all fun n => (saving n).ends,
      fun name => match lastWith Prod.fst name (env.writes saving ms path) with
        | some e => some e.2
        | none => files name) := by
  rw [checkpoint_eq, Lib.walk_reached saveLoad_eq, foldl_written]
  refine Prod.ext rfl (funext fun name => ?_)
  dsimp only
  rw [Lib.foldl_update]
  unfold Modules.writes
  cases lastWith Prod.fst name _ <;> rfl

theorem saveCheckpoint_files (args : Bytes) :
    (env.saveCheckpoint saving ms args files r).1 =
      (env.checkpoint (env.saveLoad saving ms (cStr args)) files).2 := rfl

/-- **What SAVE_CHECKPOINT leaves**, whatever becomes of the files: the answer is "200 OK" if no
module has returned false; up to the first one that has, every file holds what the last module with
a file of its name has written, and the other files are as they were. -/
theorem saveCheckpoint_eq (env : Modules) (saving : Nat → Saving) (ms : Nat → HectorCore.Load.State)
    (args : Bytes) (files : Files) (r : Response) :
    ((env.saveCheckpoint saving ms args files r).2.responseCode = 200 ↔
        ∀ n ∈ env.loads, (saving n).ends = true) ∧
      ∀ name, (env.saveCheckpoint saving ms args files r).1 name =
        match lastWith Prod.fst name (env.writes saving ms (cStr args)) with
        | some e => some e.2
        | none => files name := by
  constructor
  · unfold Modules.saveCheckpoint
    rw [checkpoint_saveLoad, ← List.all_eq_true]
    dsimp only
    cases env.loads.all fun n => (saving n).ends with
    | true => exact iff_of_true rfl rfl
    | false =>
      have hCode : (500 : Int) ≠ 200 := by decide
      exact iff_of_false hCode Bool.false_ne_true
  · intro name
    rw [saveCheckpoint_files, checkpoint_saveLoad]

-- ---------------------------------------------------------------------------
-- One file for each module
-- ---------------------------------------------------------------------------

/-- Every file is written as a whole. -/
def Whole (env : Modules) (saving : Nat → Saving) (ms : Nat → HectorCore.Load.State) : Prop :=
  ∀ n ∈ env.loads, ∃ k, saving n = .closed k ∧ (ms n).saveCheckpointSync.length ≤ k

/-- Every file holds what its module has to keep. -/
def Kept (env : Modules) (ms : Nat → HectorCore.Load.State) (path : Bytes) (files : Files) : Prop :=
  ∀ n ∈ env.loads, files (env.file path n) = some (ms n).saveCheckpointSync

/-- The bytes of an id that have room in the name of a file. -/
def Modules.shortId (env : Modules) (path : Bytes) (n : Nat) : Bytes :=
  (env.ids n).take (1022 - path.length)

theorem file_eq_iff {n m : Nat} :
    env.file path n = env.file path m ↔ env.shortId path n = env.shortId path m := by
  have hTake : ∀ n, env.file path n = (path ++ [46]).take 1023 ++ env.shortId path n := by
    intro n
    have hSplit : path ++ 46 :: env.ids n = (path ++ [46]) ++ env.ids n := by
      rw [List.append_assoc, List.singleton_append]
    rw [Modules.file, hSplit, List.take_append, List.length_append, List.length_singleton,
      Modules.shortId, Nat.sub_add_eq, Nat.sub_right_comm]
  rw [hTake, hTake]
  exact List.append_right_inj _

theorem writes_whole (hWhole : Whole env saving ms) :
    env.writes saving ms path = env.loads.map fun n =>
      (env.file path n, (ms n).saveCheckpointSync) := by
  have hEnds : (env.loads.all fun n => (saving n).ends) = true := by
    rw [List.all_eq_true]
    intro n hn
    obtain ⟨k, hClosed, -⟩ := hWhole n hn
    rw [hClosed]
    rfl
  unfold Modules.writes
  rw [Lib.reached_of_all hEnds, ← List.filterMap_eq_map]
  refine List.filterMap_congr fun n hn => ?_
  obtain ⟨k, hClosed, hLength⟩ := hWhole n hn
  rw [written, hClosed, Saving.wrote, Option.map_some, Option.map_some,
    List.take_of_length_le hLength]
  rfl

/-- The files after all have been written. -/
theorem kept_saveCheckpoint_iff (hWhole : Whole env saving ms) (args : Bytes) :
    Kept env ms (cStr args) (env.saveCheckpoint saving ms args files r).1 ↔
      ∀ n ∈ env.loads, ∀ m ∈ env.loads, env.shortId (cStr args) n = env.shortId (cStr args) m →
        (ms n).saveCheckpointSync = (ms m).saveCheckpointSync := by
  constructor
  · intro hKept n hn m hm hSame
    have hN := hKept n hn
    rw [file_eq_iff.mpr hSame, hKept m hm] at hN
    exact (Option.some.inj hN).symm
  · intro hSame n hn
    rw [saveCheckpoint_files, checkpoint_saveLoad, writes_whole hWhole]
    dsimp only
    have hMem : (env.file (cStr args) n, (ms n).saveCheckpointSync) ∈
        env.loads.map fun n => (env.file (cStr args) n, (ms n).saveCheckpointSync) :=
      List.mem_map.mpr ⟨n, hn, rfl⟩
    have hSome : (lastWith Prod.fst (env.file (cStr args) n)
        (env.loads.map fun n => (env.file (cStr args) n, (ms n).saveCheckpointSync))).isSome :=
      Lib.lastWith_isSome hMem
    obtain ⟨e, hLast⟩ := Option.isSome_iff_exists.mp hSome
    obtain ⟨hIn, hKey⟩ := Lib.lastWith_some hLast
    obtain ⟨m, hm, rfl⟩ := List.mem_map.mp hIn
    rw [hLast]
    exact congrArg some (hSame m hm n hn (file_eq_iff.mp hKey))

-- ---------------------------------------------------------------------------
-- What is restored
-- ---------------------------------------------------------------------------

/-- A module that has been given the checkpoint of `old`: the name of its file, and as many bytes
are skipped in the file that it has open. -/
def resumedAt (old m : HectorCore.Load.State) : Bool × HectorCore.Load.State :=
  match m.stream with
  | some stream =>
    let (result, stream) := stream.skip (Lib.toInt32 old.byteCount.toNat)
    (result, { m with filename := old.filename, stream := some stream })
  | none => (false, { m with filename := old.filename })

/-- The module has opened its file, and nobody has closed it. -/
def Initialized (m : HectorCore.Load.State) : Prop := m.fd = -1 ∧ m.stream.isSome

variable {opens : Nat → Bool} {inputs : Files} {old new : Nat → HectorCore.Load.State} {n : Nat}

theorem zero_not_mem_checkpoint {m : HectorCore.Load.State}
    (hName : HectorCore.Load.PlainName m.filename)
    (hZero : 0 ∉ m.filename) : 0 ∉ m.saveCheckpointSync := by
  obtain ⟨hNumber, hText⟩ := HectorCore.Load.checkpointText_plain hName m.byteCount
  rw [HectorCore.Load.saveCheckpointSync_eq, hText]
  intro hMem
  rcases List.mem_append.mp hMem with hMem | hMem
  · exact hZero hMem
  · rcases List.mem_cons.mp hMem with hIs | hMem
    · exact absurd hIs (by decide)
    · rcases List.mem_append.mp hMem with hMem | hMem
      · exact absurd (hNumber.digits 0 hMem) (by decide)
      · exact absurd hMem (by decide)

theorem restoreLoad_eq (hFile : files (env.file path n) = some (old n).saveCheckpointSync)
    (hName : HectorCore.Load.PlainName (old n).filename) (hZero : 0 ∉ (old n).filename)
    (hOpens : opens n = true) {m : HectorCore.Load.State} (hNew : Initialized m) :
    env.restoreLoad opens files inputs path n m = resumedAt (old n) m := by
  obtain ⟨stream, hStream⟩ := Option.isSome_iff_exists.mp hNew.2
  have hShort : (old n).saveCheckpointSync.take 1023 = (old n).saveCheckpointSync := by
    rw [HectorCore.Load.saveCheckpointSync_eq, HectorCore.Load.checkpointText, List.take_take,
      Nat.min_self]
  have hScan : scanCheckpoint (old n).saveCheckpointSync =
    some ((old n).filename, (old n).byteCount) :=
    HectorCore.Load.scanCheckpoint_plain hName _
  have hLength : (old n).saveCheckpointSync.length ≠ 0 := by
    intro hNil
    rw [List.length_eq_zero_iff.mp hNil] at hScan
    cases hScan
  have hClosed : ¬ m.fd ≥ 0 := by
    rw [hNew.1]
    decide
  unfold Modules.restoreLoad resumedAt
  rw [if_pos hOpens, hFile]
  dsimp only
  rw [hShort, if_neg hLength, cStr_eq_self_iff.mpr (zero_not_mem_checkpoint hName hZero)]
  simp only [HectorCore.Load.State.restoreCheckpointSync, hScan,
    HectorCore.Load.State.setFilename, hClosed,
    if_false, hStream]

/-- Two processors, the first one with two modules; what is loaded is `"a\nb\n"`. -/
def twoLoads : Modules where
  engines := [[[[some 0, none]], [[some 1]]]]
  ids n := [76, 91, 48 + UInt8.ofNat n, 93]

def newLoad : HectorCore.Load.State := .init [102] true false 1 (-1) 0 [97, 10, 98, 10]

end HectorCore.Server.Checkpoints
