import HectorCore.Save.Multi

/-!
# SameFiles — the same files in both modes

`lib/processing_engine/module/Save.cc`: what `ProcessOutputSync` writes one by one, against what
`ProcessMultiSync` writes of the same resources.

* The OUTPUT module opens a file only in front of a record. So the last file of several is not
  empty, and a file that was left with fewer items than `maxItemsPerFile` is never made up for.
* The MULTI module writes the resource `i` to the file `i / maxItemsPerFile + 1`.
* The record in which a file ends tells how many resources it holds.

The result is `multi_same_files_iff`.
-/

namespace HectorCore.Save

open HectorCore.Lib
open HectorCore.Stream (Resource)

variable {M : Type}

-- ---------------------------------------------------------------------------
-- The same files in both modes
-- ---------------------------------------------------------------------------

/-- The items of one file; without a limit all items that there are, and one more. -/
def Config.perFile (cfg : Config M) (count : Nat) : Nat :=
  if 0 < cfg.maxItemsPerFile then cfg.maxItemsPerFile.toNat else count + 1

/-- **Both runs come back, and have produced the same files**: as many, and with the same
contents. -/
def SameFiles (output multi : Option State) : Prop :=
  ∃ s t, output = some s ∧ multi = some t ∧ s.fileId = t.fileId ∧ s.disk = t.disk

/-- The resource `i` does not fit into the file that it is written to as the item `i % items`. The
first resource of a later file is written in any case. -/
def Exceeds (cfg : Config M) (items : Nat) (resources : List (Resource M)) (i : Nat) : Prop :=
  0 < cfg.maxSizePerFile ∧ (i = 0 ∨ ¬ items ∣ i) ∧
    cfg.maxSizePerFile < totalSize cfg ((resources.take (i + 1)).drop (i / items * items))

/-- The two modes split the resources alike: the last file is not full, no resource exceeds the size
of a file, and all files are opened. -/
structure SplitAlike (cfg : Config M) (answers : Nat → Answers) (resources : List (Resource M)) :
    Prop where
  last : resources = [] ∨ ¬ cfg.perFile resources.length ∣ resources.length
  fits : ∀ i < resources.length, ¬ Exceeds cfg (cfg.perFile resources.length) resources i
  opens : ∀ k, 1 < k → k ≤ resources.length / cfg.perFile resources.length + 1 →
    cfg.Opens (answers k)

-- ---------------------------------------------------------------------------
-- The items of a file
-- ---------------------------------------------------------------------------

section PerFile

variable {cfg : Config M} {count : Nat}

/-- A file takes at least one record. -/
theorem perFile_pos : 0 < cfg.perFile count := by
  rw [Config.perFile]
  split <;> omega

theorem length_lt_of_cons {done rest : List (Resource M)} {resource : Resource M}
    (h : (done ++ resource :: rest).length = count) : done.length < count := by
  rw [← h, List.length_append, List.length_cons]
  omega

theorem eq_maxItems_iff {items : Nat} (h : items ≤ count) :
    (cfg.maxItemsPerFile > 0 ∧ (items : Int) = cfg.maxItemsPerFile) ↔
      items = cfg.perFile count := by
  rw [Config.perFile]
  split <;> omega

/-- The MULTI mode counts the records of all files. -/
theorem maxItems_dvd_iff {items : Nat} (h : items < count) :
    (cfg.maxItemsPerFile > 0 ∧ ((items : Int) + 1) % cfg.maxItemsPerFile = 0) ↔
      cfg.perFile count ∣ items + 1 := by
  rw [Config.perFile, ← Int.dvd_iff_emod_eq_zero]
  split
  · rename_i hPos
    rw [← Int.natCast_dvd_natCast, Int.toNat_of_nonneg hPos.le, Nat.cast_succ]
    exact and_iff_right hPos
  · rename_i hNeg
    refine iff_of_false (fun h => hNeg h.1) fun hDvd => ?_
    have hLe := Nat.le_of_dvd (Nat.succ_pos _) hDvd
    omega

/-- The last of the files is full when the items of all files are a multiple. -/
theorem eq_perFile_iff {P full items : Nat} (hPos : 0 < P) (hLe : items ≤ P)
    (hLast : 0 < full → 0 < items) :
    items = P ↔ full * P + items ≠ 0 ∧ P ∣ full * P + items := by
  rw [Nat.dvd_add_right (Nat.dvd_mul_left P full)]
  constructor
  · rintro rfl
    exact ⟨by omega, Nat.dvd_refl _⟩
  · rintro ⟨hSome, hDvd⟩
    by_contra hNe
    have hNone : items = 0 := Nat.eq_zero_of_dvd_of_lt hDvd (Nat.lt_of_le_of_ne hLe hNe)
    have hFull : full = 0 := by omega
    rw [hNone, hFull] at hSome
    omega

end PerFile

-- ---------------------------------------------------------------------------
-- The OUTPUT module
-- ---------------------------------------------------------------------------

section Output

variable {cfg : Config M} {answers : Nat → Answers} {disk : List UInt8 → Option (List UInt8)}
  {count full : Nat} {done current rest : List (Resource M)} {s s' : State} {resource : Resource M}

/-- Besides the present file there are `full` files, of at most `perFile` items. -/
structure Split (cfg : Config M) (answers : Nat → Answers) (disk : List UInt8 → Option (List UInt8))
    (count : Nat) (done : List (Resource M)) (full : Nat) (current : List (Resource M))
    (s : State) :
    Prop extends Writing cfg answers disk done current s where
  fileId : s.fileId = full + 1
  items : s.items = done.length
  savedItems : s.savedItems = current.length
  savedSize : 0 < cfg.maxSizePerFile → s.savedSize = totalSize cfg current
  within : current.length ≤ cfg.perFile count
  used : 0 < full → 0 < current.length
  ahead : done.length ≤ full * cfg.perFile count + current.length

/-- All files but the present one have `perFile` items. -/
def InStep (cfg : Config M) (count : Nat) (done : List (Resource M)) (full : Nat)
    (current : List (Resource M)) : Prop :=
  done.length = full * cfg.perFile count + current.length

/-- When the OUTPUT mode opens the next file. -/
theorem Split.full_iff (h : Split cfg answers disk count done full current s)
    (hRoom : done.length < count) :
    cfg.Full s resource ↔ current.length = cfg.perFile count ∨
      (0 < cfg.maxSizePerFile ∧ cfg.maxSizePerFile < totalSize cfg (current ++ [resource])) := by
  have hLe : current.length ≤ count := h.suffix.length_le.trans hRoom.le
  rw [Config.Full, h.savedItems, eq_maxItems_iff hLe]
  refine or_congr_right (and_congr_right fun hPos => ?_)
  rw [h.savedSize hPos, totalSize_append, Config.itemSize, if_pos hPos]

/-- The OUTPUT mode writes to the present file. -/
theorem Split.write (h : Split cfg answers disk count done full current s)
    (hRoom : done.length < count) (hFull : ¬ cfg.Full s resource) :
    cfg.saveOutput answers s resource = some (cfg.write s (cfg.target s.fileId) resource) ∧
      Split cfg answers disk count (done ++ [resource]) full (current ++ [resource])
        (cfg.write s (cfg.target s.fileId) resource) := by
  have hNe : current.length ≠ cfg.perFile count :=
    fun hEq => hFull ((h.full_iff hRoom).mpr (.inl hEq))
  refine ⟨saveOutput_write h.stream hFull, h.toWriting.write resource, h.fileId, ?_, ?_,
    ?_, ?_, ?_, ?_⟩
  · show s.items + 1 = _
    rw [h.items, List.length_append]
    rfl
  · show s.savedItems + 1 = _
    rw [h.savedItems, List.length_append]
    rfl
  · intro hPos
    show s.savedSize + cfg.itemSize resource = _
    rw [h.savedSize hPos, totalSize_append, Config.itemSize, if_pos hPos]
  · rw [List.length_append, List.length_singleton]
    exact Nat.lt_of_le_of_ne h.within hNe
  · exact fun _ => by simp
  · rw [List.length_append, List.length_append, List.length_singleton, ← Nat.add_assoc]
    exact Nat.succ_le_succ h.ahead

/-- The OUTPUT mode writes to the next one. -/
theorem Split.rotate (h : Split cfg answers disk count done full current s)
    (hFull : cfg.Full s resource) (hOpens : cfg.Opens (answers (s.fileId + 1))) :
    cfg.saveOutput answers s resource =
        some (cfg.write (cfg.rotate answers s)
          (cfg.target (cfg.rotate answers s).fileId) resource) ∧
      Split cfg answers disk count (done ++ [resource]) (full + 1) [resource]
        (cfg.write (cfg.rotate answers s) (cfg.target (cfg.rotate answers s).fileId) resource) := by
  have hLimit : cfg.maxItemsPerFile > 0 ∨ cfg.maxSizePerFile > 0 := hFull.imp And.left And.left
  have hRotated := h.toWriting.rotate hLimit hOpens
  have hNull : s.stream ≠ .null := by simp [h.stream]
  refine ⟨saveOutput_rotate hNull hFull hRotated.stream, hRotated.write resource, ?_,
    ?_, ?_, ?_, ?_,
    ?_, ?_⟩
  · show (cfg.reopenFile _ _).fileId = _
    rw [reopenFile_fileId, h.fileId]
  · show (cfg.reopenFile _ _).items + 1 = _
    rw [reopenFile_items, h.items, List.length_append]
    rfl
  · exact Int.zero_add 1
  · intro hPos
    show 0 + cfg.itemSize resource = _
    rw [Config.itemSize, if_pos hPos]
    simp [totalSize]
  · exact perFile_pos
  · exact fun _ => Nat.one_pos
  · have hAhead := h.ahead
    have hWithin := h.within
    rw [List.length_append, List.length_singleton, Nat.succ_mul]
    omega

/-- A file that is left with fewer items is never made up for. -/
theorem Split.inStep (h : Split cfg answers disk count done full current s) :
    InStep cfg count (done ++ [resource]) (full + 1) [resource] ↔
      InStep cfg count done full current ∧ current.length = cfg.perFile count := by
  have hAhead := h.ahead
  have hWithin := h.within
  rw [InStep, InStep, List.length_append, List.length_singleton, Nat.succ_mul]
  omega

/-- While the modes are in step the size decides only where a file is not full yet. -/
theorem Split.full_iff_of_inStep (h : Split cfg answers disk count done full current s)
    (hStep : InStep cfg count done full current) (hRoom : done.length < count) :
    cfg.Full s resource ↔ current.length = cfg.perFile count ∨
      Exceeds cfg (cfg.perFile count) (done ++ resource :: rest) done.length := by
  rw [h.full_iff hRoom]
  by_cases hLast : current.length = cfg.perFile count
  · exact iff_of_true (.inl hLast) (.inl hLast)
  · refine or_congr_right (and_congr_right fun _ => ?_)
    have hLt := Nat.lt_of_le_of_ne h.within hLast
    have hFirst : done.length = 0 ∨ ¬ cfg.perFile count ∣ done.length := by
      rw [hStep, ← not_ne_iff, ← not_and_or, ← eq_perFile_iff perFile_pos h.within h.used]
      exact hLast
    have hDiv : done.length / cfg.perFile count = full := by
      rw [hStep, Nat.mul_comm, Nat.mul_add_div perFile_pos, Nat.div_eq_of_lt hLt, Nat.add_zero]
    have hCurrent : (done ++ [resource]).drop (full * cfg.perFile count) =
      current ++ [resource] := by
      have hDrop := List.suffix_iff_eq_drop.mp h.suffix
      rw [hStep, Nat.add_sub_cancel] at hDrop
      rw [List.drop_append_of_le_length (by rw [hStep]; exact Nat.le_add_right _ _), ← hDrop]
    rw [List.take_length_add_append, List.take_succ_cons, List.take_zero, hDiv, hCurrent]
    exact (and_iff_right hFirst).symm

/-- A step that ends in step was in step before, and the resource did not exceed the size. -/
theorem Split.step (h : Split cfg answers disk count done full current s)
    (hRoom : done.length < count) (hSave : cfg.saveOutput answers s resource = some s') :
    ∃ full' current', Split cfg answers disk count (done ++ [resource]) full' current' s' ∧
      (InStep cfg count (done ++ [resource]) full' current' → InStep cfg count done full current ∧
        ¬ Exceeds cfg (cfg.perFile count) (done ++ resource :: rest) done.length) := by
  have hNull : s.stream ≠ .null := by simp [h.stream]
  by_cases hFull : cfg.Full s resource
  · by_cases hOpens : cfg.Opens (answers (s.fileId + 1))
    · obtain ⟨hRotated, hNext⟩ := h.rotate hFull hOpens
      cases hSave.symm.trans hRotated
      refine ⟨_, _, hNext, fun hStep => ?_⟩
      obtain ⟨hBefore, hLast⟩ := h.inStep.mp hStep
      have hMultiple := (eq_perFile_iff perFile_pos h.within h.used).mp hLast
      rw [← show done.length = _ from hBefore] at hMultiple
      refine ⟨hBefore, fun hExceeds => ?_⟩
      rcases hExceeds.2.1 with hNone | hNot
      · exact hMultiple.1 hNone
      · exact hNot hMultiple.2
    · rw [saveOutput_lost hNull hFull hOpens] at hSave
      exact absurd hSave (by simp)
  · obtain ⟨hWritten, hNext⟩ := h.write hRoom hFull
    cases hSave.symm.trans hWritten
    refine ⟨_, _, hNext, fun hStep => ?_⟩
    have hBefore : InStep cfg count done full current := by
      rw [InStep, List.length_append, List.length_append, ← Nat.add_assoc] at hStep
      exact Nat.succ_injective hStep
    exact ⟨hBefore, fun hExceeds =>
      hFull ((h.full_iff_of_inStep hBefore hRoom).mpr (.inr hExceeds))⟩

/-- A run of the OUTPUT mode. Once out of step, the modes stay out of step. -/
theorem Split.run (h : Split cfg answers disk count done full current s)
    (hCount : (done ++ rest).length = count)
    (hRun : run (cfg.saveOutput answers) s rest = some s') :
    ∃ full' current', Split cfg answers disk count (done ++ rest) full' current' s' ∧
      (InStep cfg count (done ++ rest) full' current' → InStep cfg count done full current ∧
        ∀ i, done.length ≤ i → i < count → ¬ Exceeds cfg (cfg.perFile count) (done ++ rest) i) := by
  induction rest generalizing done full current s with
  | nil =>
    rw [run_nil, Option.some.injEq] at hRun
    rw [List.append_nil] at hCount ⊢
    subst hRun
    exact ⟨full, current, h, fun hStep => ⟨hStep, fun i hGe hLt => by omega⟩⟩
  | cons resource rest ih =>
    obtain ⟨s₁, hFirst, hRest⟩ := run_cons_eq_some.mp hRun
    obtain ⟨full₁, current₁, hNext, hBefore⟩ := h.step (length_lt_of_cons hCount) hFirst
    rw [List.append_cons] at hCount
    obtain ⟨full', current', hEnd, hBack⟩ := ih hNext hCount hRest
    rw [← List.append_cons] at hEnd hBack
    refine ⟨full', current', hEnd, fun hStep => ?_⟩
    obtain ⟨hStep₁, hFits⟩ := hBack hStep
    obtain ⟨hStep₀, hHead⟩ := hBefore hStep₁
    refine ⟨hStep₀, fun i hGe hLt => ?_⟩
    rcases Nat.lt_or_eq_of_le hGe with hGt | rfl
    · exact hFits i (by rw [List.length_append]; exact hGt) hLt
    · exact hHead

end Output

-- ---------------------------------------------------------------------------
-- The MULTI module
-- ---------------------------------------------------------------------------

section Multi

variable {cfg : Config M} {answers : Nat → Answers} {disk : List UInt8 → Option (List UInt8)}
  {count : Nat} {done rest : List (Resource M)} {t t' : State} {resource : Resource M}

/-- The file is the one that the number of resources tells, if it could be opened. -/
structure Counted (cfg : Config M) (answers : Nat → Answers)
    (disk : List UInt8 → Option (List UInt8))
    (count : Nat) (done : List (Resource M)) (t : State) : Prop where
  fileId : t.fileId = done.length / cfg.perFile count + 1
  items : t.items = done.length
  unsaved : t.unsaved = t
  file : Writing cfg answers disk done
      (done.drop (done.length / cfg.perFile count * cfg.perFile count)) t ∨
    (t.stream = .deleted ∧ 1 < t.fileId ∧ ¬ cfg.Opens (answers t.fileId))

/-- Nothing has been written. -/
theorem counted_init (h : cfg.Opens (answers 1)) :
    Counted cfg answers disk count [] (cfg.init (answers 1) disk) := by
  have hId : (cfg.init (answers 1) disk).fileId = 1 := reopenFile_fileId
  refine ⟨?_, reopenFile_items, init_unsaved, .inl ?_⟩
  · rw [hId, List.length_nil, Nat.zero_div]
  · rw [List.drop_nil]
    exact writing_init h

/-- The MULTI mode has as many files as full ones, and one more. -/
theorem Counted.step (h : Counted cfg answers disk count done t) (hRoom : done.length < count)
    (hStep : multiOne cfg answers t resource = some t') :
    Counted cfg answers disk count (done ++ [resource]) t' := by
  rcases h.file with hWriting | ⟨hDeleted, -⟩
  · have hWritten := hWriting.write resource
    have hFile : multiOne cfg answers t.unsaved resource = some _ := multiOne_file hWriting.stream
    rw [h.unsaved, hStep, Option.some.injEq] at hFile
    have hLength : (done ++ [resource]).length = done.length + 1 := List.length_append
    have hItems : (cfg.write t (cfg.target t.fileId) resource).items =
      (done ++ [resource]).length := by
      rw [hLength, Nat.cast_succ, ← h.items]
      rfl
    have hId : (cfg.write t (cfg.target t.fileId) resource).fileId =
        done.length / cfg.perFile count + 1 := h.fileId
    have hDvd : (cfg.maxItemsPerFile > 0 ∧ (t.items + 1) % cfg.maxItemsPerFile = 0) ↔
        cfg.perFile count ∣ done.length + 1 := by
      rw [h.items]
      exact maxItems_dvd_iff hRoom
    generalize cfg.write t (cfg.target t.fileId) resource = written at hWritten hFile hItems hId
    by_cases hLast : cfg.maxItemsPerFile > 0 ∧ (t.items + 1) % cfg.maxItemsPerFile = 0
    · rw [if_pos hLast] at hFile
      have hNext : (done ++ [resource]).length / cfg.perFile count =
          done.length / cfg.perFile count + 1 := by
        rw [hLength, Nat.succ_div_of_dvd (hDvd.mp hLast)]
      have hEmpty : (done ++ [resource]).drop
          ((done ++ [resource]).length / cfg.perFile count * cfg.perFile count) = [] := by
        rw [Nat.div_mul_cancel (by rw [hLength]; exact hDvd.mp hLast), List.drop_length]
      have hRotated : t'.fileId = written.fileId + 1 := by
        rw [hFile]
        exact reopenFile_fileId
      refine ⟨by rw [hRotated, hId, hNext], ?_, by rw [hFile]; rfl, ?_⟩
      · rw [hFile, ← hItems]
        exact reopenFile_items
      · rw [hEmpty, hRotated, hFile]
        by_cases hOpens : cfg.Opens (answers (written.fileId + 1))
        · exact .inl (hWritten.rotate (.inl hLast.1) hOpens)
        · have hLater : 1 < written.fileId + 1 := by
            rw [hId]
            exact Nat.succ_lt_succ (Nat.succ_pos _)
          exact .inr ⟨rotate_of_not_opens (by simp [hWritten.stream]) hOpens, hLater, hOpens⟩
    · rw [if_neg hLast] at hFile
      have hSame : (done ++ [resource]).length / cfg.perFile count =
        done.length / cfg.perFile count := by
        rw [hLength, Nat.succ_div_of_not_dvd fun h => hLast (hDvd.mpr h)]
      rw [hFile]
      refine ⟨hId.trans (by rw [hSame]), hItems, rfl, .inl ?_⟩
      rw [hSame, List.drop_append_of_le_length (Nat.div_mul_le_self _ _)]
      exact hWritten.unsaved
  · rw [multiOne_deleted hDeleted] at hStep
    exact absurd hStep (by simp)

/-- A run of the MULTI mode. -/
theorem Counted.run (h : Counted cfg answers disk count done t)
    (hCount : (done ++ rest).length = count) (hRun : run (multiOne cfg answers) t rest = some t') :
    Counted cfg answers disk count (done ++ rest) t' := by
  induction rest generalizing done t with
  | nil =>
    rw [run_nil, Option.some.injEq] at hRun
    rw [List.append_nil, ← hRun]
    exact h
  | cons resource rest ih =>
    have hRoom := length_lt_of_cons hCount
    obtain ⟨t₁, hFirst, hRest⟩ := run_cons_eq_some.mp hRun
    have hEnd := ih (h.step hRoom hFirst) (by rw [List.append_assoc]; exact hCount) hRest
    rwa [List.append_assoc] at hEnd

end Multi

-- ---------------------------------------------------------------------------
-- Both modules
-- ---------------------------------------------------------------------------

section Both

variable {cfg : Config M} {answers : Nat → Answers} {disk : List UInt8 → Option (List UInt8)}
  {count full : Nat} {done current rest : List (Resource M)} {s s' t t' : State}
  {resource : Resource M}

/-- The state of the MULTI module, which has opened the next file when the present one is full. -/
def asMulti (cfg : Config M) (answers : Nat → Answers) (count : Nat) (current : List (Resource M))
    (s : State) : State :=
  if current.length = cfg.perFile count then cfg.rotate answers s else s.unsaved

/-- The MULTI module writes a record to the file of the state `s`. -/
theorem multiOne_asMulti (hItems : s.items = done.length) (hRoom : done.length < count)
    (hStream : s.stream = .file (cfg.target s.fileId))
    (hNext : Split cfg answers disk count (done ++ [resource]) full current
      (cfg.write s (cfg.target s.fileId) resource))
    (hStep : InStep cfg count (done ++ [resource]) full current) :
    multiOne cfg answers s.unsaved resource =
      some (asMulti cfg answers count current (cfg.write s (cfg.target s.fileId) resource)) := by
  have hLast : (cfg.maxItemsPerFile > 0 ∧ (s.items + 1) % cfg.maxItemsPerFile = 0) ↔
      current.length = cfg.perFile count := by
    rw [hItems, maxItems_dvd_iff hRoom, eq_perFile_iff perFile_pos hNext.within hNext.used,
      ← show (done ++ [resource]).length = _ from hStep, List.length_append, List.length_singleton]
    exact (and_iff_right (Nat.succ_ne_zero _)).symm
  rw [multiOne_file hStream, asMulti]
  simp only [hLast]

/-- One resource in both modes, as long as it does not exceed the size of its file. -/
theorem Split.step_both (h : Split cfg answers disk count done full current s)
    (hStep : InStep cfg count done full current) (hRoom : done.length < count)
    (hFits : ¬ Exceeds cfg (cfg.perFile count) (done ++ resource :: rest) done.length)
    (hOpens : current.length = cfg.perFile count → cfg.Opens (answers (s.fileId + 1))) :
    ∃ s' full' current', cfg.saveOutput answers s resource = some s' ∧
      multiOne cfg answers (asMulti cfg answers count current s) resource =
        some (asMulti cfg answers count current' s') ∧
      Split cfg answers disk count (done ++ [resource]) full' current' s' ∧
      InStep cfg count (done ++ [resource]) full' current' := by
  have hFull : cfg.Full s resource ↔ current.length = cfg.perFile count ∨
      Exceeds cfg (cfg.perFile count) (done ++ resource :: rest) done.length :=
    h.full_iff_of_inStep hStep hRoom
  rw [or_iff_left hFits] at hFull
  by_cases hLast : current.length = cfg.perFile count
  · obtain ⟨hSave, hNext⟩ := h.rotate (hFull.mpr hLast) (hOpens hLast)
    have hNextStep : InStep cfg count (done ++ [resource]) (full + 1) [resource] :=
      h.inStep.mpr ⟨hStep, hLast⟩
    refine ⟨_, _, _, hSave, ?_, hNext, hNextStep⟩
    have hItems : (cfg.rotate answers s).items = done.length := reopenFile_items.trans h.items
    rw [asMulti, if_pos hLast]
    exact multiOne_asMulti hItems hRoom hNext.stream hNext hNextStep
  · obtain ⟨hSave, hNext⟩ := h.write hRoom fun h => hLast (hFull.mp h)
    have hNextStep : InStep cfg count (done ++ [resource]) full (current ++ [resource]) := by
      rw [InStep, List.length_append, List.length_append, ← Nat.add_assoc]
      exact congrArg Nat.succ hStep
    refine ⟨_, _, _, hSave, ?_, hNext, hNextStep⟩
    rw [asMulti, if_neg hLast]
    exact multiOne_asMulti h.items hRoom h.stream hNext hNextStep

/-- All resources in both modes. -/
theorem Split.run_both (h : Split cfg answers disk count done full current s)
    (hStep : InStep cfg count done full current) (hCount : (done ++ rest).length = count)
    (hFits : ∀ i, done.length ≤ i → i < count → ¬ Exceeds cfg (cfg.perFile count) (done ++ rest) i)
    (hOpens : ∀ k, 1 < k → k ≤ count / cfg.perFile count + 1 → cfg.Opens (answers k)) :
    ∃ s' full' current', Lib.run (cfg.saveOutput answers) s rest = some s' ∧
      Lib.run (multiOne cfg answers) (asMulti cfg answers count current s) rest =
        some (asMulti cfg answers count current' s') ∧
      Split cfg answers disk count (done ++ rest) full' current' s' ∧
      InStep cfg count (done ++ rest) full' current' := by
  induction rest generalizing done full current s with
  | nil =>
    rw [List.append_nil]
    exact ⟨s, full, current, rfl, rfl, h, hStep⟩
  | cons resource rest ih =>
    have hAppend : done ++ [resource] ++ rest = done ++ resource :: rest :=
      (List.append_cons ..).symm
    have hRoom := length_lt_of_cons hCount
    have hNextOpens : current.length = cfg.perFile count → cfg.Opens (answers (s.fileId + 1)) := by
      intro hLast
      refine hOpens _ (by rw [h.fileId]; omega) ?_
      rw [InStep, hLast, ← Nat.succ_mul] at hStep
      rw [h.fileId]
      exact Nat.succ_le_succ ((Nat.le_div_iff_mul_le perFile_pos).mpr (hStep ▸ hRoom.le))
    obtain ⟨s₁, full₁, current₁, hSave, hMulti, hNext, hNextStep⟩ :=
      h.step_both hStep hRoom (hFits _ (Nat.le_refl _) hRoom) hNextOpens
    have hNextFits : ∀ i, (done ++ [resource]).length ≤ i → i < count →
        ¬ Exceeds cfg (cfg.perFile count) (done ++ [resource] ++ rest) i := by
      intro i hGe hLt
      rw [List.length_append] at hGe
      rw [hAppend]
      exact hFits i (Nat.le_of_succ_le hGe) hLt
    obtain ⟨s', full', current', hRun, hRunMulti, hEnd, hEndStep⟩ :=
      ih hNext hNextStep (by rw [hAppend, hCount]) hNextFits
    rw [hAppend] at hEnd hEndStep
    exact ⟨s', full', current', run_cons_eq_some.mpr ⟨s₁, hSave, hRun⟩,
      run_cons_eq_some.mpr ⟨_, hMulti, hRunMulti⟩, hEnd, hEndStep⟩

/-- Without the first file neither module writes anything. -/
theorem sameFiles_of_null (h : ¬ cfg.Opens (answers 1)) (resources : List (Resource M)) :
    SameFiles (Lib.run (cfg.saveOutput answers) (cfg.init (answers 1) disk) resources)
      (Lib.run (multiOne cfg answers) (cfg.init (answers 1) disk) resources) := by
  have hNull : (cfg.init (answers 1) disk).stream = .null := reopenFile_of_not_opens h
  generalize cfg.init (answers 1) disk = s at hNull
  have hStay : ∀ {step : State → Resource M → Option State}, (∀ r, step s r = some s) →
      ∀ rs, Lib.run step s rs = some s := by
    intro step hStep rs
    induction rs with
    | nil => rfl
    | cons r rs ih => exact run_cons_eq_some.mpr ⟨s, hStep r, ih⟩
  exact ⟨s, s, hStay (fun _ => saveOutput_null hNull) resources,
    hStay (fun _ => multiOne_null hNull) resources, rfl, rfl⟩

/-- Both begin with the first file. -/
theorem split_init (h : cfg.Opens (answers 1)) :
    Split cfg answers disk count [] 0 [] (cfg.init (answers 1) disk) := by
  have hUnsaved : (cfg.init (answers 1) disk).unsaved = cfg.init (answers 1) disk := init_unsaved
  refine ⟨writing_init h, reopenFile_fileId, reopenFile_items, ?_, fun _ => ?_, Nat.zero_le _,
    fun h => h, Nat.zero_le _⟩
  · exact (congrArg State.savedItems hUnsaved).symm
  · exact (congrArg State.savedSize hUnsaved).symm

/-- If the limits split alike, so do the modes. -/
theorem sameFiles_of_splitAlike {resources : List (Resource M)} (hFirst : cfg.Opens (answers 1))
    (h : SplitAlike cfg answers resources) :
    SameFiles (Lib.run (cfg.saveOutput answers) (cfg.init (answers 1) disk) resources)
      (Lib.run (multiOne cfg answers) (cfg.init (answers 1) disk) resources) := by
  have hInit : Split cfg answers disk resources.length [] 0 [] _ := split_init hFirst
  have hCount : ([] ++ resources).length = resources.length := rfl
  have hStart : asMulti cfg answers resources.length [] (cfg.init (answers 1) disk) =
      cfg.init (answers 1) disk := by
    rw [asMulti, List.length_nil, if_neg perFile_pos.ne]
    exact init_unsaved
  obtain ⟨s', full', current', hRun, hRunMulti, hEnd, hStep⟩ :=
    hInit.run_both (Nat.zero_mul _).symm hCount (fun i _ hLt => h.fits i hLt) h.opens
  rw [hStart] at hRunMulti
  have hNotFull : current'.length ≠ cfg.perFile resources.length := by
    rw [InStep, List.nil_append] at hStep
    rw [Ne, eq_perFile_iff perFile_pos hEnd.within hEnd.used, ← hStep, not_and_or, not_ne_iff,
      List.length_eq_zero_iff]
    exact h.last
  rw [asMulti, if_neg hNotFull] at hRunMulti
  exact ⟨s', s'.unsaved, hRun, hRunMulti, rfl, rfl⟩

/-- If the files are the same, the runs have been in step all along. -/
theorem splitAlike_of_sameFiles {resources : List (Resource M)} (hFirst : cfg.Opens (answers 1))
    (h : SameFiles (Lib.run (cfg.saveOutput answers) (cfg.init (answers 1) disk) resources)
      (Lib.run (multiOne cfg answers) (cfg.init (answers 1) disk) resources)) :
    SplitAlike cfg answers resources := by
  obtain ⟨s, t, hRun, hRunMulti, hId, hDisk⟩ := h
  have hInit : Split cfg answers disk resources.length [] 0 [] _ := split_init hFirst
  have hCount : ([] ++ resources).length = resources.length := rfl
  obtain ⟨full, current, hSplit, hBack⟩ := hInit.run hCount hRun
  have hCounted : Counted cfg answers disk resources.length resources t :=
    (counted_init hFirst).run hCount hRunMulti
  have hDiv : resources.length / cfg.perFile resources.length = full :=
    Nat.succ_injective (hCounted.fileId.symm.trans (hId.symm.trans hSplit.fileId))
  have hLength : current.length = resources.length - full * cfg.perFile resources.length := by
    rcases hCounted.file with hWriting | ⟨-, hLater, hNot⟩
    · have hSame := hSplit.content
      rw [hId, hDisk, hWriting.content, Option.some.injEq, List.append_cancel_left_eq] at hSame
      rw [length_eq_of_records hSplit.suffix hWriting.suffix hSame.symm, List.length_drop, hDiv]
    · exact absurd (hSplit.opens _ hLater hId.ge) hNot
  have hLe : full * cfg.perFile resources.length ≤ resources.length := by
    rw [← hDiv]
    exact Nat.div_mul_le_self _ _
  have hStep : resources.length = full * cfg.perFile resources.length + current.length := by omega
  refine ⟨?_, ?_, ?_⟩
  · rw [or_iff_not_imp_left]
    intro hSome hDvd
    have hLast : current.length = cfg.perFile resources.length := by
      rw [eq_perFile_iff perFile_pos hSplit.within hSplit.used, ← hStep]
      exact ⟨fun hNone => hSome (List.length_eq_zero_iff.mp hNone), hDvd⟩
    rw [hLast, ← Nat.succ_mul] at hStep
    have hPos : 0 < cfg.perFile resources.length := perFile_pos
    have hTooFew := Nat.lt_mul_div_succ resources.length hPos
    rw [hDiv, Nat.mul_comm] at hTooFew
    exact absurd hStep hTooFew.ne
  · exact fun i hLt => (hBack hStep).2 i (Nat.zero_le _) hLt
  · intro k hk hLe
    rw [hDiv, ← hSplit.fileId] at hLe
    exact hSplit.opens k hk hLe

end Both

/--
**When the two modes write the same files.** Take any properties of the module, any files on the
disk before, any answers of the operating system, and any calls of the MULTI module without a
filter. Both runs come back with as many files, of the same contents, if and only if the first file
cannot be opened, or the two modes split the resources alike.
-/
theorem multi_same_files_iff (cfg : Config M) (answers : Nat → Answers)
    (disk : List UInt8 → Option (List UInt8)) (calls : List (List (Resource M))) :
    SameFiles (run (cfg.saveOutput answers) (cfg.init (answers 1) disk) calls.flatten)
        (run (cfg.saveMulti answers) (cfg.init (answers 1) disk) calls) ↔
      ¬ cfg.Opens (answers 1) ∨ SplitAlike cfg answers calls.flatten := by
  rw [run_saveMulti]
  constructor
  · intro h
    by_cases hFirst : cfg.Opens (answers 1)
    · exact .inr (splitAlike_of_sameFiles hFirst h)
    · exact .inl hFirst
  · rintro (hNot | hAlike)
    · exact sameFiles_of_null hNot _
    · by_cases hFirst : cfg.Opens (answers 1)
      · exact sameFiles_of_splitAlike hFirst hAlike
      · exact sameFiles_of_null hFirst _

/-- Two strings fill the first file, and the MULTI module opens a second one for nothing. -/
theorem multi_opens_another :
    ¬ SameFiles
      (run ((twoPerFile false).saveOutput fun _ => .ok) ((twoPerFile false).init .ok fun _ => none)
        [threeStrings.drop 1].flatten)
      (run ((twoPerFile false).saveMulti fun _ => .ok) ((twoPerFile false).init .ok fun _ => none)
        [threeStrings.drop 1]) := by
  rintro ⟨s, t, hOutput, hMulti, hId, -⟩
  have hOne : (run ((twoPerFile false).saveOutput fun _ => .ok)
      ((twoPerFile false).init .ok fun _ => none) [threeStrings.drop 1].flatten).map State.fileId =
        some 1 := by
    decide
  have hTwo : (run ((twoPerFile false).saveMulti fun _ => .ok)
      ((twoPerFile false).init .ok fun _ => none) [threeStrings.drop 1]).map State.fileId =
      some 2 := by
    decide
  rw [hOutput, Option.map_some, Option.some.injEq] at hOne
  rw [hMulti, Option.map_some, Option.some.injEq] at hTwo
  omega

end HectorCore.Save
