import Mathlib.Data.Finset.Card
import Mathlib.Tactic.Push

/-!
# Census — a counter of the members with a property

`Census p n` says that the members with property `p` are finitely many and that the counter `n`
is their number. A counter that every member adjusts when it moves stays a census.

* `Census.change`        — one member moves, and the counter with it;
* `Census.none_of_zero`  — nobody has the property when the counter is zero.
-/

namespace HectorCore.Lib

variable {α : Type}

/-- `n` is the number of members with property `p`. -/
def Census (p : α → Prop) (n : Int) : Prop :=
  ∃ W : Finset α, (∀ a, a ∈ W ↔ p a) ∧ n = W.card

variable {p p' : α → Prop} {n n' : Int}

/-- Nobody has the property. -/
theorem Census.of_none (h : ∀ a, ¬ p a) : Census p 0 := by
  refine ⟨∅, fun a => ?_, rfl⟩
  simp [h a]

theorem Census.nonneg (h : Census p n) : 0 ≤ n := by
  obtain ⟨W, -, rfl⟩ := h
  exact Int.natCast_nonneg _

theorem Census.congr (h : Census p n) (hSame : ∀ a, p' a ↔ p a) : Census p' n := by
  obtain ⟨W, hW, hCard⟩ := h
  exact ⟨W, fun a => (hW a).trans (hSame a).symm, hCard⟩

/-- Who has it is counted. -/
theorem Census.pos (h : Census p n) {a : α} (ha : p a) : 0 < n := by
  obtain ⟨W, hW, rfl⟩ := h
  have hPos : 0 < W.card := Finset.card_pos.mpr ⟨a, (hW a).mpr ha⟩
  omega

/-- If the count is zero, nobody has it. -/
theorem Census.none_of_zero (h : Census p n) (hZero : n ≤ 0) (a : α) : ¬ p a := by
  intro ha
  have hPos := h.pos ha
  omega

section Change

variable [DecidableEq α] {a : α}

/-- A member without the property gets it. -/
theorem Census.enter (h : Census p n) (hOut : ¬ p a) (hIn : p' a)
    (hOthers : ∀ b, b ≠ a → (p' b ↔ p b)) : Census p' (n + 1) := by
  obtain ⟨W, hW, rfl⟩ := h
  refine ⟨insert a W, fun b => ?_, ?_⟩
  · rw [Finset.mem_insert, hW b]
    by_cases hb : b = a
    · subst hb
      exact iff_of_true (Or.inl rfl) hIn
    · rw [hOthers b hb]
      exact or_iff_right hb
  · rw [Finset.card_insert_of_notMem fun hMem => hOut ((hW a).mp hMem)]
    push_cast
    rfl

/-- A member with the property loses it. -/
theorem Census.leave (h : Census p n) (hIn : p a) (hOut : ¬ p' a)
    (hOthers : ∀ b, b ≠ a → (p' b ↔ p b)) : Census p' (n - 1) := by
  have hPos := h.pos hIn
  obtain ⟨W, hW, rfl⟩ := h
  refine ⟨W.erase a, fun b => ?_, ?_⟩
  · rw [Finset.mem_erase, hW b]
    by_cases hb : b = a
    · subst hb
      exact iff_of_false (fun hBoth => hBoth.1 rfl) hOut
    · rw [hOthers b hb]
      exact and_iff_right hb
  · rw [Finset.card_erase_of_mem ((hW a).mpr hIn)]
    omega

/-- **One member moves.** The counter changes by what the member counts for. -/
theorem Census.change [DecidablePred p] [DecidablePred p'] (h : Census p n)
    (hOthers : ∀ b, b ≠ a → (p' b ↔ p b))
    (hCount : n' = n - (if p a then 1 else 0) + (if p' a then 1 else 0)) : Census p' n' := by
  by_cases hOld : p a
  · by_cases hNew : p' a
    · have hSame : n' = n := by rw [hCount, if_pos hOld, if_pos hNew]; omega
      rw [hSame]
      refine h.congr fun b => ?_
      by_cases hb : b = a
      · subst hb
        exact iff_of_true hNew hOld
      · exact hOthers b hb
    · have hLess : n' = n - 1 := by rw [hCount, if_pos hOld, if_neg hNew]; omega
      rw [hLess]
      exact h.leave hOld hNew hOthers
  · by_cases hNew : p' a
    · have hMore : n' = n + 1 := by rw [hCount, if_neg hOld, if_pos hNew]; omega
      rw [hMore]
      exact h.enter hOld hNew hOthers
    · have hSame : n' = n := by rw [hCount, if_neg hOld, if_neg hNew]; omega
      rw [hSame]
      refine h.congr fun b => ?_
      by_cases hb : b = a
      · subst hb
        exact iff_of_false hNew hOld
      · exact hOthers b hb

end Change

end HectorCore.Lib
