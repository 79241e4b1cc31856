import Mathlib.Logic.Function.Basic

/-!
# Locks and the threads that hold them

A lock is the thread that holds it, `none` while it is free; where a thread is says whether it
should hold the lock (`holds`). `Owns` ties the two together. One thread moves at a time, and
it takes the lock, gives it back, or leaves it as it is.
-/

namespace HectorCore.Lib

variable {Tid : Type} {f g : Tid → Bool} {lock : Option Tid} {t : Tid}

/-- The lock is held by exactly the thread that should hold it. -/
def Owns (holds : Tid → Bool) (lock : Option Tid) : Prop := ∀ t, holds t = true ↔ lock = some t

/-- A free lock is taken by a thread. -/
theorem Owns.acquire (h : Owns f none) (hOff : ∀ u, u ≠ t → g u = f u) (hSelf : g t = true) :
    Owns g (some t) := by
  intro u
  by_cases hu : u = t
  · subst hu
    exact ⟨fun _ => rfl, fun _ => hSelf⟩
  · rw [hOff u hu, h u]
    constructor
    · intro hNone
      cases hNone
    · intro hOther
      exact absurd (Option.some.inj hOther).symm hu

/-- The thread that holds it gives it back. -/
theorem Owns.release (h : Owns f lock) (hHeld : f t = true) (hOff : ∀ u, u ≠ t → g u = f u)
    (hSelf : g t = false) : Owns g none := by
  intro u
  by_cases hu : u = t
  · subst hu
    simp [hSelf]
  · rw [hOff u hu, h u, (h t).mp hHeld]
    constructor
    · intro hOther
      exact absurd (Option.some.inj hOther).symm hu
    · intro hNone
      cases hNone

/-- Who does neither leaves it where it is. -/
theorem Owns.keep (h : Owns f lock) (hSame : ∀ u, g u = f u) : Owns g lock := by
  intro u
  rw [hSame u]
  exact h u

/-- Two threads never hold the lock at once. -/
theorem Owns.unique (h : Owns f lock) {u : Tid} (ht : f t = true) (hu : f u = true) : t = u := by
  have hLock := (h t).mp ht
  rw [(h u).mp hu] at hLock
  exact (Option.some.inj hLock).symm

end HectorCore.Lib
