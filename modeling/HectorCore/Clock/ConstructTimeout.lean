import HectorCore.Lib.CText

/-!
# ConstructTimeout — the time at which a wait ends

`ConstructTimeout` of `lib/common.cc` adds a time tick to the clock, and `WaitSend` and `WaitRecv`
of `lib/CondLock.h` hand the sum to `pthread_cond_timedwait`. `Process` and `Pass` of
`CallProcessingEngine` make all their time-outs so.

* `int` has 32 bits, `time_t`, `suseconds_t` and `long` have 64.
* `pthread_cond_timedwait` returns `EINVAL` at once if `tv_nsec` is not a part of a second.

Main result: `timely_iff`. The carry is made above 1000000 microseconds, and not at 1000000.
-/

namespace HectorCore.Clock

-- ---------------------------------------------------------------------------
-- The source
-- ---------------------------------------------------------------------------

structure Timeval where
  tv_sec : Int64
  tv_usec : Int64
  deriving DecidableEq

structure Timespec where
  tv_sec : Int64
  tv_nsec : Int64
  deriving DecidableEq

/-- `ConstructTimeout`, when `gettimeofday` returns `now`. -/
def constructTimeout (now : Timeval) (usec : Int32) : Timeval :=
  let tv : Timeval :=
    ⟨now.tv_sec + (usec / 1000000).toInt64, now.tv_usec + (usec % 1000000).toInt64⟩
  if 1000000 < tv.tv_usec then ⟨tv.tv_sec + 1, tv.tv_usec - 1000000⟩ else tv

/-- `condSend`, `condRecv` -/
inductive Cond where
  | send
  | recv
  deriving DecidableEq

/-- `pthread_cond_wait`, `pthread_cond_timedwait` -/
inductive Wait where
  | wait (cond : Cond)
  | timedwait (cond : Cond) (ts : Timespec)
  deriving DecidableEq

/-- What both of them call; they return whether it returns 0. -/
def wait (cond : Cond) (timeout : Option Timeval) : Wait :=
  match timeout with
  | none => .wait cond
  | some tv => if tv.tv_sec = 0 then .wait cond else .timedwait cond ⟨tv.tv_sec, tv.tv_usec * 1000⟩

/-- `WaitSend` -/
def waitSend (timeout : Option Timeval) : Wait := wait .send timeout

/-- `WaitRecv` -/
def waitRecv (timeout : Option Timeval) : Wait := wait .recv timeout

-- ---------------------------------------------------------------------------
-- Time
-- ---------------------------------------------------------------------------

/-- The time in microseconds. -/
def Timeval.micros (tv : Timeval) : Int := tv.tv_sec.toInt * 1000000 + tv.tv_usec.toInt

def Timeval.Normalized (tv : Timeval) : Prop := 0 ≤ tv.tv_usec.toInt ∧ tv.tv_usec.toInt < 1000000

/-- It is not rejected with `EINVAL`. -/
def Wait.Valid : Wait → Prop
  | .wait _ => True
  | .timedwait _ ts => 0 ≤ ts.tv_nsec.toInt ∧ ts.tv_nsec.toInt < 1000000000

/-- The time-out of a tick: normalized, not a microsecond off, and good for a wait. -/
structure Timely (now : Timeval) (usec : Int32) (tv : Timeval) : Prop where
  normalized : tv.Normalized
  later : tv.micros = now.micros + usec.toInt
  sends : (waitSend (some tv)).Valid
  receives : (waitRecv (some tv)).Valid

variable {now tv : Timeval} {usec : Int32}

/-- A normalized time is good for any wait. -/
theorem Timeval.Normalized.valid (h : tv.Normalized) (cond : Cond) :
    (wait cond (some tv)).Valid := by
  obtain ⟨hNonneg, hLess⟩ := h
  have hNsec : (tv.tv_usec * 1000).toInt = tv.tv_usec.toInt * 1000 := by
    rw [Int64.toInt_mul]
    exact Int.bmod_eq_of_le_mul_two (by simp; omega) (by simp; omega)
  unfold wait
  dsimp only
  split
  · trivial
  · show 0 ≤ (tv.tv_usec * 1000).toInt ∧ (tv.tv_usec * 1000).toInt < 1000000000
    rw [hNsec]
    omega

-- ---------------------------------------------------------------------------
-- The sum
-- ---------------------------------------------------------------------------

/-- The parts of a tick. -/
theorem toInt_tick (hUsec : 0 ≤ usec.toInt) :
    (usec / 1000000).toInt64.toInt = usec.toInt / 1000000 ∧
      (usec % 1000000).toInt64.toInt = usec.toInt % 1000000 := by
  have hSize : (1000000 : Int32).toInt = 1000000 := by decide
  constructor
  · rw [Int32.toInt_toInt64, Int32.toInt_div_of_ne_right _ _ (by decide), hSize,
      Int.tdiv_eq_ediv_of_nonneg hUsec]
  · rw [Int32.toInt_toInt64, Int32.toInt_mod, hSize, Int.tmod_eq_emod_of_nonneg hUsec]

/-- The microseconds before the carry. -/
def sum (now : Timeval) (usec : Int32) : Int := now.tv_usec.toInt + usec.toInt % 1000000

/-- What `ConstructTimeout` returns: a sum of 1000000 is not carried. -/
theorem constructTimeout_spec (hClock : now.Normalized) (hUsec : 0 ≤ usec.toInt) :
    (constructTimeout now usec).tv_usec.toInt =
        (if 1000000 < sum now usec then sum now usec - 1000000 else sum now usec) ∧
      (constructTimeout now usec).tv_sec.toInt =
        Int.bmod (now.tv_sec.toInt + usec.toInt / 1000000 + if 1000000 < sum now usec then 1 else 0)
          (2 ^ 64) := by
  obtain ⟨hNonneg, hLess⟩ := hClock
  obtain ⟨hSeconds, hMicros⟩ := toInt_tick hUsec
  have hSum : (now.tv_usec + (usec % 1000000).toInt64).toInt = sum now usec := by
    rw [Int64.toInt_add, hMicros]
    exact Int.bmod_eq_of_le_mul_two (by omega) (by omega)
  have hCarry : 1000000 < now.tv_usec + (usec % 1000000).toInt64 ↔ 1000000 < sum now usec := by
    rw [Int64.lt_iff_toInt_lt, hSum]
    exact Iff.rfl
  have hRange : sum now usec < 2000000 := by
    unfold sum
    omega
  unfold constructTimeout
  dsimp only
  by_cases hOver : 1000000 < sum now usec
  · rw [if_pos (hCarry.mpr hOver), if_pos hOver, if_pos hOver]
    dsimp only
    have hOne : (1 : Int64).toInt = 1 := by decide
    have hSize : (1000000 : Int64).toInt = 1000000 := by decide
    constructor
    · rw [Int64.toInt_sub, hSum, hSize]
      exact Int.bmod_eq_of_le_mul_two (by omega) (by omega)
    · rw [Int64.toInt_add, Int64.toInt_add, hSeconds, hOne, Int.bmod_add_bmod]
  · rw [if_neg (mt hCarry.mp hOver), if_neg hOver, if_neg hOver]
    dsimp only
    refine ⟨hSum, ?_⟩
    rw [Int64.toInt_add, hSeconds, Int.add_zero]

/-- **When a time-out is right.** A sum of exactly 1000000 microseconds is not carried into the
seconds; otherwise all is well as long as the seconds fit into a `time_t`. -/
theorem timely_iff (hClock : now.Normalized) (hUsec : 0 ≤ usec) :
    Timely now usec (constructTimeout now usec) ↔
      now.tv_usec.toInt + usec.toInt % 1000000 ≠ 1000000 ∧
        now.micros + usec.toInt < 2 ^ 63 * 1000000 := by
  have hTick : 0 ≤ usec.toInt := Int32.le_iff_toInt_le.mp hUsec
  obtain ⟨hMicros, hSeconds⟩ := constructTimeout_spec hClock hTick
  obtain ⟨hNonneg, hLess⟩ := hClock
  have hFirst := Int64.le_toInt now.tv_sec
  have hSum : sum now usec = now.tv_usec.toInt + usec.toInt % 1000000 := rfl
  obtain ⟨carry, hCarry⟩ : ∃ carry : Int, carry = if 1000000 < sum now usec then 1 else 0 :=
    ⟨_, rfl⟩
  have hRest : (constructTimeout now usec).tv_usec.toInt = sum now usec - carry * 1000000 := by
    rw [hMicros, hCarry]
    split <;> omega
  rw [← hCarry] at hSeconds
  -- the seconds fit into a `time_t`
  have hFits : (constructTimeout now usec).tv_sec.toInt =
      now.tv_sec.toInt + usec.toInt / 1000000 + carry ↔
      (now.tv_sec.toInt + usec.toInt / 1000000 + carry) * 2 < 2 ^ 64 := by
    rw [hSeconds]
    exact Lib.bmod_eq_self_iff (by decide) (by omega)
  have hNormalized : (constructTimeout now usec).Normalized ↔
      now.tv_usec.toInt + usec.toInt % 1000000 ≠ 1000000 := by
    unfold Timeval.Normalized
    rw [hMicros]
    split <;> omega
  unfold Timeval.micros
  constructor
  · intro hTimely
    have hRight := hTimely.later
    unfold Timeval.micros at hRight
    refine ⟨hNormalized.mp hTimely.normalized, ?_⟩
    have hPart := hTimely.normalized.2
    have hSmall := hFits.mp (by omega)
    omega
  · rintro ⟨hCarried, hSmall⟩
    have hValid := hNormalized.mpr hCarried
    refine ⟨hValid, ?_, hValid.valid _, hValid.valid _⟩
    have hPart := hValid.1
    have hExact := hFits.mpr (by omega)
    unfold Timeval.micros
    omega

/-- Half a second from the clock 1.6 s on, with a carry. -/
theorem timely_iff_carry :
    Timely ⟨1, 600000⟩ 500000 (constructTimeout ⟨1, 600000⟩ 500000) ↔
      (600000 : Int64).toInt + (500000 : Int32).toInt % 1000000 ≠ 1000000 ∧
        Timeval.micros ⟨1, 600000⟩ + (500000 : Int32).toInt < 2 ^ 63 * 1000000 :=
  timely_iff ⟨by decide, by decide⟩ (by decide)

/-- The tick of 100000 that modules begin with, when the clock says 1.9 s: the wait is rejected. -/
theorem not_carried :
    Timeval.Normalized ⟨1, 900000⟩ ∧ constructTimeout ⟨1, 900000⟩ 100000 = ⟨1, 1000000⟩ ∧
      waitSend (some ⟨1, 1000000⟩) = .timedwait .send ⟨1, 1000000000⟩ ∧
      ¬ Wait.Valid (.timedwait .send ⟨1, 1000000000⟩) ∧
      ¬ Timely ⟨1, 900000⟩ 100000 (constructTimeout ⟨1, 900000⟩ 100000) := by
  have hSum : constructTimeout ⟨1, 900000⟩ 100000 = ⟨1, 1000000⟩ := by decide
  refine ⟨⟨by decide, by decide⟩, hSum, by decide, ?_, ?_⟩
  · rintro ⟨-, hLess⟩
    exact absurd hLess (by decide)
  · rw [hSum]
    intro hTimely
    exact absurd hTimely.normalized.2 (by decide)

end HectorCore.Clock
