import HectorCore.Addr.Match

/-!
# ApplyPrefix — the network part of an address

`IpAddr::ApplyPrefix` of `lib/IpAddr.cc`, on a little-endian host. The first bits of an IPv4 address
are kept. The bytes of an IPv6 address are reversed before they are masked, so the bytes at the end
are kept, and it is only the whole address that comes out right whatever its bits are.

* `applyPrefix_ip4`, `applyPrefix_ip6` — the bits that are kept;
* `network_part_iff`                   — when that is the network part, as `Compare` sees it.
-/

namespace HectorCore.Addr

namespace IpAddr

variable {host : Host} {a b a' b' : IpAddr} {length : Nat}

variable (host) in
theorem ntohl_ntohl (x : BitVec 32) : ntohl host (ntohl host x) = x := by
  cases host with
  | big => rfl
  | little =>
    refine eq_of_top_bits fun i hi => ?_
    have hByte : i / 8 < 4 := by omega
    have hIn : 7 - i % 8 < 8 := by omega
    rw [ntohl_getLsbD _ hi]
    -- the bit comes from the opposite byte, and from the same place in it
    have hFrom : 8 * (i / 8) + (7 - i % 8) = 31 - (24 - 8 * (i / 8) + i % 8) := by omega
    have hOpposite : (24 - 8 * (i / 8) + i % 8) / 8 = 3 - i / 8 := by omega
    have hPlace : (24 - 8 * (i / 8) + i % 8) % 8 = i % 8 := by omega
    have hOppositeByte : 3 - i / 8 < 4 := by omega
    have hBit : 8 * (3 - i / 8) + (7 - i % 8) = 31 - i := by omega
    simp only [bit, byte, hByte, if_true, memory, BitVec.getLsbD_extractLsb', hIn, decide_true,
      Bool.true_and]
    rw [hFrom, ntohl_getLsbD _ (by omega)]
    simp only [bit, byte, hOpposite, hOppositeByte, if_true, memory, BitVec.getLsbD_extractLsb',
      hPlace, hIn, decide_true, Bool.true_and, hBit]

theorem applyPrefix_ip4 (x : BitVec 32) (hPos : 1 ≤ length) (hLe : length ≤ 32) :
    ∃ a', (ip4 x).applyPrefix host length = some a' ∧ a'.isIp4Addr = true ∧
      ∀ i < 32, a'.bit host i = ((ip4 x).bit host i && decide (i < length)) := by
  refine ⟨_, by rw [applyPrefix, mask_eq hPos hLe]; rfl, rfl, fun i hi => ?_⟩
  rw [← ntohl_getLsbD _ hi, ntohl_ntohl, getLsbD_and_mask _ _ hi, ntohl_getLsbD _ hi]

/-- The bits of an IPv6 address that are kept: those of the last bytes, and the first ones of the
byte before. -/
def keptAtEnd (length i : Nat) : Bool :=
  15 < i / 8 + length / 8 || (i / 8 + length / 8 = 15 && i % 8 < length % 8)

/-- The mask of the byte in which the prefix ends. -/
theorem getLsbD_byteMask {n j : Nat} (hj : j < 8) :
    ((0xff#32 &&& (0xff#32 <<< (8 - n))).setWidth 8).getLsbD j = decide (8 - n ≤ j) := by
  have hByte : 0xff#32 = (BitVec.allOnes 8).setWidth 32 := rfl
  have hWide : j < 32 := by omega
  have hShifted : j - (8 - n) < 8 := by omega
  have hShiftedWide : j - (8 - n) < 32 := by omega
  have hKept : j < 8 - n ↔ ¬ 8 - n ≤ j := by omega
  simp only [hByte, BitVec.getLsbD_setWidth, BitVec.getLsbD_and, BitVec.getLsbD_shiftLeft,
    BitVec.getLsbD_allOnes, hj, hWide, hShifted, hShiftedWide, hKept, decide_true, Bool.true_and,
    Bool.and_true, decide_not, Bool.not_not]

theorem applyPrefix_ip6 (x : Ip6) (hPos : 1 ≤ length) (hLe : length ≤ 128) :
    ∃ y, (ip6 x).applyPrefix .little length = some (ip6 y) ∧
      ∀ i < 128, (ip6 y).bit .little i = ((ip6 x).bit .little i && keptAtEnd length i) := by
  have hA : (length : Int).tdiv 8 = ((length / 8 : Nat) : Int) := rfl
  have hB : (length : Int).tmod 8 = ((length % 8 : Nat) : Int) := rfl
  have hShift : ((8 : Int) - ((length % 8 : Nat) : Int)).toNat = 8 - length % 8 := by omega
  have hZero : ¬ (length : Int) = 0 := by omega
  have hIndex : ¬ ((length / 8 : Nat) : Int) < 0 := by omega
  unfold applyPrefix
  simp only [hZero, if_false, hA, hB, hIndex, hShift]
  refine ⟨_, rfl, fun i hi => ?_⟩
  have hByte : i / 8 < 16 := by omega
  have hIn : 7 - i % 8 < 8 := by omega
  simp only [bit, byte, hByte, dif_pos, reverseIp6Addr_apply, Fin.rev_rev, Fin.val_rev]
  split
  · -- a byte that is cleared
    have hKept : keptAtEnd length i = false := by
      simp only [keptAtEnd, Bool.or_eq_false_iff, Bool.and_eq_false_iff, decide_eq_false_iff_not]
      omega
    rw [hKept, Bool.and_false]
    exact BitVec.getLsbD_zero
  · split
    · -- the byte in which the prefix ends
      have hKept : keptAtEnd length i = decide (8 - length % 8 ≤ 7 - i % 8) := by
        rw [keptAtEnd, Bool.eq_iff_iff]
        simp only [Bool.or_eq_true, Bool.and_eq_true, decide_eq_true_eq]
        omega
      rw [BitVec.getLsbD_and, getLsbD_byteMask hIn, hKept]
    · -- a byte that is kept
      have hKept : keptAtEnd length i = true := by
        simp only [keptAtEnd, Bool.or_eq_true, Bool.and_eq_true, decide_eq_true_eq]
        omega
      rw [hKept, Bool.and_true]

/-- The bits that are kept. -/
def kept (a : IpAddr) (length i : Nat) : Bool :=
  if a.isIp4Addr then i < length else keptAtEnd length i

theorem applyPrefix_spec (a : IpAddr) (hPos : 1 ≤ length) (hLe : length ≤ a.bits) :
    ∃ a', a.applyPrefix .little length = some a' ∧ a'.isIp4Addr = a.isIp4Addr ∧
      ∀ i < a.bits, a'.bit .little i = (a.bit .little i && a.kept length i) := by
  cases a with
  | ip4 x => exact applyPrefix_ip4 x hPos hLe
  | ip6 x =>
    obtain ⟨y, hApply, hBits⟩ := applyPrefix_ip6 x hPos hLe
    exact ⟨ip6 y, hApply, rfl, hBits⟩

-- ---------------------------------------------------------------------------
-- The network part
-- ---------------------------------------------------------------------------

theorem bits_eq (hFamily : a.isIp4Addr = b.isIp4Addr) : a.bits = b.bits := by
  cases a <;> cases b <;> first | rfl | cases hFamily

variable (host) in
/-- An address is its family and its bits. -/
theorem eq_of_bits (hFamily : a.isIp4Addr = b.isIp4Addr)
    (h : ∀ i < a.bits, a.bit host i = b.bit host i) : a = b := by
  cases a with
  | ip4 x =>
    cases b with
    | ip6 y => cases hFamily
    | ip4 y =>
      have hEq : ntohl host x = ntohl host y := by
        refine eq_of_top_bits fun i hi => ?_
        rw [ntohl_getLsbD _ hi, ntohl_getLsbD _ hi]
        exact h i hi
      rw [← ntohl_ntohl host x, hEq, ntohl_ntohl]
  | ip6 x =>
    cases b with
    | ip4 y => cases hFamily
    | ip6 y => exact congrArg ip6 (ip6_ext h)

/-- `ApplyPrefix` leaves the network part of `a`, and applied twice does what it does once. -/
def LeavesNetwork (host : Host) (length : Nat) (a : IpAddr) : Prop :=
  ∃ a', a.applyPrefix host length = some a' ∧ a'.isIp4Addr = a.isIp4Addr ∧
    (∀ i < a.bits, a'.bit host i = (a.bit host i && decide (i < length))) ∧
    a'.applyPrefix host length = some a'

/-- What `ApplyPrefix` is for, with two addresses of one family. -/
structure NetworkPart (host : Host) (length : Nat) (a b : IpAddr) : Prop where
  first : LeavesNetwork host length a
  second : LeavesNetwork host length b
  equal : a.applyPrefix host length = b.applyPrefix host length ↔
    a.compare host b length = some true

/-- No bit is set that is kept and not in the prefix, or in the prefix and not kept. -/
def Fits (length : Nat) (a : IpAddr) : Prop :=
  ∀ i < 128, a.bit .little i = true → (keptAtEnd length i = true ↔ i < length)

/-- What has been cleared stays cleared. -/
theorem applyPrefix_again (hPos : 1 ≤ length) (hLe : length ≤ a.bits)
    (hApply : a.applyPrefix .little length = some a') :
    a'.applyPrefix .little length = some a' := by
  obtain ⟨_, hSame, hFamily, hBits⟩ := applyPrefix_spec a hPos hLe
  cases hApply.symm.trans hSame
  obtain ⟨a'', hAgain, hFamily', hBits'⟩ :=
    applyPrefix_spec a' hPos (bits_eq hFamily ▸ hLe)
  rw [hAgain]
  refine congrArg some (eq_of_bits .little hFamily' fun i hi => ?_)
  rw [bits_eq hFamily', bits_eq hFamily] at hi
  rw [hBits' i (bits_eq hFamily ▸ hi), hBits i hi, kept, kept, hFamily, Bool.and_assoc,
    Bool.and_self]

theorem leavesNetwork_iff (hPos : 1 ≤ length) (hLe : length ≤ a.bits) :
    LeavesNetwork .little length a ↔ (a.isIp4Addr = false → a.Fits length) := by
  obtain ⟨a', hApply, hFamily, hBits⟩ := applyPrefix_spec a hPos hLe
  constructor
  · rintro ⟨_, hSame, -, hNetwork, -⟩ hIp6 i hi hSet
    cases hApply.symm.trans hSame
    cases a with
    | ip4 x => cases hIp6
    | ip6 x =>
      have hBit := (hBits i hi).symm.trans (hNetwork i hi)
      rw [hSet, Bool.true_and, Bool.true_and] at hBit
      exact (Bool.eq_iff_iff.mp hBit).trans decide_eq_true_iff
  · intro hFits
    refine ⟨a', hApply, hFamily, fun i hi => ?_, applyPrefix_again hPos hLe hApply⟩
    rw [hBits i hi]
    cases a with
    | ip4 x => rfl
    | ip6 x =>
      cases hSet : (ip6 x).bit .little i with
      | false => rfl
      | true => exact Bool.eq_iff_iff.mpr ((hFits rfl i hi hSet).trans decide_eq_true_iff.symm)

/-- The network parts of two addresses are equal if their first bits are. -/
theorem applyPrefix_eq_iff (hFamily : a.isIp4Addr = b.isIp4Addr) (hLe : length ≤ a.bits)
    (ha : LeavesNetwork host length a) (hb : LeavesNetwork host length b) :
    a.applyPrefix host length = b.applyPrefix host length ↔ AgreeOn host length a b := by
  obtain ⟨a', hApply, haFamily, haBits, -⟩ := ha
  obtain ⟨b', hApply', hbFamily, hbBits, -⟩ := hb
  rw [hApply, hApply', Option.some_inj]
  constructor
  · rintro rfl i hi
    have hBit := (haBits i (Nat.lt_of_lt_of_le hi hLe)).symm.trans
      (hbBits i (bits_eq hFamily ▸ Nat.lt_of_lt_of_le hi hLe))
    simpa [hi] using hBit
  · intro hAgree
    refine eq_of_bits host (haFamily.trans (hFamily.trans hbFamily.symm)) fun i hi => ?_
    rw [bits_eq haFamily] at hi
    rw [haBits i hi, hbBits i (bits_eq hFamily ▸ hi)]
    by_cases hLength : i < length
    · rw [hAgree i hLength]
    · simp [hLength]

/-- `ApplyPrefix` leaves the network part of every IPv4 address, and `Compare` agrees. Of IPv6
addresses it does where the bits allow it; `Compare` agrees where the addresses are equal or differ
in the network part. -/
theorem network_part_iff (hFamily : a.isIp4Addr = b.isIp4Addr) (hPos : 1 ≤ length)
    (hLe : length ≤ a.bits) :
    NetworkPart .little length a b ↔
      (a.isIp4Addr = false →
        a.Fits length ∧ b.Fits length ∧ (AgreeOn .little length a b → a = b)) := by
  have hDefined : a.Defined length := fun hIp4 => by
    cases a with
    | ip4 x => exact ⟨by omega, by exact_mod_cast hLe⟩
    | ip6 x => cases hIp4
  have hLe' := bits_eq hFamily ▸ hLe
  have hCompare : a.compare .little b length = some true ↔ Same .little a b length := by
    obtain ⟨r, hResult, hr⟩ := compare_answers .little hFamily hDefined
    rw [hResult, Option.some_inj]
    exact hr
  constructor
  · rintro ⟨ha, hb, hEqual⟩ hIp6
    refine ⟨(leavesNetwork_iff hPos hLe).mp ha hIp6,
      (leavesNetwork_iff hPos hLe').mp hb (hFamily ▸ hIp6), fun hAgree => ?_⟩
    have hSame := hCompare.mp (hEqual.mp ((applyPrefix_eq_iff hFamily hLe ha hb).mpr hAgree))
    rw [Same, hIp6] at hSame
    exact hSame
  · intro h
    have ha : LeavesNetwork .little length a :=
      (leavesNetwork_iff hPos hLe).mpr fun hIp6 => (h hIp6).1
    have hb : LeavesNetwork .little length b :=
      (leavesNetwork_iff hPos hLe').mpr fun hIp6 => (h (hFamily.trans hIp6)).2.1
    refine ⟨ha, hb, (applyPrefix_eq_iff hFamily hLe ha hb).trans (Iff.trans ?_ hCompare.symm)⟩
    cases hIp4 : a.isIp4Addr with
    | true => rw [Same, hIp4, if_pos rfl, Int.toNat_natCast]
    | false =>
      rw [Same, hIp4, if_neg Bool.false_ne_true]
      exact ⟨(h hIp4).2.2, fun hEq i _ => hEq ▸ rfl⟩

/-- `::1:0` and `::2:0`. Of the length 120 the first 120 bits are meant and the last 120 are kept,
and both addresses have only bits that are in either. -/
theorem network_part_within :
    NetworkPart .little 120 (ip6 fun i => if i = 13 then 1 else 0)
      (ip6 fun i => if i = 13 then 2 else 0) := by
  refine Iff.mpr (network_part_iff rfl ?_ ?_) fun _ => ⟨?_, ?_, fun hAgree => ?_⟩
  · decide
  · decide
  · unfold Fits
    decide +kernel
  · unfold Fits
    decide +kernel
  · exact absurd (hAgree 110 (by decide)) (by decide)

/-- With the length 8 the last byte of `::1` is kept. -/
theorem network_part_reversed :
    loopback.applyPrefix .little 8 = some loopback ∧
      ¬ NetworkPart .little 8 loopback loopback := by
  obtain ⟨a', hApply, hFamily, hBits⟩ :=
    applyPrefix_spec loopback (show 1 ≤ 8 by decide) (show 8 ≤ loopback.bits by decide)
  have hKept :
      ∀ i < 128, (loopback.bit .little i && loopback.kept 8 i) = loopback.bit .little i := by
    decide +kernel
  have hSame : a' = loopback := by
    refine eq_of_bits .little hFamily fun i hi => ?_
    rw [bits_eq hFamily] at hi
    exact (hBits i hi).trans (hKept i hi)
  refine ⟨hSame ▸ hApply, fun hPart => ?_⟩
  have hFits := (leavesNetwork_iff (by decide) (by decide)).mp hPart.first rfl
  have hLast := (hFits 127 (by decide) (by decide)).mp (by decide)
  exact absurd hLast (by decide)

end IpAddr

end HectorCore.Addr
