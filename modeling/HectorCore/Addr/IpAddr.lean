import HectorCore.Lib.CText
import Mathlib.Data.Fin.Tuple.Basic
import Mathlib.Data.Fintype.Pi
import Mathlib.Logic.Function.Basic
import Mathlib.Tactic.FinCases

/-!
# IpAddr — addresses, and what is compared of them

`lib/IpAddr.cc` and `IpAddr.h`: the two ways to parse an address, `ReverseIp6Addr`, `Compare`, the
two `Match`es and `ApplyPrefix`.

* `ip4Addr` says which member of the union is used, so an address is one or the other.
* `s_addr` is a number in the byte order of the host. A `uint64_t` that is copied and compared only
  is its eight bytes.
* `inet_pton` is a parameter: a function of the C string, with what it leaves in the address.
* A shift by 32 or more, a number that `atoi` cannot represent, and a failed assertion end in
  `none`.
-/

namespace HectorCore.Addr

open Lib (isSpace isDigit cStr)

abbrev Str := List UInt8

abbrev Ip6 := Fin 16 → BitVec 8

/-- The byte order of the host. -/
inductive Host where
  | little
  | big
  deriving DecidableEq, Repr

/-- `ip4Addr` and `addr` -/
inductive IpAddr where
  | ip4 (s_addr : BitVec 32)
  | ip6 (s6_addr : Ip6)
  deriving DecidableEq

/-- `inet_pton(AF_INET, ...)` and `inet_pton(AF_INET6, ...)` -/
structure Inet where
  pton4 : Str → Option (BitVec 32)
  pton6 : Str → Option Ip6

def slash : UInt8 := 47

/-- `ntohl` and `htonl`, which are the same. -/
def ntohl : Host → BitVec 32 → BitVec 32
  | .big, x => x
  | .little, x =>
    x.extractLsb' 0 8 ++ x.extractLsb' 8 8 ++ x.extractLsb' 16 8 ++ x.extractLsb' 24 8

/-- `(uint32_t)0xffffffff << (32-prefix)` -/
def mask (length : Int) : Option (BitVec 32) :=
  if 0 ≤ 32 - length ∧ 32 - length < 32 then some (0xffffffff#32 <<< (32 - length).toNat) else none

/-- `atoi`; what it returns where there is no such `int` is not defined. -/
def atoi (s : Str) : Option Int :=
  let s := (cStr s).dropWhile isSpace
  let (negative, s) :=
    match s with
    | [] => (false, [])
    | c :: rest => if c = 45 then (true, rest) else if c = 43 then (false, rest) else (false, s)
  let n : Nat := (s.takeWhile isDigit).foldl (fun n c => n * 10 + (c.toNat - 48)) 0
  let value : Int := if negative then -n else n
  if -2 ^ 31 ≤ value ∧ value < 2 ^ 31 then some value else none

namespace IpAddr

/-- `IsIp4Addr` -/
def isIp4Addr : IpAddr → Bool
  | .ip4 _ => true
  | .ip6 _ => false

/-- `SetEmpty` -/
def setEmpty : IpAddr → IpAddr
  | .ip4 _ => .ip4 0
  | .ip6 _ => .ip6 fun _ => 0

variable (inet : Inet) (host : Host)

/-- `IpAddr::IpAddr(bool ip4Addr, const std::string &s)`: `ParseIp4Addr` or `ParseIp6Addr`. -/
def parse (ip4Addr : Bool) (s : Str) : IpAddr :=
  if ip4Addr then
    match inet.pton4 (cStr s) with
    | some s_addr => .ip4 s_addr
    | none => setEmpty (.ip4 0)
  else
    match inet.pton6 (cStr s) with
    | some s6_addr => .ip6 s6_addr
    | none => setEmpty (.ip6 fun _ => 0)

/-- One turn of the loop of `ReverseIp6Addr`. -/
def exchange (addr : Ip6) (i : Fin 8) : Ip6 :=
  let j : Fin 16 := i.castLE (by decide)
  let tmp := addr j.rev
  Function.update (Function.update addr j.rev (addr j)) j tmp

/-- `ReverseIp6Addr` -/
def reverseIp6Addr (addr : Ip6) : Ip6 :=
  match host with
  | .little => (List.finRange 8).foldl exchange addr
  | .big => addr

/-- `GetIp6Addr` -/
def getIp6Addr (addr : Ip6) (first : Bool) : Fin 8 → BitVec 8 :=
  fun i => addr (if first then i.castAdd 8 else i.natAdd 8)

/-- The two assignments to `oip6`. -/
def ofWords (first second : Fin 8 → BitVec 8) : Ip6 := Fin.append first second

/-- `Compare` -/
def compare : IpAddr → IpAddr → Int → Option Bool
  | .ip4 s_addr, .ip4 other, length =>
    (mask length).map fun mask => ntohl host s_addr &&& mask = ntohl host other &&& mask
  | .ip6 s6_addr, .ip6 other, _ =>
    let ip6 := reverseIp6Addr host s6_addr
    let oip6 := reverseIp6Addr host (ofWords (getIp6Addr other true) (getIp6Addr other false))
    some (decide (getIp6Addr ip6 true = getIp6Addr oip6 true) &&
      decide (getIp6Addr ip6 false = getIp6Addr oip6 false))
  -- assert(ip4Addr == true), assert(ip4Addr == false)
  | _, _, _ => none

/-- `Match(const std::string &addr, int prefix)` -/
def matchLength (a : IpAddr) (addr : Str) (length : Int) : Option Bool :=
  a.compare host (parse inet a.isIp4Addr addr) length

/-- What `Match(const std::string &addr)` hands to the other `Match`. -/
def split (ip4Addr : Bool) (addr : Str) : Str × Option Int :=
  match addr.findIdx? (· = slash) with
  | none => (addr, some (if ip4Addr then 32 else 128))
  | some slash =>
    if slash < 1 then (addr, some (if ip4Addr then 32 else 128))
    else (addr.take slash, atoi (addr.drop (slash + 1)))

/-- `Match(const std::string &addr)` -/
def matchText (a : IpAddr) (addr : Str) : Option Bool :=
  (split a.isIp4Addr addr).2.bind fun length =>
    a.matchLength inet host (split a.isIp4Addr addr).1 length

/-- `ApplyPrefix`; an index below the array ends in `none`. -/
def applyPrefix : IpAddr → Int → Option IpAddr
  | .ip4 s_addr, length =>
    (mask length).map fun mask => .ip4 (ntohl host (ntohl host s_addr &&& mask))
  | .ip6 s6_addr, length =>
    let length := if length = 0 then 128 else length
    let a := length.tdiv 8
    let b := length.tmod 8
    if a < 0 then none
    else
      let addr := reverseIp6Addr host s6_addr
      -- if (a < 16)
      let addr : Ip6 := fun i =>
        if (i : Int) = a then
          addr i &&& (0xff#32 &&& (0xff#32 <<< (8 - b).toNat)).setWidth 8
        else addr i
      let addr : Ip6 := fun i => if a + 1 ≤ (i : Int) then 0 else addr i
      some (.ip6 (reverseIp6Addr host addr))

end IpAddr

-- ---------------------------------------------------------------------------
-- Bits in network order
-- ---------------------------------------------------------------------------

/-- A byte of a number in the memory of the host. -/
def memory : Host → BitVec 32 → Nat → BitVec 8
  | .little, x, k => x.extractLsb' (8 * k) 8
  | .big, x, k => x.extractLsb' (24 - 8 * k) 8

namespace IpAddr

/-- The length of an address, in bits. -/
def bits : IpAddr → Nat
  | .ip4 _ => 32
  | .ip6 _ => 128

/-- A byte of the address; there are zeros behind the last one. -/
def byte (host : Host) : IpAddr → Nat → BitVec 8
  | .ip4 s_addr, k => if k < 4 then memory host s_addr k else 0
  | .ip6 s6_addr, k => if h : k < 16 then s6_addr ⟨k, h⟩ else 0

/-- A bit of the address, in network order. -/
def bit (host : Host) (a : IpAddr) (i : Nat) : Bool := (a.byte host (i / 8)).getLsbD (7 - i % 8)

/-- The addresses agree on so many bits. -/
def AgreeOn (host : Host) (length : Nat) (a b : IpAddr) : Prop :=
  ∀ i < length, a.bit host i = b.bit host i

variable {host : Host} {a b : IpAddr}

/-- The bits of `ntohl` are the bits in network order, from the top. -/
theorem ntohl_getLsbD (x : BitVec 32) {i : Nat} (hi : i < 32) :
    (ntohl host x).getLsbD (31 - i) = (IpAddr.ip4 x).bit host i := by
  have hByte : i / 8 < 4 := by omega
  have hIn : 7 - i % 8 < 8 := by omega
  cases host with
  | big =>
    simp only [ntohl, bit, byte, hByte, if_true, memory, BitVec.getLsbD_extractLsb', hIn,
      decide_true, Bool.true_and]
    congr 1
    omega
  | little =>
    simp only [ntohl, bit, byte, hByte, if_true, memory, BitVec.getLsbD_append,
      BitVec.getLsbD_extractLsb', hIn, decide_true, Bool.true_and]
    -- the byte of the bit decides where it has been moved to
    split
    · rw [decide_eq_true ‹_›, Bool.true_and]
      congr 1
      omega
    · split
      · rw [decide_eq_true ‹_›, Bool.true_and]
        congr 1
        omega
      · split
        · rw [decide_eq_true ‹_›, Bool.true_and]
          congr 1
          omega
        · rw [decide_eq_true (by omega), Bool.true_and]
          congr 1
          omega

theorem eq_of_top_bits {x y : BitVec 32}
    (h : ∀ i < 32, x.getLsbD (31 - i) = y.getLsbD (31 - i)) : x = y := by
  refine BitVec.eq_of_getLsbD_eq fun j hj => ?_
  have hTop : 31 - (31 - j) = j := by omega
  exact hTop ▸ h (31 - j) (by omega)

/-- An address is its bits. -/
theorem ip6_ext {x y : Ip6} (h : ∀ i < 128, (ip6 x).bit host i = (ip6 y).bit host i) : x = y := by
  funext k
  refine BitVec.eq_of_getLsbD_eq fun j hj => ?_
  have hBit := h (8 * k + (7 - j)) (by omega)
  have hByte : (8 * (k : Nat) + (7 - j)) / 8 = k := by omega
  have hIn : 7 - (8 * (k : Nat) + (7 - j)) % 8 = j := by omega
  simpa only [bit, byte, hByte, hIn, k.isLt, dif_pos] using hBit

theorem reverseIp6Addr_apply (addr : Ip6) (i : Fin 16) :
    reverseIp6Addr .little addr i = addr i.rev := by
  fin_cases i <;> rfl

variable (host) in
theorem reverseIp6Addr_reverse (addr : Ip6) :
    reverseIp6Addr host (reverseIp6Addr host addr) = addr := by
  cases host with
  | big => rfl
  | little =>
    funext i
    rw [reverseIp6Addr_apply, reverseIp6Addr_apply, Fin.rev_rev]

end IpAddr

end HectorCore.Addr
