import OmtClient.Lib.Bits

/-!
# Cyclic redundancy checks

The check of a message, one bit at a time: the register moves down by one place, and the
polynomial (in the reflected form, the lowest bit first) is subtracted when the bit that
leaves it differs from the message's.

1. `foldl_crcBit`: feeding the bits of a number is as many shifts of the register with the
   number added to it.
2. `crcShifts_split`: shifts of a register are those of its low bits and the rest moved down,
   which is what a table of the low bits serves for.
-/

namespace OmtClient.Lib

variable {w : Nat}

/-- The register after one bit of the message. -/
def crcBit (poly crc : BitVec w) (b : Bool) : BitVec w :=
  if crc.getLsbD 0 ^^ b then poly ^^^ (crc >>> 1) else crc >>> 1

/-- The check of a message: all ones at first, complemented at last. -/
def crc (poly : BitVec w) (data : Bytes) : BitVec w :=
  (bitsOf data).foldl (crcBit poly) (BitVec.allOnes w) ^^^ BitVec.allOnes w

/-- One shift of the register alone. -/
def crcShift (poly x : BitVec w) : BitVec w := if x.getLsbD 0 then poly ^^^ (x >>> 1) else x >>> 1

def crcShifts (poly : BitVec w) : Nat → BitVec w → BitVec w
  | 0, x => x
  | n + 1, x => crcShifts poly n (crcShift poly x)

variable (poly x y : BitVec w)

theorem crcShift_xor : crcShift poly (x ^^^ y) = crcShift poly x ^^^ crcShift poly y := by
  unfold crcShift
  rw [BitVec.getLsbD_xor, BitVec.ushiftRight_xor_distrib]
  cases x.getLsbD 0 <;> cases y.getLsbD 0
  · rfl
  · exact BitVec.eq_of_getLsbD_eq fun i _ => by
      simp only [Bool.false_xor, if_true, Bool.false_eq_true, if_false, BitVec.getLsbD_xor]
      exact Bool.xor_left_comm _ _ _
  · exact (BitVec.xor_assoc _ _ _).symm
  · exact BitVec.eq_of_getLsbD_eq fun i _ => by
      simp only [Bool.xor_self, Bool.false_eq_true, if_false, if_true, BitVec.getLsbD_xor]
      cases poly.getLsbD i <;> simp

theorem crcShifts_xor (n : Nat) : crcShifts poly n (x ^^^ y) = crcShifts poly n x ^^^ crcShifts poly n y := by
  induction n generalizing x y with
  | zero => rfl
  | succ n ih => rw [crcShifts, crcShift_xor, ih, crcShifts, crcShifts]

/-- A register whose low bits are clear only moves down. -/
theorem crcShifts_high {n : Nat} (h : ∀ i < n, x.getLsbD i = false) : crcShifts poly n x = x >>> n := by
  induction n generalizing x with
  | zero => exact (BitVec.ushiftRight_zero x).symm
  | succ n ih =>
    have hshift : crcShift poly x = x >>> 1 := by
      rw [crcShift, h 0 (Nat.succ_pos n)]
      rfl
    rw [crcShifts, hshift, ih _ fun i hi => ?_, ← BitVec.shiftRight_add, Nat.add_comm]
    rw [BitVec.getLsbD_ushiftRight]
    exact h (1 + i) (by omega)

theorem getLsbD_lowMask (n i : Nat) (hi : i < w) : (BitVec.ofNat w (2 ^ n - 1)).getLsbD i = decide (i < n) := by
  rw [BitVec.getLsbD_ofNat, Nat.testBit_two_pow_sub_one, decide_eq_true hi, Bool.true_and]

/-- The shifts of the low bits, and the rest moved down. -/
theorem crcShifts_split (n : Nat) :
    crcShifts poly n x = crcShifts poly n (x &&& BitVec.ofNat w (2 ^ n - 1)) ^^^ (x >>> n) := by
  have hsplit : x = (x &&& BitVec.ofNat w (2 ^ n - 1)) ^^^ (x &&& ~~~BitVec.ofNat w (2 ^ n - 1)) := by
    refine BitVec.eq_of_getLsbD_eq fun i hi => ?_
    rw [BitVec.getLsbD_xor, BitVec.getLsbD_and, BitVec.getLsbD_and, BitVec.getLsbD_not, decide_eq_true hi]
    cases x.getLsbD i <;> cases (BitVec.ofNat w (2 ^ n - 1)).getLsbD i <;> rfl
  have hlow : ∀ i < n, (x &&& ~~~BitVec.ofNat w (2 ^ n - 1)).getLsbD i = false := by
    intro i hi
    rw [BitVec.getLsbD_and, BitVec.getLsbD_not]
    by_cases hw : i < w
    · rw [getLsbD_lowMask n i hw, decide_eq_true hi, decide_eq_true hw]
      exact Bool.and_false _
    · rw [decide_eq_false hw]
      exact Bool.and_false _
  have hhigh : (x &&& ~~~BitVec.ofNat w (2 ^ n - 1)) >>> n = x >>> n := by
    refine BitVec.eq_of_getLsbD_eq fun i _ => ?_
    rw [BitVec.getLsbD_ushiftRight, BitVec.getLsbD_ushiftRight, BitVec.getLsbD_and, BitVec.getLsbD_not]
    by_cases hw : n + i < w
    · rw [getLsbD_lowMask n _ hw, decide_eq_true hw, decide_eq_false (by omega)]
      exact Bool.and_true _
    · rw [BitVec.getLsbD_of_ge x _ (Nat.not_lt.mp hw)]
      exact Bool.false_and _
  rw [← hhigh, ← crcShifts_high poly _ hlow, ← crcShifts_xor, ← hsplit]

theorem crcBit_eq {crc : BitVec w} {v : Nat} (hw : 0 < w) (hv : v < 2 ^ w) :
    crcBit poly crc (decide (v % 2 = 1)) ^^^ BitVec.ofNat w (v / 2) = crcShift poly (crc ^^^ BitVec.ofNat w v) := by
  have hbit : (BitVec.ofNat w v).getLsbD 0 = decide (v % 2 = 1) := by
    rw [BitVec.getLsbD_ofNat, decide_eq_true hw, Bool.true_and, Nat.testBit_zero]
  have hshift : BitVec.ofNat w v >>> 1 = BitVec.ofNat w (v / 2) := by
    refine BitVec.eq_of_toNat_eq ?_
    rw [BitVec.toNat_ushiftRight, BitVec.toNat_ofNat, BitVec.toNat_ofNat, Nat.mod_eq_of_lt hv, Nat.shiftRight_one,
      Nat.mod_eq_of_lt (Nat.lt_of_le_of_lt (Nat.div_le_self v 2) hv)]
  unfold crcBit crcShift
  rw [BitVec.getLsbD_xor, hbit, BitVec.ushiftRight_xor_distrib, hshift]
  split
  · exact BitVec.xor_assoc _ _ _
  · rfl

/-- The bits of a number, fed to the register. -/
theorem foldl_crcBit {n v : Nat} (hn : n ≤ w) (hv : v < 2 ^ n) (crc : BitVec w) :
    (lsb n v).foldl (crcBit poly) crc = crcShifts poly n (crc ^^^ BitVec.ofNat w v) := by
  induction n generalizing crc v with
  | zero =>
    rw [Nat.lt_one_iff.mp hv]
    exact (BitVec.xor_zero).symm
  | succ n ih =>
    have hfits : v < 2 ^ w := Nat.lt_of_lt_of_le hv (Nat.pow_le_pow_right (by decide) hn)
    rw [lsb, List.foldl_cons, ih (by omega) (by omega), crcBit_eq poly (by omega) hfits, crcShifts]

end OmtClient.Lib
