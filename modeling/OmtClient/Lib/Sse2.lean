import Mathlib.Tactic.Linarith
import OmtClient.Lib.Bytes

/-!
# SSE2 registers

The instructions of SSE2 that work on 16-bit words and on pairs of them, as the instruction
set defines them: which wrap, which saturate, and which lane goes where. The names are those
of the intrinsics.

1. The lemmas named `toInt_…`: what an instruction leaves in a lane, as a signed number.
-/

namespace OmtClient.Lib

/-- A register of 128 bits as eight words, the lowest first. -/
abbrev M128 := Fin 8 → BitVec 16

namespace Sse2

/-! ## Lanes -/

/-- The low and the high word of a 32-bit lane. -/
def low (i : Fin 4) : Fin 8 := ⟨2 * i, by omega⟩
def high (i : Fin 4) : Fin 8 := ⟨2 * i + 1, by omega⟩

def dword (r : M128) (i : Fin 4) : BitVec 32 := r (high i) ++ r (low i)

def ofDwords (f : Fin 4 → BitVec 32) : M128 := fun i =>
  (f ⟨i / 2, by omega⟩).extractLsb' (16 * (i % 2)) 16

/-- A number cut off at the ends of a signed word. -/
def saturate (v : Int) : Int := max (-32768) (min v 32767)

/-! ## Instructions -/

def set1Epi16 (c : BitVec 16) : M128 := fun _ => c
def set1Epi32 (c : BitVec 32) : M128 := ofDwords fun _ => c
def setzero : M128 := fun _ => 0

def mulloEpi16 (a b : M128) : M128 := fun i => a i * b i
def mulhiEpi16 (a b : M128) : M128 := fun i => ((a i).signExtend 32 * (b i).signExtend 32).extractLsb' 16 16
def addsEpi16 (a b : M128) : M128 := fun i => BitVec.ofInt 16 (saturate ((a i).toInt + (b i).toInt))
def subsEpi16 (a b : M128) : M128 := fun i => BitVec.ofInt 16 (saturate ((a i).toInt - (b i).toInt))
def sraiEpi16 (n : Nat) (a : M128) : M128 := fun i => (a i).sshiftRight n
def orSi128 (a b : M128) : M128 := fun i => a i ||| b i

def maddEpi16 (a b : M128) : M128 := ofDwords fun i =>
  (a (low i)).signExtend 32 * (b (low i)).signExtend 32 + (a (high i)).signExtend 32 * (b (high i)).signExtend 32
def addEpi32 (a b : M128) : M128 := ofDwords fun i => dword a i + dword b i
def subEpi32 (a b : M128) : M128 := ofDwords fun i => dword a i - dword b i
def sraiEpi32 (n : Nat) (a : M128) : M128 := ofDwords fun i => (dword a i).sshiftRight n

/-- `shuffle_epi32`: two bits of the immediate for each lane. -/
def shuffleEpi32 (imm : Nat) (a : M128) : M128 := ofDwords fun i => dword a ⟨imm / 4 ^ i.val % 4, Nat.mod_lt _ (by decide)⟩

/-- `packs_epi32`: the lanes of `a`, then those of `b`, each saturated to a word. -/
def packsEpi32 (a b : M128) : M128 := fun i =>
  BitVec.ofInt 16 (saturate (if h : i.val < 4 then dword a ⟨i, h⟩ else dword b ⟨i - 4, by omega⟩).toInt)

/-- `packus_epi16`: the words of `a`, then those of `b`, each saturated to a byte. -/
def packusEpi16 (a b : M128) : Bytes :=
  (List.ofFn a ++ List.ofFn b).map fun w => UInt8.ofNat (max 0 (min w.toInt 255)).toNat

/-! ## What the lanes hold -/

theorem append_low (hi lo : BitVec 16) : (hi ++ lo).extractLsb' 0 16 = lo := BitVec.extractLsb'_append_eq_right

theorem append_high (hi lo : BitVec 16) : (hi ++ lo).extractLsb' 16 16 = hi := BitVec.extractLsb'_append_eq_left

@[simp] theorem dword_ofDwords (f : Fin 4 → BitVec 32) (i : Fin 4) : dword (ofDwords f) i = f i := by
  have hhigh : (⟨(2 * i.val + 1) / 2, by omega⟩ : Fin 4) = i := Fin.ext (by dsimp only; omega)
  have hlow : (⟨2 * i.val / 2, by omega⟩ : Fin 4) = i := Fin.ext (by dsimp only; omega)
  have hodd : (2 * i.val + 1) % 2 = 1 := by omega
  have heven : 2 * i.val % 2 = 0 := by omega
  unfold dword ofDwords low high
  dsimp only
  rw [hhigh, hlow, hodd, heven]
  refine BitVec.eq_of_toNat_eq ?_
  have := (f i).isLt
  rw [BitVec.toNat_append, BitVec.extractLsb'_toNat, BitVec.extractLsb'_toNat,
    ← Nat.shiftLeft_add_eq_or_of_lt (Nat.mod_lt _ (Nat.two_pow_pos 16)), Nat.shiftLeft_eq, Nat.shiftRight_eq_div_pow,
    Nat.shiftRight_eq_div_pow]
  omega

theorem toInt_high (x : BitVec 32) : (x.extractLsb' 16 16).toInt = x.toInt / 65536 := by
  have := x.isLt
  rw [BitVec.toInt_eq_toNat_cond, BitVec.toInt_eq_toNat_cond, BitVec.extractLsb'_toNat, Nat.shiftRight_eq_div_pow]
  split
  · split
    · omega
    · omega
  · split
    · omega
    · omega

theorem toInt_ofInt_saturate (v : Int) : (BitVec.ofInt 16 (saturate v)).toInt = saturate v := by
  rw [BitVec.toInt_ofInt]
  unfold saturate
  exact Int.bmod_eq_of_le (by omega) (by omega)

theorem toInt_range (a : BitVec 16) : -32768 ≤ a.toInt ∧ a.toInt < 32768 := ⟨BitVec.le_toInt a, BitVec.toInt_lt⟩

theorem toInt_signExtend (a : BitVec 16) : (a.signExtend 32).toInt = a.toInt := BitVec.toInt_signExtend_of_le (by decide)

@[simp] theorem toInt_set1Epi16 (c : BitVec 16) (i : Fin 8) : (set1Epi16 c i).toInt = c.toInt := rfl

@[simp] theorem toInt_mulloEpi16 (a b : M128) (i : Fin 8) :
    (mulloEpi16 a b i).toInt = ((a i).toInt * (b i).toInt).bmod 65536 := BitVec.toInt_mul ..

@[simp] theorem toInt_mulhiEpi16 (a b : M128) (i : Fin 8) :
    (mulhiEpi16 a b i).toInt = (a i).toInt * (b i).toInt / 65536 := by
  obtain ⟨ha, ha'⟩ := toInt_range (a i)
  obtain ⟨hb, hb'⟩ := toInt_range (b i)
  have hlow : -1073741824 ≤ (a i).toInt * (b i).toInt := by nlinarith
  have hhigh : (a i).toInt * (b i).toInt ≤ 1073741824 := by nlinarith
  rw [mulhiEpi16, toInt_high, BitVec.toInt_mul, toInt_signExtend, toInt_signExtend,
    Int.bmod_eq_of_le (by omega) (by omega)]

@[simp] theorem toInt_addsEpi16 (a b : M128) (i : Fin 8) :
    (addsEpi16 a b i).toInt = saturate ((a i).toInt + (b i).toInt) := toInt_ofInt_saturate _

@[simp] theorem toInt_subsEpi16 (a b : M128) (i : Fin 8) :
    (subsEpi16 a b i).toInt = saturate ((a i).toInt - (b i).toInt) := toInt_ofInt_saturate _

@[simp] theorem toInt_sraiEpi16 (n : Nat) (a : M128) (i : Fin 8) : (sraiEpi16 n a i).toInt = (a i).toInt / 2 ^ n := by
  rw [sraiEpi16, BitVec.toInt_sshiftRight, Int.shiftRight_eq_div_pow, Int.natCast_pow]
  rfl

/-- The lowest bit set. -/
@[simp] theorem toInt_or_one (a : M128) (i : Fin 8) :
    (orSi128 a (set1Epi16 1) i).toInt = if (a i).toInt % 2 = 0 then (a i).toInt + 1 else (a i).toInt := by
  have := (a i).isLt
  have hor : (a i ||| 1).toNat = (a i).toNat / 2 * 2 + 1 := by
    have hone : (1 : BitVec 16).toNat = 1 := rfl
    have hdiv := @Nat.or_div_two (a i).toNat 1
    have hmod := @Nat.or_mod_two_eq_one (a i).toNat 1
    rw [BitVec.toNat_or, hone]
    simp only [Nat.reduceDiv, Nat.or_zero, Nat.one_mod, or_true, iff_true] at hdiv hmod
    omega
  unfold orSi128 set1Epi16
  rw [BitVec.toInt_eq_toNat_cond, BitVec.toInt_eq_toNat_cond, hor]
  split
  · split
    · split
      · omega
      · omega
    · split
      · omega
      · omega
  · split
    · split
      · omega
      · omega
    · split
      · omega
      · omega

theorem dword_maddEpi16 (a b : M128) (i : Fin 4) :
    (dword (maddEpi16 a b) i).toInt =
      ((a (low i)).toInt * (b (low i)).toInt + (a (high i)).toInt * (b (high i)).toInt).bmod 4294967296 := by
  rw [maddEpi16, dword_ofDwords, BitVec.toInt_add, BitVec.toInt_mul, BitVec.toInt_mul, toInt_signExtend, toInt_signExtend,
    toInt_signExtend, toInt_signExtend, Int.bmod_add_bmod, Int.add_bmod_bmod]

theorem dword_addEpi32 (a b : M128) (i : Fin 4) :
    (dword (addEpi32 a b) i).toInt = ((dword a i).toInt + (dword b i).toInt).bmod 4294967296 := by
  rw [addEpi32, dword_ofDwords]
  exact BitVec.toInt_add ..

theorem dword_subEpi32 (a b : M128) (i : Fin 4) :
    (dword (subEpi32 a b) i).toInt = ((dword a i).toInt - (dword b i).toInt).bmod 4294967296 := by
  rw [subEpi32, dword_ofDwords]
  exact BitVec.toInt_sub ..

theorem dword_sraiEpi32 (n : Nat) (a : M128) (i : Fin 4) : (dword (sraiEpi32 n a) i).toInt = (dword a i).toInt / 2 ^ n := by
  rw [sraiEpi32, dword_ofDwords, BitVec.toInt_sshiftRight, Int.shiftRight_eq_div_pow, Int.natCast_pow]
  rfl

end Sse2

end OmtClient.Lib
