import Mathlib.Tactic.Ring
import OmtClient.Lib.Bytes

/-!
# Bits

Bit strings are lists of `Bool`. `lsb n v` is the low `n` bits of `v`, the least
significant first; `bitsOf` is the bits of a byte string in that order.

1. `lsb_add`: the bits of two numbers one above the other.
2. `ofLsb_lsb`: the bits of a number denote it.
3. `field_field`: a field of a field of a number is a field of the number.
4. `msb_beNat`: the bits of a big-endian word are the bits of its bytes.
-/

namespace OmtClient.Lib

/-- The low `n` bits of `v`, the least significant first. -/
def lsb : Nat → Nat → List Bool
  | 0, _ => []
  | n + 1, v => decide (v % 2 = 1) :: lsb n (v / 2)

/-- The number that bits denote, the least significant first. -/
def ofLsb : List Bool → Nat
  | [] => 0
  | b :: bs => b.toNat + 2 * ofLsb bs

/-- The low `n` bits of `v`, the most significant first. -/
def msb (n v : Nat) : List Bool := (lsb n v).reverse

/-- The number that bits denote, the most significant first. -/
def ofMsb (bs : List Bool) : Nat := ofLsb bs.reverse

/-- The bits of a byte string, each byte from its least significant bit. -/
def bitsOf (bs : Bytes) : List Bool := bs.flatMap fun b => lsb 8 b.toNat

@[simp] theorem length_lsb (n v : Nat) : (lsb n v).length = n := by
  induction n generalizing v with
  | zero => rfl
  | succ n ih => rw [lsb, List.length_cons, ih]

theorem bitsOf_append (as bs : Bytes) : bitsOf (as ++ bs) = bitsOf as ++ bitsOf bs := by
  rw [bitsOf, List.flatMap_append]
  rfl

/-- The bits of a number, then those of the number above it. -/
theorem lsb_add (m n low high : Nat) (h : low < 2 ^ m) :
    lsb (m + n) (low + high * 2 ^ m) = lsb m low ++ lsb n high := by
  induction m generalizing low with
  | zero =>
    rw [Nat.pow_zero, Nat.lt_one_iff] at h
    rw [h, Nat.zero_add, Nat.zero_add, Nat.pow_zero, Nat.mul_one]
    rfl
  | succ m ih =>
    have hpow : high * 2 ^ (m + 1) = 2 * (high * 2 ^ m) := by
      rw [Nat.pow_succ, ← Nat.mul_assoc, Nat.mul_comm]
    rw [Nat.pow_succ] at h
    have hmod : (low + high * 2 ^ (m + 1)) % 2 = low % 2 := by omega
    have hdiv : (low + high * 2 ^ (m + 1)) / 2 = low / 2 + high * 2 ^ m := by omega
    rw [Nat.succ_add, lsb, hmod, hdiv, ih (low / 2) (by omega), lsb]
    rfl

/-- The first eight bits are a byte. -/
theorem lsb_byte (n v : Nat) : lsb (8 + n) v = lsb 8 (v % 256) ++ lsb n (v / 256) := by
  have hsplit : v % 256 + v / 256 * 2 ^ 8 = v := by
    have := Nat.mod_add_div v 256
    omega
  rw [← lsb_add 8 n (v % 256) (v / 256) (Nat.mod_lt _ (by decide)), hsplit]

theorem ofLsb_lsb {n v : Nat} (h : v < 2 ^ n) : ofLsb (lsb n v) = v := by
  induction n generalizing v with
  | zero =>
    rw [Nat.pow_zero, Nat.lt_one_iff] at h
    rw [h]
    rfl
  | succ n ih =>
    rw [Nat.pow_succ] at h
    rw [lsb, ofLsb, ih (by omega)]
    rcases Nat.mod_two_eq_zero_or_one v with hv | hv
    · rw [hv]
      simp only [Nat.zero_ne_one, decide_false, Bool.toNat_false]
      omega
    · rw [hv]
      simp only [decide_true, Bool.toNat_true]
      omega

@[simp] theorem length_msb (n v : Nat) : (msb n v).length = n := by rw [msb, List.length_reverse, length_lsb]

theorem ofMsb_msb {n v : Nat} (h : v < 2 ^ n) : ofMsb (msb n v) = v := by
  rw [ofMsb, msb, List.reverse_reverse, ofLsb_lsb h]

/-- The high bits of a number, then its low bits. -/
theorem msb_add (m k v : Nat) : msb (m + k) v = msb m (v / 2 ^ k) ++ msb k (v % 2 ^ k) := by
  have hsplit : v % 2 ^ k + v / 2 ^ k * 2 ^ k = v := by
    rw [Nat.mul_comm]
    exact Nat.mod_add_div v (2 ^ k)
  have := lsb_add k m (v % 2 ^ k) (v / 2 ^ k) (Nat.mod_lt _ (Nat.two_pow_pos k))
  rw [hsplit] at this
  rw [msb, Nat.add_comm, this, List.reverse_append]
  rfl

theorem ofLsb_lt (bs : List Bool) : ofLsb bs < 2 ^ bs.length := by
  induction bs with
  | nil => exact Nat.zero_lt_one
  | cons b bs ih =>
    have hb : b.toNat ≤ 1 := Bool.toNat_le b
    rw [ofLsb, List.length_cons, Nat.pow_succ]
    omega

theorem lsb_ofLsb (bs : List Bool) : lsb bs.length (ofLsb bs) = bs := by
  induction bs with
  | nil => rfl
  | cons b bs ih =>
    have hb : b.toNat ≤ 1 := Bool.toNat_le b
    have hmod : (b.toNat + 2 * ofLsb bs) % 2 = b.toNat := by omega
    have hdiv : (b.toNat + 2 * ofLsb bs) / 2 = ofLsb bs := by omega
    rw [List.length_cons, ofLsb, lsb, hmod, hdiv, ih]
    cases b with
    | false => rfl
    | true => rfl

theorem ofLsb_replicate (k : Nat) (bs : List Bool) :
    ofLsb (List.replicate k false ++ bs) = ofLsb bs * 2 ^ k := by
  induction k with
  | zero => rw [Nat.pow_zero, Nat.mul_one]; rfl
  | succ k ih =>
    rw [List.replicate_succ, List.cons_append, ofLsb, ih, Nat.pow_succ, Bool.toNat_false]
    ring_nf

theorem lsb_zero (n : Nat) : lsb n 0 = List.replicate n false := by
  induction n with
  | zero => rfl
  | succ n ih =>
    rw [lsb, Nat.zero_div, ih]
    rfl

/-- The bits of a word turned round, shifted down to the `n` that matter, are the bits
of the number from the most significant one. -/
theorem lsb_reversed {w n v : Nat} (hn : n ≤ w) (hv : v < 2 ^ n) :
    ofLsb (lsb w v).reverse >>> (w - n) < 2 ^ n ∧
      lsb n (ofLsb (lsb w v).reverse >>> (w - n)) = msb n v := by
  have hword : lsb w v = lsb n v ++ List.replicate (w - n) false := by
    have := lsb_add n (w - n) v 0 hv
    rwa [Nat.add_sub_cancel' hn, Nat.zero_mul, Nat.add_zero, lsb_zero] at this
  have hvalue : ofLsb (lsb w v).reverse >>> (w - n) = ofLsb (msb n v) := by
    rw [hword, List.reverse_append, List.reverse_replicate, ofLsb_replicate, Nat.shiftRight_eq_div_pow,
      Nat.mul_div_cancel _ (Nat.two_pow_pos _)]
    rfl
  have hlen := length_msb n v
  have hlt := ofLsb_lt (msb n v)
  have hbits := lsb_ofLsb (msb n v)
  rw [hlen] at hlt hbits
  rw [hvalue]
  exact ⟨hlt, hbits⟩

/-! ## Fields of a number -/

theorem mod_div_pow (w p n : Nat) : w % 2 ^ (p + n) / 2 ^ p = w / 2 ^ p % 2 ^ n := by
  rw [Nat.pow_add, Nat.mod_mul_right_div_self]

theorem mod_pow_mod {w m n : Nat} (h : m ≤ n) : w % 2 ^ n % 2 ^ m = w % 2 ^ m :=
  Nat.mod_mod_of_dvd w (Nat.pow_dvd_pow 2 h)

/-- The `m` bits from `q` on, of the `n` bits from `p` on. -/
theorem field_field {w p n q m : Nat} (h : q + m ≤ n) : w / 2 ^ p % 2 ^ n / 2 ^ q % 2 ^ m = w / 2 ^ (p + q) % 2 ^ m := by
  obtain ⟨k, rfl⟩ := Nat.exists_eq_add_of_le h
  rw [Nat.add_assoc, mod_div_pow, mod_pow_mod (Nat.le_add_right m k), Nat.div_div_eq_div_mul, Nat.pow_add]

/-- The logarithm of a number whose upper part is known. -/
theorem log2_of_div {v t p : Nat} (h : v / 2 ^ p = t) (ht : t ≠ 0) : v.log2 = t.log2 + p := by
  obtain ⟨hlow, hhigh⟩ := (Nat.log2_eq_iff ht).mp rfl
  have hpos := Nat.two_pow_pos p
  have hle : 2 ^ (t.log2 + p) ≤ v := by
    rw [Nat.pow_add]
    exact (Nat.le_div_iff_mul_le hpos).mp (h ▸ hlow)
  have hlt : v < 2 ^ (t.log2 + p + 1) := by
    rw [Nat.add_right_comm, Nat.pow_add]
    exact (Nat.div_lt_iff_lt_mul hpos).mp (h ▸ hhigh)
  have hv : v ≠ 0 := fun hzero => Nat.not_le_of_lt (Nat.two_pow_pos _) (hzero ▸ hle)
  exact (Nat.log2_eq_iff hv).mpr ⟨hle, hlt⟩

/-! ## Bits from the most significant one -/

/-- The bits of a byte string, each byte from its most significant bit. -/
def msbBits (bs : Bytes) : List Bool := bs.flatMap fun b => msb 8 b.toNat

/-- How many zeros stand at the front. -/
def zerosAhead (bs : List Bool) : Nat := (bs.takeWhile (!·)).length

@[simp] theorem msbBits_append (as bs : Bytes) : msbBits (as ++ bs) = msbBits as ++ msbBits bs := List.flatMap_append

@[simp] theorem length_msbBits (bs : Bytes) : (msbBits bs).length = 8 * bs.length := by
  induction bs with
  | nil => rfl
  | cons b bs ih =>
    rw [msbBits, List.flatMap_cons, List.length_append, length_msb, List.length_cons]
    rw [msbBits] at ih
    omega

theorem drop_msbBits (bs : Bytes) (k : Nat) : (msbBits bs).drop (8 * k) = msbBits (bs.drop k) := by
  rcases Nat.le_total k bs.length with hk | hk
  · have hlen : (msbBits (bs.take k)).length = 8 * k := by
      rw [length_msbBits, List.length_take, Nat.min_eq_left hk]
    calc (msbBits bs).drop (8 * k) = (msbBits (bs.take k) ++ msbBits (bs.drop k)).drop (8 * k) := by
          rw [← msbBits_append, List.take_append_drop]
      _ = msbBits (bs.drop k) := List.drop_left' hlen
  · have hall : (msbBits bs).length ≤ 8 * k := by
      rw [length_msbBits]
      omega
    rw [List.drop_eq_nil_of_le hk, List.drop_eq_nil_of_le hall]
    rfl

theorem reverse_msbBits (bs : Bytes) : (msbBits bs).reverse = bitsOf bs.reverse := by
  induction bs with
  | nil => rfl
  | cons b bs ih =>
    rw [List.reverse_cons, bitsOf_append, ← ih, msbBits, List.flatMap_cons, List.reverse_append, msb, List.reverse_reverse]
    simp [msbBits, bitsOf]

theorem lsb_leNat (bs : Bytes) : lsb (8 * bs.length) (leNat bs) = bitsOf bs := by
  induction bs with
  | nil => rfl
  | cons b bs ih =>
    have hb := b.toNat_lt
    have hmod : leNat (b :: bs) % 256 = b.toNat := by
      rw [leNat]
      omega
    have hdiv : leNat (b :: bs) / 256 = leNat bs := by
      rw [leNat]
      omega
    rw [List.length_cons, Nat.mul_succ, Nat.add_comm, lsb_byte, hmod, hdiv, ih]
    rfl

theorem msb_beNat (bs : Bytes) : msb (8 * bs.length) (beNat bs) = msbBits bs := by
  rw [msb, beNat, ← List.length_reverse, lsb_leNat, ← reverse_msbBits, List.reverse_reverse]

theorem ofMsb_lt (bs : List Bool) : ofMsb bs < 2 ^ bs.length := by
  rw [ofMsb, ← List.length_reverse]
  exact ofLsb_lt _

theorem ofMsb_append (as bs : List Bool) : ofMsb (as ++ bs) = ofMsb as * 2 ^ bs.length + ofMsb bs := by
  have hlsb : ∀ xs ys : List Bool, ofLsb (xs ++ ys) = ofLsb xs + ofLsb ys * 2 ^ xs.length := by
    intro xs ys
    induction xs with
    | nil => simp [ofLsb]
    | cons x xs ih =>
      rw [List.cons_append, ofLsb, ih, ofLsb, List.length_cons, Nat.pow_succ]
      ring
  rw [ofMsb, List.reverse_append, hlsb, List.length_reverse, Nat.add_comm]
  rfl

theorem msb_zero (n : Nat) : msb n 0 = List.replicate n false := by
  rw [msb, lsb_zero, List.reverse_replicate]

theorem zerosAhead_replicate (n : Nat) (bs : List Bool) : zerosAhead (List.replicate n false ++ bs) = n + zerosAhead bs := by
  induction n with
  | zero => rw [Nat.zero_add]; rfl
  | succ n ih =>
    rw [List.replicate_succ, List.cons_append, zerosAhead, List.takeWhile_cons, if_pos (by rfl), List.length_cons]
    rw [zerosAhead] at ih
    omega

/-- The zeros in front of the first one bit of a number. -/
theorem zerosAhead_msb {n v : Nat} (hv : v < 2 ^ n) (hone : v ≠ 0) (bs : List Bool) : zerosAhead (msb n v ++ bs) = n - 1 - v.log2 := by
  have hlog : v.log2 < n := (Nat.log2_lt hone).mpr hv
  have hlow := Nat.log2_self_le hone
  have hhigh := @Nat.lt_log2_self v
  have hfirst : v / 2 ^ v.log2 = 1 := by
    rw [Nat.div_eq_iff (Nat.two_pow_pos _)]
    rw [Nat.pow_succ] at hhigh
    omega
  have hzeros : v / 2 ^ (1 + v.log2) = 0 := by
    rw [Nat.add_comm]
    exact Nat.div_eq_of_lt hhigh
  have hn : n = n - 1 - v.log2 + (1 + v.log2) := by omega
  have hmod : v % 2 ^ (1 + v.log2) = v := by
    rw [Nat.add_comm]
    exact Nat.mod_eq_of_lt hhigh
  rw [hn, msb_add, hzeros, msb_zero, hmod, msb_add 1, hfirst, List.append_assoc, zerosAhead_replicate]
  have hone : msb 1 1 = [true] := rfl
  rw [hone, zerosAhead, List.append_assoc, List.singleton_append, List.takeWhile_cons, if_neg (by decide), List.length_nil]
  omega

end OmtClient.Lib
