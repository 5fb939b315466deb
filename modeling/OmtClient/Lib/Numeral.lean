import Mathlib.Data.List.Induction
import OmtClient.Lib.Bytes

/-!
# Numerals

Numbers written as digits in a radix up to sixteen: `toDigit` reads one digit in
either case, `numeral` writes a number in lower case with no leading zero.

1. `value_numeral`: a written number reads back as itself.
2. `numeral_value`: digits that do not start with a zero are the numeral of their
   value.
3. `length_numeral_le`: how long a numeral is.
-/

namespace OmtClient.Lib

/-- `char::to_digit`, in a radix up to sixteen. -/
def toDigit (radix : Nat) (b : Byte) : Option Nat :=
  let v :=
    if 48 ≤ b ∧ b ≤ 57 then b.toNat - 48
    else if 97 ≤ b ∧ b ≤ 102 then b.toNat - 87
    else if 65 ≤ b ∧ b ≤ 70 then b.toNat - 55
    else 16
  if v < radix then some v else none

/-- The digit of a number below sixteen. -/
def ofDigit (d : Nat) : Byte := UInt8.ofNat d.digitChar.toNat

/-- The number that `v` and then these digits denote. -/
def valueFrom (radix : Nat) (v : Nat) (bs : Bytes) : Option Nat :=
  bs.foldlM (fun v b => (toDigit radix b).map (v * radix + ·)) v

/-- A number in digits, as `{}` and `{:x}` write it. -/
def numeral (radix n : Nat) : Bytes := (Nat.toDigits radix n).map fun c => UInt8.ofNat c.toNat

variable {radix n v : Nat} {bs : Bytes}

@[simp] theorem valueFrom_nil : valueFrom radix v [] = some v := rfl

theorem valueFrom_cons (b : Byte) :
    valueFrom radix v (b :: bs) =
      (toDigit radix b).bind fun d => valueFrom radix (v * radix + d) bs := by
  cases h : toDigit radix b with
  | none => simp [valueFrom, h]
  | some d => simp [valueFrom, h]

theorem valueFrom_append (as bs : Bytes) :
    valueFrom radix v (as ++ bs) = (valueFrom radix v as).bind fun u => valueFrom radix u bs := by
  induction as generalizing v with
  | nil => rfl
  | cons a as ih =>
    rw [List.cons_append, valueFrom_cons, valueFrom_cons]
    cases toDigit radix a with
    | none => rfl
    | some d => exact ih

/-- A digit adds to the number before it. -/
theorem valueFrom_snoc {u d : Nat} {b : Byte} (h : valueFrom radix v bs = some u)
    (hd : toDigit radix b = some d) : valueFrom radix v (bs ++ [b]) = some (u * radix + d) := by
  rw [valueFrom_append, h, Option.bind_some, valueFrom_cons, hd]
  rfl

theorem toDigit_lt {b : Byte} {d : Nat} (h : toDigit radix b = some d) : d < radix := by
  unfold toDigit at h
  dsimp only at h
  obtain ⟨hlt, heq⟩ := Option.ite_none_right_eq_some.mp h
  exact Option.some.inj heq ▸ hlt

theorem toDigit_ofDigit (hradix : radix ≤ 16) (h : n < radix) : toDigit radix (ofDigit n) = some n := by
  have hall : ∀ radix, radix ≤ 16 → ∀ n, n < radix → toDigit radix (ofDigit n) = some n := by decide
  exact hall radix hradix n h

theorem numeral_of_lt (h : n < radix) : numeral radix n = [ofDigit n] := by
  rw [numeral, Nat.toDigits_of_lt_base h]
  rfl

theorem numeral_snoc (hradix : 1 < radix) {d : Nat} (hn : 0 < n) (hd : d < radix) :
    numeral radix (n * radix + d) = numeral radix n ++ [ofDigit d] := by
  rw [numeral, Nat.mul_comm, ← Nat.toDigits_append_toDigits hradix hn hd, List.map_append,
    Nat.toDigits_of_lt_base hd]
  rfl

/-- A number is its last digit after the number before it. -/
theorem numeral_induction {P : Nat → Prop} (hradix : 1 < radix) (hone : ∀ d, d < radix → P d)
    (hsnoc : ∀ n d, 0 < n → d < radix → P n → P (n * radix + d)) (n : Nat) : P n := by
  induction n using Nat.strongRecOn with
  | ind n ih =>
    rcases Nat.lt_or_ge n radix with hlt | hge
    · exact hone n hlt
    · have hpos : 0 < n / radix := Nat.div_pos hge (Nat.lt_trans Nat.zero_lt_one hradix)
      have hless : n / radix < n := Nat.div_lt_self (Nat.lt_of_lt_of_le (by omega) hge) hradix
      have hmod : n % radix < radix := Nat.mod_lt _ (by omega)
      have := hsnoc _ _ hpos hmod (ih _ hless)
      rwa [Nat.mul_comm, Nat.div_add_mod] at this

theorem numeral_ne_nil : numeral radix n ≠ [] := by
  rw [numeral, ne_eq, List.map_eq_nil_iff]
  exact Nat.toDigits_ne_nil

/-- A written number reads back as itself. -/
theorem value_numeral (hradix : 1 < radix) (hsixteen : radix ≤ 16) (n : Nat) :
    valueFrom radix 0 (numeral radix n) = some n := by
  induction n using numeral_induction hradix with
  | hone d hd =>
    rw [numeral_of_lt hd, valueFrom_cons, toDigit_ofDigit hsixteen hd]
    simp
  | hsnoc n d hn hd ih =>
    rw [numeral_snoc hradix hn hd]
    exact valueFrom_snoc ih (toDigit_ofDigit hsixteen hd)

/-- How long a numeral is. -/
theorem length_numeral_le {k : Nat} (hradix : 1 < radix) (hk : 0 < k) :
    (numeral radix n).length ≤ k ↔ n < radix ^ k := by
  rw [numeral, List.length_map, Nat.length_toDigits_le_iff hradix hk]

/-- The bytes of a numeral are digits of the radix. -/
theorem mem_numeral (hradix : 1 < radix) (n : Nat) :
    ∀ b ∈ numeral radix n, ∃ d, d < radix ∧ b = ofDigit d := by
  induction n using numeral_induction hradix with
  | hone d hd =>
    intro b hb
    rw [numeral_of_lt hd, List.mem_singleton] at hb
    exact ⟨d, hd, hb⟩
  | hsnoc n d hn hd ih =>
    intro b hb
    rw [numeral_snoc hradix hn hd, List.mem_append, List.mem_singleton] at hb
    rcases hb with hb | hb
    · exact ih b hb
    · exact ⟨d, hd, hb⟩

/-! ## Decimal digits -/

/-- `u8::is_ascii_digit`. -/
def isAsciiDigit (b : Byte) : Bool := 48 ≤ b && b ≤ 57

/-- The number that decimal digits denote. -/
def decimal (bs : Bytes) : Nat := bs.foldl (fun v b => v * 10 + (b.toNat - 48)) 0

theorem ofDigit_decimal {b : Byte} (h : isAsciiDigit b = true) : ofDigit (b.toNat - 48) = b := by
  have hall : ∀ n, n < 256 → isAsciiDigit (UInt8.ofNat n) = true →
      ofDigit ((UInt8.ofNat n).toNat - 48) = UInt8.ofNat n := by decide +kernel
  have := hall b.toNat b.toNat_lt
  rw [UInt8.ofNat_toNat] at this
  exact this h

theorem digit_lt_ten {b : Byte} (h : isAsciiDigit b = true) : b.toNat - 48 < 10 := by
  simp only [isAsciiDigit, Bool.and_eq_true, decide_eq_true_eq, UInt8.le_iff_toNat_le] at h
  have : b.toNat ≤ 57 := h.2
  omega

theorem decimal_append (as : Bytes) (b : Byte) :
    decimal (as ++ [b]) = decimal as * 10 + (b.toNat - 48) := by
  rw [decimal, List.foldl_append]
  rfl

theorem decimal_pos {b : Byte} {bs : Bytes} (h : isAsciiDigit b = true) (hne : b ≠ 48) :
    0 < decimal (b :: bs) := by
  have hb : 0 < b.toNat - 48 := by
    simp only [isAsciiDigit, Bool.and_eq_true, decide_eq_true_eq, UInt8.le_iff_toNat_le] at h
    have hle : 48 ≤ b.toNat := h.1
    have : b.toNat ≠ 48 := fun heq => hne (UInt8.toNat_inj.mp heq)
    omega
  have hfold (v : Nat) (hv : 0 < v) : 0 < bs.foldl (fun v b => v * 10 + (b.toNat - 48)) v := by
    induction bs generalizing v with
    | nil => exact hv
    | cons c bs ih => exact ih _ (Nat.lt_of_lt_of_le (Nat.mul_pos hv (by decide)) (Nat.le_add_right _ _))
  rw [decimal, List.foldl_cons]
  exact hfold _ (Nat.lt_of_lt_of_le hb (Nat.le_add_left _ _))

/-- Digits that do not start with a zero are the numeral of their value. -/
theorem numeral_decimal (hall : bs.all isAsciiDigit = true) (hne : bs ≠ [])
    (hzero : bs.head? ≠ some 48) : numeral 10 (decimal bs) = bs := by
  induction bs using List.reverseRecOn with
  | nil => exact absurd rfl hne
  | append_singleton bs b ih =>
    rw [List.all_append, Bool.and_eq_true] at hall
    have hb : isAsciiDigit b = true := by simpa using hall.2
    rw [decimal_append]
    cases bs with
    | nil =>
      have hlt := digit_lt_ten hb
      rw [show decimal [] = 0 from rfl, Nat.zero_mul, Nat.zero_add, numeral_of_lt hlt,
        ofDigit_decimal hb]
      rfl
    | cons c cs =>
      have hc : isAsciiDigit c = true := by
        have := hall.1
        rw [List.all_cons, Bool.and_eq_true] at this
        exact this.1
      have hc48 : c ≠ 48 := fun heq => hzero (by rw [heq]; rfl)
      rw [numeral_snoc (by decide) (decimal_pos hc hc48) (digit_lt_ten hb), ofDigit_decimal hb,
        ih hall.1 nofun (fun h => hc48 (Option.some.inj h))]

/-- Digits up to some length denote a number up to that power of ten. -/
theorem decimal_lt (hall : bs.all isAsciiDigit = true) : decimal bs < 10 ^ bs.length := by
  induction bs using List.reverseRecOn with
  | nil => exact Nat.zero_lt_one
  | append_singleton bs b ih =>
    rw [List.all_append, Bool.and_eq_true] at hall
    have hb := digit_lt_ten (b := b) (by simpa using hall.2)
    have hbs := ih hall.1
    rw [decimal_append, List.length_append, List.length_singleton, Nat.pow_succ]
    omega

/-- A digit string that does not start with a zero has as many digits as its value. -/
theorem le_decimal (hall : bs.all isAsciiDigit = true) (hne : bs ≠ []) (hzero : bs.head? ≠ some 48)
    {k : Nat} (hk : 0 < k) : bs.length ≤ k ↔ decimal bs < 10 ^ k := by
  rw [← length_numeral_le (by decide) hk, numeral_decimal hall hne hzero]

theorem isAsciiDigit_ofDigit {d : Nat} (h : d < 10) : isAsciiDigit (ofDigit d) = true := by
  have hall : ∀ d, d < 10 → isAsciiDigit (ofDigit d) = true := by decide
  exact hall d h

theorem isAsciiDigit_numeral (n : Nat) : ∀ b ∈ numeral 10 n, isAsciiDigit b = true := by
  intro b hb
  obtain ⟨d, hd, rfl⟩ := mem_numeral (by decide) n b hb
  exact isAsciiDigit_ofDigit hd

/-- A written number denotes itself. -/
theorem decimal_numeral (n : Nat) : decimal (numeral 10 n) = n := by
  have hdigit : ∀ d, d < 10 → (ofDigit d).toNat - 48 = d := by decide
  induction n using (@numeral_induction 10) (by decide) with
  | hone d hd =>
    rw [numeral_of_lt hd]
    show 0 * 10 + ((ofDigit d).toNat - 48) = d
    rw [hdigit d hd, Nat.zero_mul, Nat.zero_add]
  | hsnoc n d hn hd ih => rw [numeral_snoc (by decide) hn hd, decimal_append, ih, hdigit d hd]

/-- A numeral starts with a zero only when it is one. -/
theorem numeral_head (hn : 0 < n) : (numeral 10 n).head? ≠ some 48 := by
  have hdigit : ∀ d, d < 10 → 0 < d → ofDigit d ≠ 48 := by decide
  induction n using (@numeral_induction 10) (by decide) with
  | hone d hd =>
    rw [numeral_of_lt hd]
    exact fun h => hdigit d hd hn (Option.some.inj h)
  | hsnoc n d hpos hd ih =>
    rw [numeral_snoc (by decide) hpos hd, List.head?_append_of_ne_nil _ numeral_ne_nil]
    exact ih hpos

/-- `str::parse` to an unsigned integer: digits with an optional leading plus. -/
def parseUnsigned (max : Nat) (s : Bytes) : Option Nat :=
  let ds := if s.head? = some 43 then s.drop 1 else s
  if ds ≠ [] ∧ ds.all isAsciiDigit = true ∧ decimal ds ≤ max then some (decimal ds) else none

theorem parseUnsigned_digits {max : Nat} (hne : bs ≠ []) (hall : bs.all isAsciiDigit = true)
    (hmax : decimal bs ≤ max) : parseUnsigned max bs = some (decimal bs) := by
  have hplus : bs.head? ≠ some 43 := by
    cases bs with
    | nil => nofun
    | cons b bs =>
      rw [List.all_cons, Bool.and_eq_true] at hall
      intro h
      cases Option.some.inj h
      exact nomatch hall.1
  rw [parseUnsigned, if_neg hplus]
  exact if_pos ⟨hne, hall, hmax⟩

end OmtClient.Lib
