import Mathlib.Algebra.Order.Field.Rat
import Mathlib.Tactic.FieldSimp
import Mathlib.Tactic.Ring
import OmtClient.Common.JsonGrammar
import OmtClient.Lib.Text

/-!
# Floating-point numbers in JSON

`write_json_f64` of `crates/omt-common/src/text.rs`, which takes the shortest digits of a double from
its scientific notation and lays them out with a point of its own.

1. `jsonF64_exact`: what is written is a number of the grammar and the value of the digits.
-/

namespace OmtClient.Common.Text

open OmtClient.Lib Json

/-! ## The writer -/

/-- The shortest digits that denote a double, which has at most 17 of them, and the exponent of the
first, which is between -324 and 308. -/
structure Shortest where
  negative : Bool
  digits : Bytes
  exponent : Int
  digits_eq : digits ≠ [] ∧ digits.all isDigit = true ∧ digits.head? ≠ some 48
  short : digits.length < 2 ^ 63
  range : -2 ^ 63 ≤ exponent ∧ exponent + 1 < 2 ^ 63

inductive F64
  | nonFinite
  | zero (negative : Bool)
  | nonzero (v : Shortest)

/-- An `i64` as `{}` writes it. -/
def displayInt (i : Int) : Bytes := (if i < 0 then [45] else []) ++ numeral 10 i.natAbs

/-- `{:e}`. -/
def Shortest.lowerExp (v : Shortest) : Bytes :=
  (if v.negative then [45] else []) ++ v.digits.take 1 ++ (if 1 < v.digits.length then 46 :: v.digits.drop 1 else []) ++
    101 :: displayInt v.exponent

/-- The number of some digits behind a sign, if it is an `i64`. -/
def signedDigits (negative : Bool) (digits : Bytes) : Option Int :=
  if digits = [] ∨ digits.all isDigit = false then none
  else
    let i : Int := if negative then -(decimal digits : Int) else decimal digits
    if -2 ^ 63 ≤ i ∧ i < 2 ^ 63 then some i else none

/-- `str::parse::<i64>`. -/
def parseI64 : Bytes → Option Int
  | 45 :: digits => signedDigits true digits
  | 43 :: digits => signedDigits false digits
  | digits => signedDigits false digits

/-- `i64::saturating_add` and `i64::saturating_sub`. -/
def saturateI64 (i : Int) : Int := max (-2 ^ 63) (min i (2 ^ 63 - 1))

/-- The digits with the point before the one at `kk`. -/
def writeDigits (digits : Bytes) (kk : Int) : Bytes :=
  let nd : Int := min (digits.length : Int) (2 ^ 63 - 1)
  if nd ≤ kk ∧ kk ≤ 16 then digits ++ List.replicate (kk - nd).toNat 48 ++ [46, 48]
  else if 0 < kk ∧ kk ≤ 16 then digits.take kk.toNat ++ 46 :: digits.drop kk.toNat
  else if -5 < kk ∧ kk ≤ 0 then [48, 46] ++ List.replicate (-kk).toNat 48 ++ digits
  else
    digits.take 1 ++ (if digits.drop 1 ≠ [] then 46 :: digits.drop 1 else []) ++ 101 :: displayInt (saturateI64 (kk - 1))

/-- `write_json_f64`. -/
def writeJsonF64 : F64 → Bytes
  | .nonFinite => utf8 "null"
  | .zero negative => if negative then utf8 "-0.0" else utf8 "0.0"
  | .nonzero v =>
    let sci := v.lowerExp
    let (mantissa, exponent) := (splitOnce 101 sci).getD (sci, utf8 "0")
    let (negative, mantissa) := match stripPrefix [45] mantissa with
      | some rest => (true, rest)
      | none => (false, mantissa)
    let digits := mantissa.filter isDigit
    let kk := saturateI64 ((parseI64 exponent).getD 0 + 1)
    (if negative then [45] else []) ++ writeDigits digits kk

/-! ## Values -/

/-- The decimal value of the digits. -/
def Shortest.value (v : Shortest) : ℚ :=
  (if v.negative then -1 else 1) * (decimal v.digits * 10 ^ (v.exponent + 1 - v.digits.length))

end OmtClient.Common.Text

namespace OmtClient.Common.Json

open OmtClient.Lib

def Exponent.value (e : Exponent) : Int := if e.sign = some 45 then -(decimal e.digits : Int) else decimal e.digits

/-- The value of a number in decimal notation. -/
def Literal.value (t : Literal) : ℚ :=
  (if t.negative then -1 else 1) *
    ((decimal t.whole + decimal (t.frac.getD []) / 10 ^ (t.frac.getD []).length) * 10 ^ (t.expo.elim 0 Exponent.value))

end OmtClient.Common.Json

namespace OmtClient.Common.Text

open OmtClient.Lib Json

namespace JsonFloatLemmas

variable {as bs ds : Bytes} {i : Int}

/-! ### Digits -/

theorem decimal_from (as : Bytes) (v : Nat) :
    as.foldl (fun v b => v * 10 + (b.toNat - 48)) v = v * 10 ^ as.length + decimal as := by
  induction as using List.reverseRecOn with
  | nil => exact (Nat.mul_one v).symm
  | append_singleton as b ih =>
    rw [decimal, List.foldl_append, List.foldl_append, ih, ← decimal, List.length_append, List.length_singleton, pow_succ]
    simp only [List.foldl_cons, List.foldl_nil]
    ring

theorem decimal_append (as bs : Bytes) : decimal (as ++ bs) = decimal as * 10 ^ bs.length + decimal bs := by
  rw [decimal, List.foldl_append, ← decimal, decimal_from]

theorem decimal_zeros (n : Nat) : decimal (List.replicate n 48) = 0 := by
  induction n with
  | zero => rfl
  | succ n ih => rw [List.replicate_succ', decimal_append, ih, Nat.zero_mul]; rfl

theorem all_zeros (n : Nat) : (List.replicate n 48).all isDigit = true := by
  refine List.all_eq_true.mpr fun b hb => ?_
  rw [List.eq_of_mem_replicate hb]
  rfl

theorem numeral_digits (n : Nat) : IsDigits (numeral 10 n) :=
  ⟨numeral_ne_nil, List.all_eq_true.mpr fun b hb => isAsciiDigit_numeral n b hb⟩

/-! ### The exponent -/

theorem digit_sign {b : Byte} (h : isDigit b = true) : b ≠ 45 ∧ b ≠ 43 ∧ b ≠ 46 ∧ b ≠ 101 := by
  refine ⟨?_, ?_, ?_, ?_⟩ <;> rintro rfl <;> revert h <;> decide

theorem head_digit (h : IsDigits ds) : ∃ d rest, ds = d :: rest ∧ isDigit d = true := by
  obtain ⟨hne, hall⟩ := h
  cases ds with
  | nil => exact absurd rfl hne
  | cons d rest => exact ⟨d, rest, rfl, List.all_eq_true.mp hall d List.mem_cons_self⟩

theorem signedDigits_numeral (negative : Bool) (n : Nat)
    (h : -2 ^ 63 ≤ (if negative then -(n : Int) else n) ∧ (if negative then -(n : Int) else n) < 2 ^ 63) :
    signedDigits negative (numeral 10 n) = some (if negative then -(n : Int) else n) := by
  obtain ⟨hne, hall⟩ := numeral_digits n
  have hvalue : decimal (numeral 10 n) = n := decimal_numeral n
  rw [signedDigits, if_neg (not_or.mpr ⟨hne, by rw [hall]; decide⟩), hvalue]
  exact if_pos h

theorem parseI64_plain {d : Byte} (hminus : d ≠ 45) (hplus : d ≠ 43) : parseI64 (d :: ds) = signedDigits false (d :: ds) := by
  rw [parseI64]
  · exact fun _ h => hminus (List.cons.inj h).1
  · exact fun _ h => hplus (List.cons.inj h).1

theorem parseI64_display (h : -2 ^ 63 ≤ i ∧ i < 2 ^ 63) : parseI64 (displayInt i) = some i := by
  rw [displayInt]
  split
  next hneg =>
    have habs : (if true then -(i.natAbs : Int) else i.natAbs) = i := by
      rw [if_pos rfl]
      omega
    have hread := signedDigits_numeral true i.natAbs (by rwa [habs])
    rwa [habs] at hread
  next hpos =>
    have habs : (if false then -(i.natAbs : Int) else i.natAbs) = i := by
      rw [if_neg Bool.false_ne_true]
      omega
    have hread := signedDigits_numeral false i.natAbs (by rwa [habs])
    rw [habs] at hread
    obtain ⟨d, rest, hcons, hd⟩ := head_digit (numeral_digits i.natAbs)
    obtain ⟨hminus, hplus, _, _⟩ := digit_sign hd
    rw [List.nil_append, hcons, parseI64_plain hminus hplus, ← hcons, hread]

/-! ### The scientific notation -/

/-- The digits with a point behind the first. -/
def pointed (ds : Bytes) : Bytes := ds.take 1 ++ (if 1 < ds.length then 46 :: ds.drop 1 else [])

theorem pointed_mem {b : Byte} (hall : ds.all isDigit = true) (h : b ∈ pointed ds) : b = 46 ∨ isDigit b = true := by
  have hdigit : ∀ c ∈ ds, isDigit c = true := List.all_eq_true.mp hall
  rcases List.mem_append.mp h with h | h
  · exact .inr (hdigit b (List.mem_of_mem_take h))
  · split at h
    · rcases List.mem_cons.mp h with h | h
      · exact .inl h
      · exact .inr (hdigit b (List.mem_of_mem_drop h))
    · cases h

theorem pointed_digits (hall : ds.all isDigit = true) : (pointed ds).filter isDigit = ds := by
  have hdigit : ∀ c ∈ ds, isDigit c = true := List.all_eq_true.mp hall
  have hfirst : (ds.take 1).filter isDigit = ds.take 1 :=
    List.filter_eq_self.mpr fun c hc => hdigit c (List.mem_of_mem_take hc)
  have hrest : (ds.drop 1).filter isDigit = ds.drop 1 :=
    List.filter_eq_self.mpr fun c hc => hdigit c (List.mem_of_mem_drop hc)
  rw [pointed, List.filter_append, hfirst]
  split
  · rw [List.filter_cons_of_neg (by decide), hrest, List.take_append_drop]
  next hshort =>
    have hnil : ds.drop 1 = [] := List.drop_eq_nil_of_le (Nat.not_lt.mp hshort)
    rw [List.filter_nil, ← hnil, List.take_append_drop]

theorem saturateI64_eq (h : -2 ^ 63 ≤ i ∧ i < 2 ^ 63) : saturateI64 i = i := by
  unfold saturateI64
  omega

/-- The parts of the scientific notation are found again. -/
theorem writeJsonF64_nonzero (v : Shortest) :
    writeJsonF64 (.nonzero v) = (if v.negative then [45] else []) ++ writeDigits v.digits (v.exponent + 1) := by
  obtain ⟨-, hall, -⟩ := v.digits_eq
  obtain ⟨hlow, hhigh⟩ := v.range
  have hsci : v.lowerExp = ((if v.negative then [45] else []) ++ pointed v.digits) ++ 101 :: displayInt v.exponent := by
    rw [Shortest.lowerExp, pointed, List.append_assoc (if v.negative then [45] else [])]
  have hmark : (101 : Byte) ∉ (if v.negative then [45] else []) ++ pointed v.digits := by
    intro h
    rcases List.mem_append.mp h with h | h
    · split at h
      · revert h
        decide
      · cases h
    · rcases pointed_mem hall h with h | h
      · revert h
        decide
      · exact (digit_sign h).2.2.2 rfl
  have hexponent : saturateI64 ((parseI64 (displayInt v.exponent)).getD 0 + 1) = v.exponent + 1 := by
    rw [parseI64_display ⟨hlow, by omega⟩, Option.getD_some, saturateI64_eq ⟨by omega, hhigh⟩]
  unfold writeJsonF64
  dsimp only
  rw [hsci, splitOnce_append hmark, Option.getD_some]
  dsimp only
  rw [hexponent]
  cases v.negative with
  | true =>
    rw [if_pos rfl, stripPrefix_append]
    dsimp only
    rw [if_pos rfl, pointed_digits hall]
  | false =>
    have hplain : stripPrefix [45] (pointed v.digits) = none := by
      refine Option.eq_none_iff_forall_ne_some.mpr fun rest hrest => ?_
      have hminus : (45 : Byte) ∈ pointed v.digits := by
        rw [stripPrefix_eq_some.mp hrest]
        exact List.mem_cons_self
      rcases pointed_mem hall hminus with h | h
      · revert h
        decide
      · exact (digit_sign h).1 rfl
    rw [if_neg Bool.false_ne_true, List.nil_append, hplain]
    dsimp only
    rw [if_neg Bool.false_ne_true, pointed_digits hall]

/-! ### The layouts -/

/-- A point divides by the power of ten of the digits behind it. -/
theorem point_value (whole frac : Bytes) :
    ((decimal whole : ℚ) + decimal frac / 10 ^ frac.length) = decimal (whole ++ frac) * 10 ^ (-(frac.length : Int)) := by
  rw [decimal_append, zpow_neg, zpow_natCast]
  push_cast
  field_simp

theorem isInt_digits_append (ha : ds ≠ [] ∧ ds.all isDigit = true ∧ ds.head? ≠ some 48) (hb : bs.all isDigit = true) :
    IsInt (ds ++ bs) := by
  obtain ⟨hne, hall, hhead⟩ := ha
  refine .inr ⟨fun h => hne (List.append_eq_nil_iff.mp h).1, by rw [List.all_append, hall, hb]; rfl, ?_⟩
  rwa [List.head?_append_of_ne_nil _ hne]

/-- A number of the grammar with these digits. -/
def Written (digits : Bytes) (kk : Int) (out : Bytes) (negative : Bool) : Prop :=
  ∃ t : Literal, t.negative = negative ∧ t.bytes = (if negative then [45] else []) ++ out ∧ t.integer = false ∧
    t.value = (if negative then -1 else 1) * (decimal digits * 10 ^ (kk - digits.length))

theorem written_of {digits out : Bytes} {kk : Int} {negative : Bool} (whole : Bytes) (frac : Option Bytes) (expo : Option Exponent)
    (hwhole : IsInt whole) (hfrac : ∀ ds, frac = some ds → IsDigits ds) (hfloat : frac.isNone = false ∨ expo.isNone = false)
    (hout : whole ++ ((frac.map (46 :: ·)).getD [] ++ (expo.map Exponent.bytes).getD []) = out)
    (hvalue : (decimal (whole ++ frac.getD []) : ℚ) * 10 ^ (-((frac.getD []).length : Int)) * 10 ^ (expo.elim 0 Exponent.value) =
      decimal digits * 10 ^ (kk - digits.length)) :
    Written digits kk out negative := by
  refine ⟨⟨negative, whole, frac, expo, hwhole, hfrac⟩, rfl, ?_, ?_, ?_⟩
  · rw [← hout, Literal.bytes, List.append_assoc]
    rfl
  · rcases hfloat with h | h
    · exact Bool.and_eq_false_imp.mpr fun h' => absurd h' (by rw [h]; decide)
    · rw [Literal.integer, Bool.and_comm]
      exact Bool.and_eq_false_imp.mpr fun h' => absurd h' (by rw [h]; decide)
  · rw [Literal.value]
    dsimp only
    rw [point_value, hvalue]

/-- An exponent as it is written. -/
def exponentOf (i : Int) : Exponent where
  mark := 101
  sign := if i < 0 then some 45 else none
  digits := numeral 10 i.natAbs
  mark_eq := .inl rfl
  sign_eq := by
    intro s hs
    exact .inr (Option.some.inj (Option.ite_none_right_eq_some.mp hs).2).symm
  digits_eq := numeral_digits _

theorem exponentOf_bytes (i : Int) : (exponentOf i).bytes = 101 :: displayInt i := by
  unfold Exponent.bytes displayInt exponentOf
  split <;> rfl

theorem exponentOf_value (i : Int) : (exponentOf i).value = i := by
  have hvalue : decimal (exponentOf i).digits = i.natAbs := decimal_numeral _
  have hsign : (exponentOf i).sign = some 45 ↔ i < 0 :=
    ⟨fun h => (Option.ite_none_right_eq_some.mp h).1, fun h => if_pos h⟩
  rw [Exponent.value, hvalue]
  by_cases hneg : i < 0
  · rw [if_pos (hsign.mpr hneg)]
    omega
  · rw [if_neg fun h => hneg (hsign.mp h)]
    omega

theorem written_digits {digits : Bytes} {kk : Int} (negative : Bool)
    (hdigits : digits ≠ [] ∧ digits.all isDigit = true ∧ digits.head? ≠ some 48) (hshort : digits.length < 2 ^ 63)
    (hrange : -2 ^ 63 < kk ∧ kk < 2 ^ 63) : Written digits kk (writeDigits digits kk) negative := by
  obtain ⟨hne, hall, hhead⟩ := hdigits
  have hdigit : ∀ c ∈ digits, isDigit c = true := List.all_eq_true.mp hall
  have hpos : 0 < digits.length := List.length_pos_of_ne_nil hne
  have hnd : min (digits.length : Int) (2 ^ 63 - 1) = digits.length := by omega
  rw [writeDigits, hnd]
  split
  next h =>
    -- zeros behind the digits, up to the point
    obtain ⟨n, hn⟩ := Int.eq_ofNat_of_zero_le (Int.sub_nonneg_of_le h.1)
    rw [hn, Int.toNat_natCast]
    refine written_of (digits ++ List.replicate n 48) (some [48]) none
      (isInt_digits_append ⟨hne, hall, hhead⟩ (all_zeros n)) ?_ (.inl rfl) ?_ ?_
    · rintro _ ⟨⟩
      exact ⟨List.cons_ne_nil _ _, rfl⟩
    · rfl
    · have hzero : decimal [48] = 0 := rfl
      rw [Option.getD_some, decimal_append, decimal_append, decimal_zeros, hzero, List.length_replicate, List.length_singleton]
      push_cast
      simp only [Option.elim_none, zpow_zero, mul_one, add_zero]
      rw [zpow_neg, zpow_one, mul_assoc, mul_inv_cancel₀ (by norm_num), mul_one, hn, zpow_natCast]
  next hlong =>
    split
    next h =>
      -- a point between the digits
      obtain ⟨k, rfl⟩ := Int.eq_ofNat_of_zero_le (Int.le_of_lt h.1)
      rw [Int.toNat_natCast]
      have hk : 0 < k := by omega
      have hlt : k < digits.length := by omega
      refine written_of (digits.take k) (some (digits.drop k)) none ?_ ?_ (.inl rfl) (List.append_nil _ ▸ rfl) ?_
      · refine .inr ⟨?_, ?_, ?_⟩
        · exact fun hnil => by simp [hk.ne', hne] at hnil
        · exact List.all_eq_true.mpr fun c hc => hdigit c (List.mem_of_mem_take hc)
        · rwa [List.head?_take, if_neg hk.ne']
      · rintro _ ⟨⟩
        refine ⟨fun hnil => ?_, List.all_eq_true.mpr fun c hc => hdigit c (List.mem_of_mem_drop hc)⟩
        exact absurd (List.drop_eq_nil_iff.mp hnil) (Nat.not_le.mpr hlt)
      · rw [Option.getD_some, List.take_append_drop, List.length_drop, Option.elim_none, zpow_zero, mul_one]
        congr 2
        omega
    next hsplit =>
      split
      next h =>
        -- zeros between the point and the digits
        obtain ⟨n, hn⟩ := Int.eq_ofNat_of_zero_le (Int.neg_nonneg_of_nonpos h.2)
        rw [hn, Int.toNat_natCast]
        refine written_of [48] (some (List.replicate n 48 ++ digits)) none (.inl rfl) ?_ (.inl rfl) ?_ ?_
        · rintro _ ⟨⟩
          refine ⟨fun hnil => hne (List.append_eq_nil_iff.mp hnil).2, ?_⟩
          rw [List.all_append, all_zeros, hall]
          rfl
        · rw [Option.map_some, Option.getD_some, Option.map_none, Option.getD_none, List.append_nil]
          rfl
        · have hzero : decimal [48] = 0 := rfl
          rw [Option.getD_some, decimal_append, decimal_append, decimal_zeros, hzero, Nat.zero_mul, Nat.zero_mul, Nat.zero_add,
            Nat.zero_add, Option.elim_none, zpow_zero, mul_one, List.length_append, List.length_replicate]
          congr 2
          push_cast
          omega
      next hsmall =>
        -- an exponent behind the digits
        obtain ⟨d, rest, rfl, hd⟩ := head_digit ⟨hne, hall⟩
        rw [saturateI64_eq (by omega), ← exponentOf_bytes, List.take_one, List.head?_cons, Option.toList_some, List.drop_one,
          List.tail_cons]
        have hwhole : IsInt [d] := .inr ⟨List.cons_ne_nil _ _, by rw [List.all_cons, hd]; rfl, by simpa using hhead⟩
        have hvalue (frac : Bytes) (hfrac : frac = rest) :
            (decimal ([d] ++ frac) : ℚ) * 10 ^ (-(frac.length : Int)) * 10 ^ (kk - 1) =
              decimal (d :: rest) * 10 ^ (kk - ((d :: rest).length : Int)) := by
          have hsum : -(rest.length : Int) + (kk - 1) = kk - ((d :: rest).length : Int) := by
            rw [List.length_cons]
            omega
          rw [hfrac, List.singleton_append, mul_assoc, ← zpow_add₀ (by norm_num), hsum]
        by_cases hrest : rest = []
        · refine written_of [d] none (some (exponentOf (kk - 1))) hwhole (by rintro _ ⟨⟩) (.inr rfl) ?_ ?_
          · rw [if_neg (not_not.mpr hrest)]
            rfl
          · rw [Option.getD_none, Option.elim_some, exponentOf_value]
            exact hvalue [] hrest.symm
        · refine written_of [d] (some rest) (some (exponentOf (kk - 1))) hwhole ?_ (.inl rfl) ?_ ?_
          · rintro _ ⟨⟩
            exact ⟨hrest, List.all_eq_true.mpr fun c hc => hdigit c (List.mem_cons_of_mem d hc)⟩
          · rw [if_pos hrest]
            rfl
          · rw [Option.getD_some, Option.elim_some, exponentOf_value]
            exact hvalue rest rfl

end JsonFloatLemmas

open JsonFloatLemmas

/-- A double that is finite and not zero is written as a number of the grammar with the value of its
shortest digits, and with a fraction or an exponent. -/
theorem jsonF64_exact (v : Shortest) :
    ∃ t : Literal, t.bytes = writeJsonF64 (.nonzero v) ∧ t.value = v.value ∧ (t.frac.isSome ∨ t.expo.isSome) := by
  obtain ⟨hlow, hhigh⟩ := v.range
  obtain ⟨t, _, hbytes, hfloat, hvalue⟩ := written_digits v.negative v.digits_eq v.short ⟨by omega, hhigh⟩
  refine ⟨t, hbytes.trans (writeJsonF64_nonzero v).symm, hvalue, ?_⟩
  rw [Literal.integer, Bool.and_eq_false_iff] at hfloat
  refine hfloat.imp (fun h => ?_) fun h => ?_
  · rwa [← Option.not_isSome, Bool.not_eq_false'] at h
  · rwa [← Option.not_isSome, Bool.not_eq_false'] at h

end OmtClient.Common.Text
