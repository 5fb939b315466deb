import OmtClient.Lib.Numeral
import OmtClient.Lib.Utf8

/-!
# Numbers as text

From `crates/omt-common/src/buf.rs`: `parse_u64`, the strict decimal reader that the
ports, lengths and ceilings of this project go through, and `hex`, which writes bytes
in hexadecimal.

1. `parseU64_eq`: it reads digits only, and nothing above its maximum.
2. `hex_digits`: bytes are written with two lower-case digits each.
-/

namespace OmtClient.Common

open OmtClient.Lib

/-- `parse_u64`: an unsigned decimal of only ASCII digits, up to `max`. -/
def parseU64 (s : Bytes) (max : Nat) : Option Nat :=
  if s = [] then none
  else
    s.foldlM (fun value c =>
      if !isAsciiDigit c then none
      else
        let next := value * 10 + (c.toNat - 48)
        if next < 2 ^ 64 ∧ next ≤ max then some next else none) 0

/-- It reads digits only, and nothing above its maximum. -/
theorem parseU64_eq {s : Bytes} {max : Nat} (hmax : max < 2 ^ 64) :
    parseU64 s max =
      if s ≠ [] ∧ s.all isAsciiDigit = true ∧ decimal s ≤ max then some (decimal s) else none := by
  -- a value past the maximum stays past it, so the check at each digit is the one at the end
  have hfold (v : Nat) (hv : v ≤ max) :
      s.foldlM (fun value c =>
        if !isAsciiDigit c then none
        else
          let next := value * 10 + (c.toNat - 48)
          if next < 2 ^ 64 ∧ next ≤ max then some next else none) v =
      if s.all isAsciiDigit = true ∧ s.foldl (fun v b => v * 10 + (b.toNat - 48)) v ≤ max then
        some (s.foldl (fun v b => v * 10 + (b.toNat - 48)) v) else none := by
    induction s generalizing v with
    | nil => exact (if_pos ⟨rfl, hv⟩).symm
    | cons c s ih =>
      rw [List.foldlM_cons, List.all_cons, List.foldl_cons]
      cases hc : isAsciiDigit c with
      | false => rfl
      | true =>
        have hgrows (u : Nat) : u ≤ s.foldl (fun v b => v * 10 + (b.toNat - 48)) u := by
          clear ih
          induction s generalizing u with
          | nil => exact Nat.le_refl _
          | cons d s ih => exact Nat.le_trans (by omega) (ih (u * 10 + (d.toNat - 48)))
        simp only [Bool.not_true, Bool.false_eq_true, if_false, Bool.true_and]
        by_cases hnext : v * 10 + (c.toNat - 48) ≤ max
        · rw [if_pos ⟨Nat.lt_of_le_of_lt hnext hmax, hnext⟩]
          exact ih _ hnext
        · rw [if_neg (fun h => hnext h.2), if_neg (fun h => hnext (Nat.le_trans (hgrows _) h.2))]
          rfl
  rw [parseU64]
  by_cases hs : s = []
  · rw [if_pos hs, if_neg (fun h => h.1 hs)]
  · rw [if_neg hs, hfold 0 (Nat.zero_le _)]
    show (if s.all isAsciiDigit = true ∧ decimal s ≤ max then some (decimal s) else none) = _
    by_cases h : s.all isAsciiDigit = true ∧ decimal s ≤ max
    · rw [if_pos h, if_pos ⟨hs, h⟩]
    · rw [if_neg h, if_neg (fun h' => h h'.2)]

theorem parseU64_eq_some {s : Bytes} {max v : Nat} (hmax : max < 2 ^ 64) :
    parseU64 s max = some v ↔ s ≠ [] ∧ s.all isAsciiDigit = true ∧ decimal s ≤ max ∧ decimal s = v := by
  rw [parseU64_eq hmax, Option.ite_none_right_eq_some, Option.some.injEq]
  exact ⟨fun h => ⟨h.1.1, h.1.2.1, h.1.2.2, h.2⟩, fun h => ⟨⟨h.1, h.2.1, h.2.2.1⟩, h.2.2.2⟩⟩

/-! ## Hexadecimal -/

def hexDigits : List Char := "0123456789abcdef".toList

/-- `hex`: lower-case hexadecimal. -/
def hex (bytes : Bytes) : String :=
  String.ofList (bytes.flatMap fun b => [hexDigits.getD (b.toNat / 16) '0', hexDigits.getD (b.toNat % 16) '0'])

theorem hexDigits_getD : ∀ n, n < 16 → hexDigits.getD n '0' ∈ hexDigits := by decide

/-- Bytes are written with two lower-case digits each. -/
theorem hex_digits (bytes : Bytes) :
    (hex bytes).toList.length = 2 * bytes.length ∧ ∀ c ∈ (hex bytes).toList, c ∈ hexDigits := by
  rw [hex, String.toList_ofList]
  induction bytes with
  | nil => exact ⟨rfl, fun c hc => absurd hc List.not_mem_nil⟩
  | cons b bytes ih =>
    obtain ⟨hlength, hdigits⟩ := ih
    have hb := b.toNat_lt
    constructor
    · rw [List.flatMap_cons, List.length_append, hlength, List.length_cons]
      show 2 + 2 * bytes.length = 2 * (bytes.length + 1)
      rw [Nat.mul_add, Nat.add_comm]
    · rw [List.flatMap_cons, List.forall_mem_append]
      refine ⟨?_, hdigits⟩
      rw [List.forall_mem_cons, List.forall_mem_singleton]
      exact ⟨hexDigits_getD _ (Nat.div_lt_of_lt_mul hb), hexDigits_getD _ (Nat.mod_lt _ (by decide))⟩

end OmtClient.Common
