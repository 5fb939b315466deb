import OmtClient.Lib.Bytes

/-!
# Checked access

Indexing, slicing and subtraction that end the program where the source language does: an
index out of range, a slice that is not within the bytes, a difference below zero. A loop
that is given passes and uses them all up is endless as far as those passes show. What a
checked function computes is the value of the plain one where nothing is at fault.
-/

namespace OmtClient.Lib

/-- Why a computation has no value. -/
inductive Fault
  | outOfRange
  | underflow
  | endless
  deriving DecidableEq, Repr

abbrev Checked (α : Type) := Except Fault α

/-- `raw[i]`. -/
def getAt (raw : Bytes) (i : Nat) : Checked Byte := raw[i]?.elim (.error .outOfRange) .ok

/-- `&raw[a..b]`. -/
def sliceAt (raw : Bytes) (a b : Nat) : Checked Bytes :=
  if a ≤ b ∧ b ≤ raw.length then .ok ((raw.take b).drop a) else .error .outOfRange

/-- `a - b`. -/
def subAt (a b : Nat) : Checked Nat := if b ≤ a then .ok (a - b) else .error .underflow

variable {raw : Bytes} {a b i : Nat}

theorem getAt_ok (h : i < raw.length) : getAt raw i = .ok (raw.getD i 0) := by
  rw [getAt, List.getD_eq_getElem?_getD, List.getElem?_eq_getElem h]
  rfl

theorem sliceAt_ok (hab : a ≤ b) (hb : b ≤ raw.length) : sliceAt raw a b = .ok ((raw.take b).drop a) :=
  if_pos ⟨hab, hb⟩

theorem subAt_ok (h : b ≤ a) : subAt a b = .ok (a - b) := if_pos h

/-- The bytes from a position on, one by one. -/
theorem drop_take_four (h : i + 4 ≤ raw.length) :
    (raw.drop i).take 4 = [raw.getD i 0, raw.getD (i + 1) 0, raw.getD (i + 2) 0, raw.getD (i + 3) 0] := by
  have hget (k : Nat) (hk : k < raw.length) : raw.getD k 0 = raw.get ⟨k, hk⟩ := by
    rw [List.getD_eq_getElem?_getD, List.getElem?_eq_getElem hk]
    rfl
  rw [hget i (by omega), hget (i + 1) (by omega), hget (i + 2) (by omega), hget (i + 3) (by omega),
    List.drop_eq_getElem_cons (by omega), List.drop_eq_getElem_cons (by omega), List.drop_eq_getElem_cons (by omega),
    List.drop_eq_getElem_cons (by omega)]
  rfl

theorem drop_take_two (h : i + 2 ≤ raw.length) : (raw.drop i).take 2 = [raw.getD i 0, raw.getD (i + 1) 0] := by
  have hget (k : Nat) (hk : k < raw.length) : raw.getD k 0 = raw.get ⟨k, hk⟩ := by
    rw [List.getD_eq_getElem?_getD, List.getElem?_eq_getElem hk]
    rfl
  rw [hget i (by omega), hget (i + 1) (by omega), List.drop_eq_getElem_cons (by omega),
    List.drop_eq_getElem_cons (by omega)]
  rfl

end OmtClient.Lib
