import Mathlib.Algebra.Order.Ring.Int
import Mathlib.Data.List.Basic

/-!
# Bytes and byte buffers

Byte strings are lists of `UInt8`. Multi-byte integers are read by Horner's rule
in base 256, which is what `from_le_bytes` and `from_be_bytes` denote.
`overwrite` is a copy into part of a buffer. `xorStream` is a stream cipher:
the bytes from position `n` on are combined with the keystream from `n` on.
-/

namespace OmtClient

abbrev Byte := UInt8
abbrev Bytes := List UInt8

namespace Lib

/-- `str::as_bytes`. -/
def utf8 (s : String) : Bytes := s.toUTF8.data.toList

/-- `to_ascii_lowercase`. -/
def asciiLower (b : Byte) : Byte := if 65 ≤ b ∧ b ≤ 90 then b + 32 else b

/-- `eq_ignore_ascii_case`. -/
def eqIgnoreAsciiCase (a b : Bytes) : Bool := a.map asciiLower == b.map asciiLower

/-- What holds of the 256 bytes holds of every byte. -/
theorem forall_byte {P : Byte → Prop} (h : ∀ n, n < 256 → P (UInt8.ofNat n)) (b : Byte) : P b := by
  have hb := h b.toNat b.toNat_lt
  rwa [UInt8.ofNat_toNat] at hb

/-- What holds of every member of a list is decided along the list, also where the type has
only finitely many values. -/
instance (priority := 10000) decidableForallMem {α : Type} {p : α → Prop} [DecidablePred p] (l : List α) :
    Decidable (∀ a ∈ l, p a) :=
  List.decidableBAll p l

/-- The number a little-endian byte string denotes. -/
def leNat : Bytes → Nat
  | [] => 0
  | b :: bs => leNat bs * 256 + b.toNat

theorem leNat_cons (b : Byte) (bs : Bytes) : leNat (b :: bs) = leNat bs * 256 + b.toNat := rfl

theorem leNat_lt (bs : Bytes) : leNat bs < 256 ^ bs.length := by
  induction bs with
  | nil => exact Nat.one_pos
  | cons b bs ih =>
    have hb := b.toNat_lt
    rw [leNat_cons, List.length_cons, Nat.pow_succ]
    omega

/-- The number a big-endian byte string denotes. -/
def beNat (bs : Bytes) : Nat := leNat bs.reverse

/-- The signed value of a number of `bits` bits in two's complement. -/
def signed (bits n : Nat) : Int := if n < 2 ^ (bits - 1) then (n : Int) else (n : Int) - 2 ^ bits

/-- `buffer` with `data` copied over the bytes from `at` on. -/
def overwrite (buffer : Bytes) (at_ : Nat) (data : Bytes) : Bytes :=
  buffer.take at_ ++ data ++ buffer.drop (at_ + data.length)

theorem length_overwrite {buffer data : Bytes} {k : Nat} (h : k + data.length ≤ buffer.length) :
    (overwrite buffer k data).length = buffer.length := by
  simp only [overwrite, List.length_append, List.length_take, List.length_drop]
  omega

/-- The bytes up to the end of the copied part: those before it, then it. -/
theorem take_overwrite {buffer data : Bytes} {k : Nat} (h : k + data.length ≤ buffer.length) :
    (overwrite buffer k data).take (k + data.length) = buffer.take k ++ data := by
  have hlen : (buffer.take k ++ data).length = k + data.length := by
    simp only [List.length_append, List.length_take]
    omega
  rw [overwrite, ← hlen, List.take_left]

theorem overwrite_middle {a b c data : Bytes} (h : b.length = data.length) :
    overwrite (a ++ (b ++ c)) a.length data = a ++ (data ++ c) := by
  have hlen : a.length + data.length = (a ++ b).length := by rw [List.length_append, h]
  rw [overwrite, List.take_left, hlen, ← List.append_assoc a b c, List.drop_left, List.append_assoc]

/-! ## Stream ciphers -/

/-- `data`, which starts at position `n` of the stream, under the keystream
`ks`. -/
def xorStream (ks : Nat → Byte) : Nat → Bytes → Bytes
  | _, [] => []
  | n, b :: bs => (b ^^^ ks n) :: xorStream ks (n + 1) bs

variable {ks : Nat → Byte}

theorem xorStream_cons (n : Nat) (b : Byte) (bs : Bytes) :
    xorStream ks n (b :: bs) = (b ^^^ ks n) :: xorStream ks (n + 1) bs := rfl

@[simp] theorem length_xorStream (n : Nat) (data : Bytes) :
    (xorStream ks n data).length = data.length := by
  induction data generalizing n with
  | nil => rfl
  | cons b bs ih => rw [xorStream_cons, List.length_cons, List.length_cons, ih]

@[simp] theorem xorStream_xorStream (n : Nat) (data : Bytes) :
    xorStream ks n (xorStream ks n data) = data := by
  induction data generalizing n with
  | nil => rfl
  | cons b bs ih =>
    have hb : b ^^^ ks n ^^^ ks n = b := by rw [UInt8.xor_assoc, UInt8.xor_self, UInt8.xor_zero]
    rw [xorStream_cons, xorStream_cons, ih, hb]

theorem xorStream_append (n : Nat) (a b : Bytes) :
    xorStream ks n (a ++ b) = xorStream ks n a ++ xorStream ks (n + a.length) b := by
  induction a generalizing n with
  | nil => rfl
  | cons x xs ih =>
    rw [List.cons_append, xorStream_cons, xorStream_cons, ih, List.length_cons, Nat.add_assoc,
      Nat.add_comm 1 xs.length, List.cons_append]

end Lib

end OmtClient
