import Mathlib.Data.Nat.Digits.Defs
import OmtClient.Lib.Bytes

/-!
# SSH data types

The wire values of RFC 4251 section 5 as `crates/omt-deploy/src/ssh/wire.rs`
reads and writes them. A cursor is the list of bytes not yet read; a reader
returns the value and the rest, or `none` instead of reading past the end.
-/

namespace OmtClient.Ssh

open OmtClient.Lib

namespace Wire

/-! ## Writing -/

/-- `u32::to_be_bytes`. -/
def putU32 (v : UInt32) : Bytes :=
  [UInt8.ofNat (v.toNat / 2 ^ 24), UInt8.ofNat (v.toNat / 2 ^ 16), UInt8.ofNat (v.toNat / 2 ^ 8),
    UInt8.ofNat v.toNat]

def putU64 (v : UInt64) : Bytes :=
  putU32 (v >>> 32).toUInt32 ++ putU32 v.toUInt32

def putBool (v : Bool) : Bytes := [if v then 1 else 0]

/-- `u32::try_from(n).unwrap_or(u32::MAX)`. -/
def lengthU32 (n : Nat) : UInt32 := if n < UInt32.size then UInt32.ofNat n else 0xFFFFFFFF

def putString (data : Bytes) : Bytes := putU32 (lengthU32 data.length) ++ data

/-- An mpint from an unsigned big-endian magnitude. -/
def putMpint (be : Bytes) : Bytes :=
  let be := be.dropWhile (· == 0)
  if (be.headD 0).toNat < 128 then putString be
  else putU32 (lengthU32 (be.length + 1)) ++ 0 :: be

/-- The big-endian magnitude of a number. -/
def magnitude (n : Nat) : Bytes := ((Nat.digits 256 n).map UInt8.ofNat).reverse

/-- `put_bn`; big numbers are natural numbers here. -/
def putBn (n : Nat) : Bytes := putMpint (magnitude n)

/-! ## Reading -/

def u8 : Bytes → Option (Byte × Bytes)
  | [] => none
  | b :: rest => some (b, rest)

def boolean (c : Bytes) : Option (Bool × Bytes) :=
  (u8 c).map fun (v, rest) => (v != 0, rest)

/-- `u32::from_be_bytes`. -/
def be32 (a b c d : Byte) : UInt32 :=
  UInt32.ofNat (((a.toNat * 256 + b.toNat) * 256 + c.toNat) * 256 + d.toNat)

def u32 : Bytes → Option (UInt32 × Bytes)
  | a :: b :: c :: d :: rest => some (be32 a b c d, rest)
  | _ => none

def take (n : Nat) (c : Bytes) : Option (Bytes × Bytes) :=
  if n ≤ c.length then some (c.take n, c.drop n) else none

def string (c : Bytes) : Option (Bytes × Bytes) := do
  let (len, rest) ← u32 c
  take len.toNat rest

/-- A non-negative mpint as its magnitude, leading zero bytes removed. -/
def mpint (c : Bytes) : Option (Bytes × Bytes) := do
  let (raw, rest) ← string c
  if (raw.headD 0).toNat < 128 then some (raw.dropWhile (· == 0), rest) else none

/-- A non-negative mpint of at most 2048 bytes as a number. -/
def bn (c : Bytes) : Option (Nat × Bytes) := do
  let (mag, rest) ← mpint c
  if mag.length ≤ 2048 then some (beNat mag, rest) else none

/-! ## Name-lists -/

/-- The entries of a comma-separated name-list. -/
def entries (list : Bytes) : List Bytes := list.splitOn 44

/-- Whether `name` is an entry of a name-list. -/
def namelistHas (list : Bytes) (name : String) : Bool := (entries list).any (· == utf8 name)

/-- The first entry of a name-list. -/
def firstName (list : Bytes) : Bytes := (entries list).headD list

/-- The name-list of some names. -/
def joinNames (names : List String) : Bytes := utf8 (",".intercalate names)

/-! ## Round trips -/

@[simp] theorem length_putU32 (v : UInt32) : (putU32 v).length = 4 := rfl

theorem u32_putU32 (v : UInt32) (rest : Bytes) : u32 (putU32 v ++ rest) = some (v, rest) := by
  have hv : v.toNat < 2 ^ 32 := v.toNat_lt
  have hbe : be32 (UInt8.ofNat (v.toNat / 2 ^ 24)) (UInt8.ofNat (v.toNat / 2 ^ 16))
      (UInt8.ofNat (v.toNat / 2 ^ 8)) (UInt8.ofNat v.toNat) = v := by
    apply UInt32.toNat_inj.mp
    simp only [be32, UInt32.toNat_ofNat', UInt8.toNat_ofNat']
    omega
  simp only [u32, putU32, List.cons_append, List.nil_append, hbe]

theorem toNat_lengthU32 {n : Nat} (h : n < UInt32.size) : (lengthU32 n).toNat = n := by
  simp only [lengthU32, h, if_true, UInt32.toNat_ofNat']
  exact Nat.mod_eq_of_lt h

theorem string_putString (data rest : Bytes) (h : data.length < UInt32.size) :
    string (putString data ++ rest) = some (data, rest) := by
  simp [string, putString, u32_putU32, take, toNat_lengthU32 h]

end Wire

end OmtClient.Ssh
