import OmtClient.Ssh.Wire

/-!
# Numbers on the wire

`put_mpint` and `mpint` of `crates/omt-deploy/src/ssh/wire.rs`: a magnitude is written with a sign
byte where its first bit would make it negative, behind a length of 32 bits.

1. `mpint_exact`: the encoding is minimal, and read back when its length fits.
2. `long_unread`: one that does not fit.
-/

namespace OmtClient.Ssh.Wire

open OmtClient.Lib

/-- The magnitude of a big-endian number. -/
def stripped (b : Bytes) : Bytes := b.dropWhile (· == 0)

/-- The two's complement of a magnitude. -/
def signed (m : Bytes) : Bytes := if (m.headD 0).toNat < 128 then m else 0 :: m

namespace MpintLemmas

variable {b m rest : Bytes}

theorem putMpint_eq (b : Bytes) : putMpint b = putString (signed (stripped b)) := by
  rw [putMpint, signed, ← stripped]
  split
  · rfl
  · rw [putString]
    rfl

theorem stripped_head (b : Bytes) : (stripped b).head? ≠ some 0 := by
  have h := List.head?_dropWhile_not (· == 0) b
  rw [stripped]
  cases hhead : (b.dropWhile (· == 0)).head? with
  | none => simp
  | some c =>
    rw [hhead] at h
    simpa using h

/-- A magnitude has no zero to take away. -/
theorem stripped_eq (h : m.head? ≠ some 0) : stripped m = m := by
  cases m with
  | nil => rfl
  | cons c m =>
    refine List.dropWhile_cons_of_neg ?_
    intro hzero
    exact h (congrArg some (beq_iff_eq.mp hzero))

theorem stripped_zero (m : Bytes) : stripped (0 :: m) = stripped m := List.dropWhile_cons_of_pos rfl

theorem stripped_signed (h : m.head? ≠ some 0) : stripped (signed m) = m := by
  rw [signed]
  split
  · exact stripped_eq h
  · rw [stripped_zero, stripped_eq h]

/-- What is written is never negative. -/
theorem signed_head (m : Bytes) : ((signed m).headD 0).toNat < 128 := by
  rw [signed]
  split
  next h => exact h
  · show (0 : Byte).toNat < 128
    decide

/-- A text that is too long for its length is cut. -/
theorem string_long (h : 2 ^ 32 ≤ m.length) : string (putString m ++ rest) =
    some (m.take (2 ^ 32 - 1), m.drop (2 ^ 32 - 1) ++ rest) := by
  have hlength : lengthU32 m.length = 0xFFFFFFFF := if_neg (Nat.not_lt_of_le h)
  have hmax : (0xFFFFFFFF : UInt32).toNat = 2 ^ 32 - 1 := by decide
  have hle : 2 ^ 32 - 1 ≤ m.length := (Nat.sub_le _ _).trans h
  have hle' : 2 ^ 32 - 1 ≤ (m ++ rest).length := hle.trans (by rw [List.length_append]; exact Nat.le_add_right _ _)
  rw [string, putString, hlength, List.append_assoc, u32_putU32, Option.bind_eq_bind, Option.bind_some]
  dsimp only
  rw [hmax, take, if_pos hle', List.take_append_of_le_length hle, List.drop_append_of_le_length hle]

/-- A magnitude is read back just when its length fits. -/
theorem mpint_read (b rest : Bytes) :
    mpint (putMpint b ++ rest) = some (stripped b, rest) ↔ (signed (stripped b)).length < 2 ^ 32 := by
  rw [putMpint_eq]
  constructor
  · intro h
    by_contra hlong
    rw [mpint, string_long (Nat.le_of_not_lt hlong), Option.bind_eq_bind, Option.bind_some] at h
    dsimp only at h
    split at h
    · have hlen := congrArg List.length (congrArg Prod.snd (Option.some.inj h))
      dsimp only at hlen
      rw [List.length_append, List.length_drop] at hlen
      omega
    · cases h
  · intro hfits
    rw [mpint, string_putString _ _ hfits, Option.bind_eq_bind, Option.bind_some]
    dsimp only
    rw [if_pos (signed_head _)]
    exact congrArg (fun m => some (m, rest)) (stripped_signed (stripped_head b))

end MpintLemmas

open MpintLemmas

/-- A number is written with no byte to spare, and never as a negative one; it is read back as its
magnitude just when its length fits into 32 bits. -/
theorem mpint_exact (b : Bytes) :
    putMpint b = putU32 (lengthU32 (signed (stripped b)).length) ++ signed (stripped b) ∧
      ((signed (stripped b)).headD 0).toNat < 128 ∧
      (∀ tail, signed (stripped b) = 0 :: tail → 128 ≤ (tail.headD 0).toNat) ∧
      (signed (stripped b) = 0 :: stripped b ↔ 128 ≤ ((stripped b).headD 0).toNat) ∧
      ∀ rest, mpint (putMpint b ++ rest) = some (stripped b, rest) ↔ (signed (stripped b)).length < 2 ^ 32 := by
  have hhead := stripped_head b
  refine ⟨putMpint_eq b, signed_head _, fun tail htail => ?_, ?_, fun rest => ?_⟩
  · rw [signed] at htail
    split at htail
    · rw [htail] at hhead
      exact absurd rfl hhead
    next hlarge =>
      rw [← (List.cons.inj htail).2]
      exact Nat.le_of_not_lt hlarge
  · rw [signed]
    split
    next hsmall =>
      refine ⟨fun h => ?_, fun h => absurd hsmall (Nat.not_lt_of_le h)⟩
      exact absurd (congrArg List.length h) (by simp)
    next hlarge => exact ⟨fun _ => Nat.le_of_not_lt hlarge, fun _ => rfl⟩
  · exact mpint_read b rest

/-- So long a number is not read back. -/
theorem long_unread : ¬ ∀ b rest, mpint (putMpint b ++ rest) = some (stripped b, rest) := by
  intro h
  obtain ⟨n, hn⟩ : ∃ n, 2 ^ 32 ≤ n + 1 := ⟨2 ^ 32, Nat.le_succ _⟩
  have hones : (List.replicate (n + 1) (1 : Byte)).head? ≠ some 0 := by
    rw [List.replicate_succ, List.head?_cons]
    decide
  have hlength : (List.replicate (n + 1) (1 : Byte)).length ≤ (signed (stripped (List.replicate (n + 1) 1))).length := by
    rw [stripped_eq hones, signed]
    split
    · exact Nat.le_refl _
    · exact Nat.le_succ _
  have hread := (mpint_read _ []).mp (h (List.replicate (n + 1) 1) [])
  rw [List.length_replicate] at hlength
  omega

end OmtClient.Ssh.Wire
