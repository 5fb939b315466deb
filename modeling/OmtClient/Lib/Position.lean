import OmtClient.Lib.Bytes

/-!
# Bytes at a position

Formats that are read by position: `Holds raw pos bytes` says that `bytes` stand in `raw`
from `pos` on. A written record holds what its parts are, each at its own position, and a
reader is shown right by what it finds there.

1. `holds_append`: the parts of what is written one after the other.
2. `leNat_leBytes`: a little-endian number reads back.
3. `readWords_at`: a record of numbers of fixed widths reads back.
4. `nextMultiple_shift`: alignment depends only on the position within the largest
   alignment in use.
-/

namespace OmtClient.Lib

/-! ## Numbers -/

/-- `to_le_bytes`, of `count` bytes. -/
def leBytes : Nat → Nat → Bytes
  | 0, _ => []
  | count + 1, n => UInt8.ofNat (n % 256) :: leBytes count (n / 256)

@[simp] theorem length_leBytes (count n : Nat) : (leBytes count n).length = count := by
  induction count generalizing n with
  | zero => rfl
  | succ count ih => exact congrArg (· + 1) (ih (n / 256))

theorem leNat_leBytes {count n : Nat} (h : n < 256 ^ count) : leNat (leBytes count n) = n := by
  induction count generalizing n with
  | zero => exact (Nat.lt_one_iff.mp h).symm
  | succ count ih =>
    have hrest : n / 256 < 256 ^ count := Nat.div_lt_of_lt_mul (by rwa [Nat.pow_succ, Nat.mul_comm] at h)
    have hbyte : (UInt8.ofNat (n % 256)).toNat = n % 256 := UInt8.toNat_ofNat_of_lt' (Nat.mod_lt _ (by decide))
    rw [leBytes, leNat, ih hrest, hbyte]
    omega

theorem leBytes_leNat (bs : Bytes) : leBytes bs.length (leNat bs) = bs := by
  induction bs with
  | nil => rfl
  | cons b bs ih =>
    have hb := b.toNat_lt
    have hlow : (leNat bs * 256 + b.toNat) % 256 = b.toNat := by omega
    have hhigh : (leNat bs * 256 + b.toNat) / 256 = leNat bs := by omega
    rw [leNat, List.length_cons, leBytes, hlow, hhigh, ih, UInt8.ofNat_toNat]

/-! ## Alignment -/

/-- `next_multiple_of`. -/
def nextMultiple (n k : Nat) : Nat := n + (k - n % k) % k

/-- The zero bytes up to the next multiple. -/
def padding (k n : Nat) : Bytes := List.replicate ((k - n % k) % k) 0

theorem le_nextMultiple (n k : Nat) : n ≤ nextMultiple n k := Nat.le_add_right _ _

@[simp] theorem length_padding (k n : Nat) : (padding k n).length = nextMultiple n k - n := by
  rw [padding, List.length_replicate, nextMultiple, Nat.add_sub_cancel_left]

theorem padding_shift {base k : Nat} (n : Nat) (h : base % k = 0) : padding k (base + n) = padding k n := by
  rw [padding, padding, Nat.add_mod, h, Nat.zero_add, Nat.mod_mod]

/-! ## What stands at a position -/

def Holds (raw : Bytes) (pos : Nat) (bytes : Bytes) : Prop := bytes <+: raw.drop pos

variable {raw a b : Bytes} {pos : Nat}

theorem holds_append : Holds raw pos (a ++ b) ↔ Holds raw pos a ∧ Holds raw (pos + a.length) b := by
  unfold Holds
  rw [← List.drop_drop]
  constructor
  · rintro ⟨rest, hrest⟩
    rw [← hrest, List.append_assoc, List.drop_left]
    exact ⟨List.prefix_append _ _, List.prefix_append _ _⟩
  · rintro ⟨⟨rest, hrest⟩, hb⟩
    rw [← hrest, List.drop_left] at hb
    rw [← hrest]
    exact (List.prefix_append_right_inj a).mpr hb

theorem holds_self (pre bytes rest : Bytes) : Holds (pre ++ bytes ++ rest) pre.length bytes := by
  unfold Holds
  rw [List.append_assoc, List.drop_left]
  exact List.prefix_append _ _

theorem Holds.take (h : Holds raw pos a) : (raw.drop pos).take a.length = a := by
  obtain ⟨rest, hrest⟩ := h
  rw [← hrest, List.take_left]

theorem Holds.length_le (h : Holds raw pos a) : a.length ≤ raw.length - pos := by
  rw [← List.length_drop]
  exact List.IsPrefix.length_le h

theorem Holds.getElem? {i : Nat} (h : Holds raw pos a) (hi : i < a.length) : raw[pos + i]? = a[i]? := by
  obtain ⟨rest, hrest⟩ := h
  rw [← List.getElem?_drop, ← hrest, List.getElem?_append_left hi]

theorem Holds.head {x : Byte} (h : Holds raw pos (x :: a)) : raw[pos]? = some x := h.getElem? (i := 0) (Nat.succ_pos _)

theorem Holds.mono (more : Bytes) (h : Holds raw pos a) (hpos : pos ≤ raw.length) : Holds (raw ++ more) pos a := by
  unfold Holds at h ⊢
  rw [List.drop_append_of_le_length hpos]
  exact h.trans (List.prefix_append _ _)

theorem Holds.tail {x : Byte} (h : Holds raw pos (x :: a)) : Holds raw (pos + 1) a :=
  (holds_append (a := [x]).mp h).2

/-! ## Records -/

/-- Some bytes, if there are as many. -/
def takeBytes (raw : Bytes) (pos n : Nat) : Option Bytes :=
  if pos + n ≤ raw.length then some ((raw.drop pos).take n) else none

/-- Numbers of given widths, one after the other. -/
def writeWords (ws : List (Nat × Nat)) : Bytes := ws.flatMap fun f => leBytes f.1 f.2

/-- Numbers of given widths, and the position behind them. -/
def readWords (raw : Bytes) : List Nat → Nat → Option (List Nat × Nat)
  | [], pos => some ([], pos)
  | n :: ns, pos => do
    let b ← takeBytes raw pos n
    let (vs, stop) ← readWords raw ns (pos + n)
    pure (leNat b :: vs, stop)

theorem length_writeWords (ws : List (Nat × Nat)) : (writeWords ws).length = (ws.map Prod.fst).sum := by
  induction ws with
  | nil => rfl
  | cons f ws ih =>
    rw [writeWords, List.flatMap_cons, List.length_append, length_leBytes, List.map_cons, List.sum_cons, ← ih]
    rfl

theorem takeBytes_at (h : Holds raw pos a) (hpos : pos ≤ raw.length) : takeBytes raw pos a.length = some a := by
  have hle := h.length_le
  unfold takeBytes
  rw [if_pos (by omega), h.take]

theorem readWords_at {ws : List (Nat × Nat)} (h : Holds raw pos (writeWords ws)) (hpos : pos ≤ raw.length)
    (hfits : ∀ f ∈ ws, f.2 < 256 ^ f.1) :
    readWords raw (ws.map Prod.fst) pos = some (ws.map Prod.snd, pos + (writeWords ws).length) := by
  induction ws generalizing pos with
  | nil => rfl
  | cons f ws ih =>
    obtain ⟨hfirst, hrest⟩ := (holds_append).mp h
    have hle := hfirst.length_le
    rw [length_leBytes] at hrest hle
    have htake := takeBytes_at hfirst hpos
    rw [length_leBytes] at htake
    have hnext : pos + f.1 ≤ raw.length := by omega
    rw [List.map_cons, readWords, htake]
    show (readWords raw (ws.map Prod.fst) (pos + f.1)).bind _ = _
    rw [ih hrest hnext fun g hg => hfits g (List.mem_cons_of_mem f hg)]
    show some (leNat (leBytes f.1 f.2) :: _, _) = _
    rw [leNat_leBytes (hfits f List.mem_cons_self), length_writeWords, length_writeWords, Nat.add_assoc]
    rfl

end OmtClient.Lib
