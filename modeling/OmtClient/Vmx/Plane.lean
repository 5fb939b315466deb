import OmtClient.Lib.Writes
import OmtClient.Vmx.Bits
import OmtClient.Vmx.Kernels

/-!
# A plane of a slice

`decode_plane` of `crates/omt-vmx/src/plane.rs`: the blocks of a plane are read one after
the other from the DC and AC streams, transformed and stored.

A coefficient is an integer in the range of an `i16`. What the block holds between two
blocks, and what the destination held before, are part of the state: the source clears and
overwrites only what it has to.

1. `decodePlane_overwrites`: a plane that decodes does not depend on what the destination
   held, and neither does the verdict.
-/

namespace OmtClient.Vmx

open OmtClient.Lib

def maxSymbolsPerBlock : Nat := 4096
def lookaheadBits : Nat := 12

/-- `mag_sign`. -/
def magSign (value : Nat) : Int :=
  let input := (value + (2 ^ 64 - 1)) % 2 ^ 64
  let parity := input % 2
  let adjusted := (input + parity) % 2 ^ 64
  wrap16 ((adjusted / 2 : Nat) - (adjusted * parity : Nat) : Int)

/-- `shift_signed`. -/
def shiftSigned (value : Int) (shift : Nat) : Int :=
  if shift = 0 then value else if 16 ≤ shift then 0 else wrap16 (value * 2 ^ shift)

/-! ## The codes of a block -/

/-- The AC side of a block: the reader, the position in zig-zag order, the coefficients and
the highest position written. -/
structure Codes where
  ac : Reader
  pending : Nat
  block : List Int
  last : Nat
  deriving DecidableEq, Repr

/-- One code, bit by bit. -/
def Codes.manual (s : Codes) : Codes :=
  let (kind, ac) := s.ac.take 1
  if kind = 1 then
    let (single, ac) := ac.take 1
    if single = 1 then { s with ac, pending := s.pending + 1 }
    else
      let (zeros, ac) := ac.zerosBare
      let (run, ac) := ac.take (zeros + 2)
      { s with ac, pending := min (s.pending + run) (2 ^ 32 - 1) }
  else
    let (zeros, ac) := ac.zerosBare
    let (value, ac) := ac.take (zeros + 2)
    if s.pending < 64 then
      ⟨ac, s.pending + 1, s.block.set (zigzagNatural.getD s.pending 0 % 64) (magSign value), s.pending⟩
    else { s with ac, pending := s.pending + 1 }

/-- The entry of the table for the next bits, when there are enough of them. -/
def Codes.entry (s : Codes) : Nat :=
  if lookaheadBits ≤ s.ac.bitsLeft then
    acLookahead (shl64 s.ac.window (64 - s.ac.bitsLeft).toNat / 2 ^ (64 - lookaheadBits) % 4096)
  else 0

/-- One code, by the table or bit by bit. -/
def Codes.lookup (s : Codes) : Codes :=
  let entry := s.entry
  if entry ≠ 0 then
    let coefficient := wrap16 (entry % 65536)
    { ac := { s.ac with bitsLeft := s.ac.bitsLeft - (entry / 65536 % 256 : Nat) }
      pending := s.pending + entry / 2 ^ 24
      block := s.block.set (zigzagNatural.getD (s.pending % 64) 0 % 64) coefficient
      last := if coefficient ≠ 0 then s.pending else s.last }
  else s.manual

/-- The loop over the codes of a block; `fuel` is what the guard allows. -/
def Codes.read (code : Codes → Codes) : Nat → Codes → Option Codes
  | 0, s => if s.pending < 64 then none else some s
  | fuel + 1, s =>
    if s.pending < 64 then
      let s := code s
      let ac := s.ac.reload
      if ac.corrupt then none else Codes.read code fuel { s with ac }
    else some s

/-! ## Blocks -/

/-- What goes on from block to block. -/
structure Progress where
  dc : Reader
  ac : Reader
  pending : Nat
  dcPrediction : Int
  block : List Int
  deriving DecidableEq, Repr

/-- The parameters of a plane. -/
structure PlaneJob where
  stride : Nat
  bias : Int
  matrix : List Nat
  dcShift : Nat
  deriving DecidableEq, Repr

/-- The DC term of a block. -/
def dcTerm (dc : Reader) (block : List Int) (dcShift : Nat) : Reader × List Int :=
  let (kind, dc) := dc.bit
  if kind = 1 then (dc.bit.2, block)
  else
    let (zeros, dc) := dc.zeros
    let (value, dc) := dc.bits (zeros + 2)
    (dc, block.set 0 (shiftSigned (magSign value) dcShift))

/-- One block: the state after it and its tile. -/
def decodeBlock (k : Kernels) (job : PlaneJob) (s : Progress) : Option (Progress × Tile) := do
  let codes ← Codes.read Codes.lookup maxSymbolsPerBlock ⟨s.ac, s.pending, s.block, 0⟩
  let (dc, block) := dcTerm s.dc codes.block job.dcShift
  if dc.corrupt then none
  else
    let level := wrap16 (block.getD 0 0 + s.dcPrediction)
    let block := block.set 0 level
    if s.pending < 64 then
      let rows := rowsUsed.getD (codes.last % 64) 0
      some (⟨dc, codes.ac, codes.pending - 64, level, List.replicate (rows * 8) 0 ++ block.drop (rows * 8)⟩,
        k.idct block job.matrix job.bias rows)
    else some (⟨dc, codes.ac, codes.pending - 64, level, block.set 0 0⟩, broadcastDc level job.bias)

/-- The bytes of a row of a tile. -/
def tileRow (t : Tile) (row : Nat) : Bytes := (List.range 8).map (t row)

/-- The rows that a tile stores at its offset. -/
def tileWrites (stride : Nat) (p : Nat × Tile) : List (Write Byte) :=
  (List.range 8).map fun row => ⟨p.1 + row * stride, tileRow p.2 row⟩

/-- Where the blocks of a plane begin. -/
def blockOffsets (stride : Nat) : List Nat :=
  [0, 8].flatMap fun row => (List.range (stride / 8)).map fun column => row * stride + column * 8

/-- The blocks from some offset on: how far the stream goes, and the tiles up to there. -/
def decodeBlocks (k : Kernels) (job : PlaneJob) : List Nat → Progress → List (Nat × Tile) × Option Progress
  | [], s => ([], some s)
  | offset :: rest, s =>
    match decodeBlock k job s with
    | none => ([], none)
    | some (s', t) =>
      let (tiles, last) := decodeBlocks k job rest s'
      ((offset, t) :: tiles, last)

/-- The readers after a plane, both aligned, unless one is corrupt. -/
def finishPlane (s : Progress) : Option (Reader × Reader) :=
  let dc := s.dc.align
  let ac := s.ac.align
  if dc.corrupt || ac.corrupt then none else some (dc, ac)

/-- `decode_plane`: the destination and, when the stream was not rejected, the readers. -/
def decodePlane (k : Kernels) (job : PlaneJob) (dc ac : Reader) (dst : Bytes) : Bytes × Option (Reader × Reader) :=
  if job.stride = 0 ∨ job.stride % 8 ≠ 0 ∨ dst.length / 16 < job.stride then (dst, none)
  else
    let (tiles, last) := decodeBlocks k job (blockOffsets job.stride) ⟨dc, ac, 0, 0, List.replicate 64 0⟩
    (applyAll dst (tiles.flatMap (tileWrites job.stride)), last.bind finishPlane)

namespace PlaneLemmas

/-- A stream that goes through stores a tile at every offset. -/
theorem decodeBlocks_offsets {k : Kernels} {job : PlaneJob} {offsets : List Nat} {s s' : Progress}
    (h : (decodeBlocks k job offsets s).2 = some s') : (decodeBlocks k job offsets s).1.map Prod.fst = offsets := by
  induction offsets generalizing s with
  | nil => rfl
  | cons offset rest ih =>
    rw [decodeBlocks] at h ⊢
    cases hblock : decodeBlock k job s with
    | none =>
      rw [hblock] at h
      cases h
    | some p =>
      rw [hblock] at h
      exact congrArg (offset :: ·) (ih h)

theorem tileRow_length (t : Tile) (row : Nat) : (tileRow t row).length = 8 := by
  rw [tileRow, List.length_map, List.length_range]

/-- Every byte of the sixteen rows is in a row of some tile. -/
theorem block_covers {stride i : Nat} (height : stride % 8 = 0) (hi : i < 16 * stride) :
    ∃ offset ∈ blockOffsets stride, ∃ row < 8, offset + row * stride ≤ i ∧ i < offset + row * stride + 8 ∧
      offset + row * stride + 8 ≤ 16 * stride := by
  have hpos : 0 < stride := by omega
  have hx : i % stride < stride := Nat.mod_lt i hpos
  have hy : i / stride < 16 := Nat.div_lt_of_lt_mul (by rwa [Nat.mul_comm])
  have hsplit : i / stride * stride + i % stride = i := by
    rw [Nat.mul_comm]
    exact Nat.div_add_mod i stride
  have hrow : i / stride / 8 * 8 * stride + i / stride % 8 * stride = i / stride * stride := by
    rw [← Nat.add_mul, Nat.mul_comm (i / stride / 8), Nat.div_add_mod]
  have hend : i / stride * stride + stride ≤ 16 * stride := by
    rw [← Nat.succ_mul]
    exact Nat.mul_le_mul_right stride hy
  refine ⟨i / stride / 8 * 8 * stride + i % stride / 8 * 8, ?_, i / stride % 8, Nat.mod_lt _ (by decide), ?_, ?_, ?_⟩
  · refine List.mem_flatMap.mpr ⟨i / stride / 8 * 8, ?_, List.mem_map.mpr ⟨i % stride / 8, ?_, rfl⟩⟩
    · have hhalf : i / stride / 8 < 2 := Nat.div_lt_of_lt_mul hy
      rcases Nat.le_one_iff_eq_zero_or_eq_one.mp (Nat.le_of_lt_succ hhalf) with h | h
      · rw [h]
        exact List.mem_cons_self
      · rw [h]
        exact List.mem_cons_of_mem _ List.mem_cons_self
    · rw [List.mem_range]
      omega
  · omega
  · omega
  · omega

theorem tiles_cover {stride i : Nat} {tiles : List (Nat × Tile)} {n : Nat} (height : stride % 8 = 0)
    (hoffsets : tiles.map Prod.fst = blockOffsets stride) (hn : 16 * stride ≤ n) (hi : i < 16 * stride) :
    ∃ w ∈ tiles.flatMap (tileWrites stride), w.fits n = true ∧ w.covers i := by
  obtain ⟨offset, hoffset, row, hrow, hlow, hhigh, hroom⟩ := block_covers height hi
  rw [← hoffsets] at hoffset
  obtain ⟨p, hp, rfl⟩ := List.mem_map.mp hoffset
  refine ⟨⟨p.1 + row * stride, tileRow p.2 row⟩, ?_, ?_, ?_⟩
  · exact List.mem_flatMap.mpr ⟨p, hp, List.mem_map.mpr ⟨row, List.mem_range.mpr hrow, rfl⟩⟩
  · refine decide_eq_true ?_
    rw [tileRow_length]
    exact Nat.le_trans hroom hn
  · unfold Write.covers
    rw [tileRow_length]
    exact ⟨hlow, hhigh⟩

end PlaneLemmas

open PlaneLemmas

theorem decodePlane_length (k : Kernels) (job : PlaneJob) (dc ac : Reader) (dst : Bytes) :
    (decodePlane k job dc ac dst).1.length = dst.length := by
  unfold decodePlane
  split
  · rfl
  · exact length_applyAll _ _

/-- A plane that decodes does not depend on what the destination held, and neither does the
verdict. -/
theorem decodePlane_overwrites (k : Kernels) (job : PlaneJob) (dc ac : Reader) {dst dst' : Bytes}
    (hlength : dst.length = 16 * job.stride) (hsame : dst'.length = dst.length) :
    (decodePlane k job dc ac dst).2 = (decodePlane k job dc ac dst').2 ∧
      ((decodePlane k job dc ac dst).2.isSome → (decodePlane k job dc ac dst).1 = (decodePlane k job dc ac dst').1) := by
  unfold decodePlane
  rw [hsame]
  split
  · exact ⟨rfl, nofun⟩
  · next hstride =>
    refine ⟨rfl, fun hok => ?_⟩
    dsimp only at hok ⊢
    obtain ⟨s', hlast⟩ : ∃ s', (decodeBlocks k job (blockOffsets job.stride) ⟨dc, ac, 0, 0, List.replicate 64 0⟩).2 = some s' := by
      cases hlast : (decodeBlocks k job (blockOffsets job.stride) ⟨dc, ac, 0, 0, List.replicate 64 0⟩).2 with
      | none =>
        rw [hlast] at hok
        cases hok
      | some s' => exact ⟨s', rfl⟩
    refine applyAll_eq hsame.symm fun i hi => ?_
    exact tiles_cover (by omega) (decodeBlocks_offsets hlast) (by omega) (by omega)

/-- The same over two destinations: both are rejected, or both end alike. -/
theorem decodePlane_cases (k : Kernels) (job : PlaneJob) (dc ac : Reader) {dst dst' : Bytes}
    (hlength : dst.length = 16 * job.stride) (hsame : dst'.length = 16 * job.stride) :
    (∃ a b, decodePlane k job dc ac dst = (a, none) ∧ decodePlane k job dc ac dst' = (b, none) ∧
      a.length = 16 * job.stride ∧ b.length = 16 * job.stride) ∨
    ∃ a readers, decodePlane k job dc ac dst = (a, some readers) ∧ decodePlane k job dc ac dst' = (a, some readers) ∧
      a.length = 16 * job.stride := by
  obtain ⟨hverdict, hbytes⟩ := decodePlane_overwrites k job dc ac hlength (hsame.trans hlength.symm)
  have hkept := (decodePlane_length k job dc ac dst).trans hlength
  have hkept' := (decodePlane_length k job dc ac dst').trans hsame
  cases hresult : (decodePlane k job dc ac dst).2 with
  | none =>
    refine .inl ⟨_, _, Prod.ext rfl hresult, Prod.ext rfl (hverdict.symm.trans hresult), hkept, hkept'⟩
  | some readers =>
    have hbytes := hbytes (by rw [hresult]; rfl)
    exact .inr ⟨_, readers, Prod.ext rfl hresult, Prod.ext hbytes.symm (hverdict.symm.trans hresult), hkept⟩

end OmtClient.Vmx
