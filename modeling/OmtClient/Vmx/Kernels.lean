import OmtClient.Lib.Bytes

/-!
# The decoder's kernels

`crates/omt-vmx/src/tables.rs`, `idct.rs` and `convert.rs`: the tables of the reference
codec, the inverse transform of a block and the conversion of a row to BGRA.

Which transform and which conversion run depends on the target: they are the fields of
`Kernels`, and `portable` are the ones written in Rust. A tile is the 8x8 bytes of a block.
-/

namespace OmtClient.Vmx

open OmtClient.Lib

/-! ## Tables -/

def quantizationMatrix : List Nat :=
  [16, 16, 19, 22, 26, 27, 29, 34, 16, 16, 22, 24, 27, 29, 34, 37, 19, 22, 26, 27, 29, 34, 34, 38, 22, 22, 26,
    27, 29, 34, 37, 40, 22, 26, 27, 29, 32, 35, 40, 48, 26, 27, 29, 32, 35, 40, 48, 58, 26, 27, 29, 34, 38, 46,
    56, 69, 27, 29, 35, 38, 46, 56, 69, 83]

def quality : List Int :=
  [1, 2, 3, 4, 5, 6, 7, 8, 10, 12, 14, 16, 18, 20, 22, 24, 28, 32, 36, 40, 44, 48, 52, 56, 64]

def yuvRgb709 : List Int := [19077, 29372, 3494, 8731, 17305]
def yuvRgb601 : List Int := [19077, 26149, 6419, 13320, 16525]

def zigzagNatural : List Nat :=
  [0, 1, 8, 16, 9, 2, 3, 10, 17, 24, 32, 25, 18, 11, 4, 5, 12, 19, 26, 33, 40, 48, 41, 34, 27, 20, 13, 6, 7, 14,
    21, 28, 35, 42, 49, 56, 57, 50, 43, 36, 29, 22, 15, 23, 30, 37, 44, 51, 58, 59, 52, 45, 38, 31, 39, 46, 53,
    60, 61, 54, 47, 55, 62, 63]

def rowsUsed : List Nat :=
  [1, 1, 2, 3, 3, 3, 3, 3, 3, 4, 5, 5, 5, 5, 5, 5, 5, 5, 5, 5, 6, 7, 7, 7, 7, 7, 7, 7, 7, 7, 7, 7, 7, 7, 7, 8,
    8, 8, 8, 8, 8, 8, 8, 8, 8, 8, 8, 8, 8, 8, 8, 8, 8, 8, 8, 8, 8, 8, 8, 8, 8, 8, 8, 8]

def tabI04 : List Int :=
  [16384, 21407, 16384, 8867, 16384, -8867, 16384, -21407, 16384, 8867, -16384, -21407, -16384, 21407, 16384,
    -8867, 22725, 19266, 19266, -4520, 12873, -22725, 4520, -12873, 12873, 4520, -22725, -12873, 4520, 19266,
    19266, -22725]

def tabI17 : List Int :=
  [22725, 29692, 22725, 12299, 22725, -12299, 22725, -29692, 22725, 12299, -22725, -29692, -22725, 29692, 22725,
    -12299, 31521, 26722, 26722, -6270, 17855, -31521, 6270, -17855, 17855, 6270, -31521, -17855, 6270, 26722,
    26722, -31521]

def tabI26 : List Int :=
  [21407, 27969, 21407, 11585, 21407, -11585, 21407, -27969, 21407, 11585, -21407, -27969, -21407, 27969, 21407,
    -11585, 29692, 25172, 25172, -5906, 16819, -29692, 5906, -16819, 16819, 5906, -29692, -16819, 5906, 25172,
    25172, -29692]

def tabI35 : List Int :=
  [19266, 25172, 19266, 10426, 19266, -10426, 19266, -25172, 19266, 10426, -19266, -25172, -19266, 25172, 19266,
    -10426, 26722, 22654, 22654, -5315, 15137, -26722, 5315, -15137, 15137, 5315, -26722, -15137, 5315, 22654,
    22654, -26722]

/-- `AC_LOOKAHEAD`, as runs of equal entries: an entry and how often it stands. -/
def acLookaheadRuns : List (Nat × Nat) :=
  [(0x00000000, 64), (0x010BFFF0, 2), (0x010B0010, 2), (0x010BFFEF, 2), (0x010B0011, 2), (0x010BFFEE, 2),
    (0x010B0012, 2), (0x010BFFED, 2), (0x010B0013, 2), (0x010BFFEC, 2), (0x010B0014, 2), (0x010BFFEB, 2),
    (0x010B0015, 2), (0x010BFFEA, 2), (0x010B0016, 2), (0x010BFFE9, 2), (0x010B0017, 2), (0x010BFFE8, 2),
    (0x010B0018, 2), (0x010BFFE7, 2), (0x010B0019, 2), (0x010BFFE6, 2), (0x010B001A, 2), (0x010BFFE5, 2),
    (0x010B001B, 2), (0x010BFFE4, 2), (0x010B001C, 2), (0x010BFFE3, 2), (0x010B001D, 2), (0x010BFFE2, 2),
    (0x010B001E, 2), (0x010BFFE1, 2), (0x010B001F, 2), (0x0109FFF8, 8), (0x01090008, 8), (0x0109FFF7, 8),
    (0x01090009, 8), (0x0109FFF6, 8), (0x0109000A, 8), (0x0109FFF5, 8), (0x0109000B, 8), (0x0109FFF4, 8),
    (0x0109000C, 8), (0x0109FFF3, 8), (0x0109000D, 8), (0x0109FFF2, 8), (0x0109000E, 8), (0x0109FFF1, 8),
    (0x0109000F, 8), (0x0107FFFC, 32), (0x01070004, 32), (0x0107FFFB, 32), (0x01070005, 32), (0x0107FFFA, 32),
    (0x01070006, 32), (0x0107FFF9, 32), (0x01070007, 32), (0x0105FFFE, 128), (0x01050002, 128),
    (0x0105FFFD, 128), (0x01050003, 128), (0x0103FFFF, 512), (0x01030001, 512), (0x00000000, 32),
    (0x200C0000, 1), (0x210C0000, 1), (0x220C0000, 1), (0x230C0000, 1), (0x240C0000, 1), (0x250C0000, 1),
    (0x260C0000, 1), (0x270C0000, 1), (0x280C0000, 1), (0x290C0000, 1), (0x2A0C0000, 1), (0x2B0C0000, 1),
    (0x2C0C0000, 1), (0x2D0C0000, 1), (0x2E0C0000, 1), (0x2F0C0000, 1), (0x300C0000, 1), (0x310C0000, 1),
    (0x320C0000, 1), (0x330C0000, 1), (0x340C0000, 1), (0x350C0000, 1), (0x360C0000, 1), (0x370C0000, 1),
    (0x380C0000, 1), (0x390C0000, 1), (0x3A0C0000, 1), (0x3B0C0000, 1), (0x3C0C0000, 1), (0x3D0C0000, 1),
    (0x3E0C0000, 1), (0x3F0C0000, 1), (0x100A0000, 4), (0x110A0000, 4), (0x120A0000, 4), (0x130A0000, 4),
    (0x140A0000, 4), (0x150A0000, 4), (0x160A0000, 4), (0x170A0000, 4), (0x180A0000, 4), (0x190A0000, 4),
    (0x1A0A0000, 4), (0x1B0A0000, 4), (0x1C0A0000, 4), (0x1D0A0000, 4), (0x1E0A0000, 4), (0x1F0A0000, 4),
    (0x08080000, 16), (0x09080000, 16), (0x0A080000, 16), (0x0B080000, 16), (0x0C080000, 16), (0x0D080000, 16),
    (0x0E080000, 16), (0x0F080000, 16), (0x04060000, 64), (0x05060000, 64), (0x06060000, 64), (0x07060000, 64),
    (0x02040000, 256), (0x03040000, 256), (0x01020000, 1024)]

/-- The entry at an index of a table given by its runs. -/
def runAt : List (Nat × Nat) → Nat → Nat
  | [], _ => 0
  | (entry, n) :: rest, i => if i < n then entry else runAt rest (i - n)

def acLookahead (i : Nat) : Nat := runAt acLookaheadRuns i

/-- `decode_matrix`. -/
def decodeMatrix (index : Nat) : List Nat :=
  match quantizationMatrix with
  | [] => []
  | dc :: ac => dc :: ac.map fun v => ((v : Int) * quality.getD (min index 24) 0 % 65536).toNat

/-- `quality_index`. -/
def qualityIndex (q : Int) : Nat := (quality.findIdx? (100 - q ≤ ·)).getD 0

/-! ## Arithmetic -/

def wrap16 (v : Int) : Int := v.bmod 65536
def wrap32 (v : Int) : Int := v.bmod 4294967296
def sat16 (v : Int) : Int := max (-32768) (min v 32767)
def adds (a b : Int) : Int := sat16 (a + b)
def subs (a b : Int) : Int := sat16 (a - b)
def mulhi (a b : Int) : Int := a * b / 65536
def sat8 (v : Int) : Byte := UInt8.ofNat (max 0 (min v 255)).toNat

/-! ## The inverse transform -/

abbrev Tile := Nat → Nat → Byte

def product (first firstScale second secondScale : Int) : Int := wrap32 (first * firstScale + second * secondScale)

/-- `row_pass`, at one of the four indices: the sum and the difference. -/
def rowPair (x tab : List Int) (index : Nat) : Int × Int :=
  let at_ := fun i => x.getD i 0
  let tab := fun i => tab.getD i 0
  let pair := index * 2
  let t0 := product (at_ 0) (tab pair) (at_ 2) (tab (pair + 1))
  let t2 := product (at_ 4) (tab (8 + pair)) (at_ 6) (tab (9 + pair))
  let t1 := product (at_ 1) (tab (16 + pair)) (at_ 3) (tab (17 + pair))
  let t3 := product (at_ 5) (tab (24 + pair)) (at_ 7) (tab (25 + pair))
  let even := wrap32 (wrap32 (t0 + 1024) + t2)
  let odd := wrap32 (t3 + t1)
  (sat16 (wrap32 (odd + even) / 2048), sat16 (wrap32 (even - odd) / 2048))

/-- `row_pass`, at a lane. -/
def rowPass (x tab : List Int) (lane : Nat) : Int :=
  if lane < 4 then (rowPair x tab lane).1 else (rowPair x tab (7 - lane)).2

def tg1 : Int := 13036
def tg2 : Int := 27146
def tg3 : Int := -21746
def cos4 : Int := -19195
def rndCol : Int := 32
def rndCorr : Int := 31

/-- `or_correction`: an even number becomes the odd one above it. -/
def orOne (v : Int) : Int := if v % 2 = 0 then v + 1 else v

/-- `column_pass`, at one lane of the eight rows; the registers have the names of the
source. -/
def columnPass (row : Nat → Int) (bias : Int) : List Int :=
  let r2 := row 5
  let r3 := row 3
  let r0 := mulhi (row 5) tg3
  let r1 := mulhi r3 tg3
  let r4 := mulhi (row 7) tg1
  let r0 := adds r0 r2
  let r5 := mulhi (row 1) tg1
  let r1 := adds r1 r3
  let r7 := row 6
  let r0 := adds r0 r3
  let r2 := subs r2 r1
  let r7 := mulhi r7 tg2
  let r1 := r0
  let r3 := mulhi (row 2) tg2
  let r5 := subs r5 (row 7)
  let r4 := adds r4 (row 1)
  let r0 := adds r0 r4
  let r0 := adds r0 1
  let r4 := subs r4 r1
  let r6 := r5
  let r5 := subs r5 r2
  let r5 := adds r5 1
  let r6 := adds r6 r2
  let temp7 := r0
  let r1 := r4
  let r4 := adds r4 r5
  let r2 := mulhi r4 cos4
  let temp3 := r6
  let r1 := subs r1 r5
  let r7 := adds r7 (row 2)
  let r3 := subs r3 (row 6)
  let r6 := row 0
  let r0 := mulhi r1 cos4
  let r5 := row 4
  let r5 := adds r5 r6
  let r6 := subs r6 (row 4)
  let r4 := adds r4 r2
  let r4 := orOne r4
  let r0 := adds r0 r1
  let r0 := orOne r0
  let r2 := r5
  let r5 := adds r5 r7
  let r1 := r6
  let r5 := adds r5 rndCol
  let r2 := subs r2 r7
  let r6 := adds r6 r3
  let r6 := adds r6 rndCol
  let r7 := adds temp7 r5
  let r7 := r7 / 64
  let r1 := subs r1 r3
  let r1 := adds r1 rndCorr
  let r3 := r6
  let r2 := adds r2 rndCorr
  let r6 := adds r6 r4
  let out0 := adds r7 bias
  let out1 := adds (r6 / 64) bias
  let r7 := r1
  let out2 := adds (adds r1 r0 / 64) bias
  let r7 := subs r7 r0 / 64
  let out7 := adds (subs r5 temp7 / 64) bias
  let r3 := subs r3 r4
  let out3 := adds (adds temp3 r2 / 64) bias
  let out4 := adds (subs r2 temp3 / 64) bias
  let out5 := adds r7 bias
  let out6 := adds (r3 / 64) bias
  [out0, out1, out2, out3, out4, out5, out6, out7]

def rowTable (row : Nat) : List Int :=
  [tabI04, tabI17, tabI26, tabI35, tabI04, tabI35, tabI26, tabI17].getD row []

/-- A row of the block, dequantised. -/
def dequantised (block : List Int) (matrix : List Nat) (row : Nat) : List Int :=
  (List.range 8).map fun i => wrap16 (block.getD (row * 8 + i) 0 * wrap16 (matrix.getD (row * 8 + i) 0)) / 16

/-- `idct_scalar`. -/
def idctScalar (block : List Int) (matrix : List Nat) (addValue : Int) : Tile := fun row lane =>
  sat8 ((columnPass (fun r => rowPass (dequantised block matrix r) (rowTable r) lane) addValue).getD row 0)

/-- `broadcast_dc`. -/
def broadcastDc (dc addValue : Int) : Tile := fun _ _ => sat8 (wrap16 (wrap16 (dc + 4) / 8 + addValue))

/-! ## Conversion -/

def roundChannel (v : Int) : Byte := sat8 (adds v 8 / 16)

/-- `bgra_row_scalar`, for one pixel. -/
def bgraPixel (luma blue red : Byte) (c : List Int) : Bytes :=
  let c := fun i => c.getD i 0
  let blueDifference : Int := blue.toNat - 128
  let redDifference : Int := red.toNat - 128
  let chromaRed := mulhi (wrap16 (redDifference * 64)) (c 1)
  let chromaBlue := mulhi (wrap16 (blueDifference * 128)) (c 4)
  let greenFromBlue := mulhi (wrap16 (blueDifference * 64)) (c 2)
  let greenFromRed := mulhi (wrap16 (redDifference * 64)) (c 3)
  let scaled := mulhi (wrap16 ((luma.toNat - 16 : Nat) * 64)) (c 0)
  [roundChannel (adds chromaBlue scaled), roundChannel (subs (subs scaled greenFromBlue) greenFromRed),
    roundChannel (adds chromaRed scaled), 0xFF]

/-- `bgra_row_scalar`. -/
def bgraRowScalar (luma blue red : Bytes) (width : Nat) (c : List Int) : Bytes :=
  (List.range (width / 2 * 2)).flatMap fun i => bgraPixel (luma.getD i 0) (blue.getD (i / 2) 0) (red.getD (i / 2) 0) c

/-- `uyvy_row`. -/
def uyvyRow (luma blue red : Bytes) (width : Nat) : Bytes :=
  (List.range (width / 2)).flatMap fun pair =>
    [blue.getD pair 0, luma.getD (2 * pair) 0, red.getD pair 0, luma.getD (2 * pair + 1) 0]

/-- What a target brings: the transform, which is told how many rows may be nonzero, and the
bytes that the conversion of a row stores. -/
structure Kernels where
  idct : List Int → List Nat → Int → Nat → Tile
  bgraRow : Bytes → Bytes → Bytes → Nat → List Int → Bytes
  bgraRow_length : ∀ luma blue red width c, (bgraRow luma blue red width c).length = width / 2 * 8

theorem length_flatMap_const {α : Type} {l : List α} {f : α → Bytes} {n : Nat} (h : ∀ x ∈ l, (f x).length = n) :
    (l.flatMap f).length = l.length * n := by
  rw [List.length_flatMap, List.map_congr_left h, List.map_const', List.sum_replicate_nat]

theorem bgraRowScalar_length (luma blue red : Bytes) (width : Nat) (c : List Int) :
    (bgraRowScalar luma blue red width c).length = width / 2 * 8 := by
  unfold bgraRowScalar
  rw [length_flatMap_const (n := 4) fun _ _ => rfl, List.length_range, Nat.mul_assoc]

theorem uyvyRow_length (luma blue red : Bytes) (width : Nat) : (uyvyRow luma blue red width).length = width / 2 * 4 := by
  unfold uyvyRow
  rw [length_flatMap_const (n := 4) fun _ _ => rfl, List.length_range]

/-- The kernels written in Rust. -/
def portable : Kernels := ⟨fun block matrix bias _ => idctScalar block matrix bias, bgraRowScalar, bgraRowScalar_length⟩

end OmtClient.Vmx
