import OmtClient.Lib.Sse2
import OmtClient.Vmx.Kernels

/-!
# The transform in SSE2

`crates/omt-vmx/src/idct_sse2.rs`: the inverse transform of a block on x86-64, register by
register, against the scalar one of `idct.rs`.

A block and a matrix are 64 words, a row of either is a register.

1. `row_pass_lane`: the row pass in a lane.
2. `column_pass_lane`: the column pass in a lane.
3. `idct_scalar_eq`: both transforms write the same tile, whatever the block, the matrix and
   the bias are and however many rows they are told of.
-/

namespace OmtClient.Vmx.Sse2

open OmtClient.Lib OmtClient.Lib.Sse2

/-- `[i16; 64]` and `[u16; 64]`. -/
abbrev Words := Fin 64 → BitVec 16

/-- `load8` of a row. -/
def row (block : Words) (index : Fin 8) : M128 := fun i => block ⟨index * 8 + i, by omega⟩

/-- `load8` of a part of a table. -/
def table (tab : List Int) (part : Nat) : M128 := fun i => BitVec.ofInt 16 (tab.getD (part * 8 + i) 0)

/-- `pair`: a 32-bit lane holding `a` in its low half and `b` in its high half. -/
def pair (a b : BitVec 16) : M128 := set1Epi32 (a.setWidth 32 ||| b.setWidth 32 <<< 16)

/-- `row_pass`. -/
def rowPass (x : M128) (tab : List Int) : M128 :=
  let t0 := maddEpi16 (pair (x 0) (x 2)) (table tab 0)
  let t2 := maddEpi16 (pair (x 4) (x 6)) (table tab 1)
  let t1 := maddEpi16 (pair (x 1) (x 3)) (table tab 2)
  let t3 := maddEpi16 (pair (x 5) (x 7)) (table tab 3)
  let even := addEpi32 (addEpi32 t0 (set1Epi32 1024)) t2
  let odd := addEpi32 t3 t1
  let sums := sraiEpi32 11 (addEpi32 odd even)
  let differences := sraiEpi32 11 (subEpi32 even odd)
  packsEpi32 sums (shuffleEpi32 0x1B differences)

/-- `store`: the eight bytes of a row. -/
def store (v : M128) : Bytes := (packusEpi16 v setzero).take 8

def shift (v : M128) : M128 := sraiEpi16 6 v
def mulhi (a : M128) (c : Int) : M128 := mulhiEpi16 a (set1Epi16 (BitVec.ofInt 16 c))
def adds (a b : M128) : M128 := addsEpi16 a b
def subs (a b : M128) : M128 := subsEpi16 a b
def addc (a : M128) (c : Int) : M128 := addsEpi16 a (set1Epi16 (BitVec.ofInt 16 c))
def corr (a : M128) : M128 := orSi128 a (set1Epi16 1)

/-- The column pass: the eight rows that are stored. The registers have the names of the source. -/
def columnPass (row : Nat → M128) (bias : M128) : List M128 :=
  let r2 := row 5
  let r3 := row 3
  let r0 := mulhi (row 5) tg3
  let r1 := mulhi r3 tg3
  let r4 := mulhi (row 7) tg1
  let r0 := adds r0 r2
  let r5 := mulhi (row 1) tg1
  let r1 := adds r1 r3
  let r7 := row 6
  let r0 := adds r0 r3
  let r2 := subs r2 r1
  let r7 := mulhi r7 tg2
  let r1 := r0
  let r3 := mulhi (row 2) tg2
  let r5 := subs r5 (row 7)
  let r4 := adds r4 (row 1)
  let r0 := adds r0 r4
  let r0 := addc r0 1
  let r4 := subs r4 r1
  let r6 := r5
  let r5 := subs r5 r2
  let r5 := addc r5 1
  let r6 := adds r6 r2
  let temp7 := r0
  let r1 := r4
  let r4 := adds r4 r5
  let r2 := mulhi r4 cos4
  let temp3 := r6
  let r1 := subs r1 r5
  let r7 := adds r7 (row 2)
  let r3 := subs r3 (row 6)
  let r6 := row 0
  let r0 := mulhi r1 cos4
  let r5 := row 4
  let r5 := adds r5 r6
  let r6 := subs r6 (row 4)
  let r4 := adds r4 r2
  let r4 := corr r4
  let r0 := adds r0 r1
  let r0 := corr r0
  let r2 := r5
  let r5 := adds r5 r7
  let r1 := r6
  let r5 := addc r5 rndCol
  let r2 := subs r2 r7
  let r7 := temp7
  let r6 := adds r6 r3
  let r6 := addc r6 rndCol
  let r7 := adds r7 r5
  let r7 := shift r7
  let r1 := subs r1 r3
  let r1 := addc r1 rndCorr
  let r3 := r6
  let r2 := addc r2 rndCorr
  let r6 := adds r6 r4
  let out0 := adds r7 bias
  let r6 := shift r6
  let out1 := adds r6 bias
  let r7 := r1
  let out2 := adds (shift (adds r1 r0)) bias
  let r6 := temp3
  let r7 := shift (subs r7 r0)
  let out7 := adds (shift (subs r5 temp7)) bias
  let r3 := subs r3 r4
  let r6 := adds r6 r2
  let r2 := subs r2 temp3
  let r6 := shift r6
  let r2 := shift r2
  let out3 := adds r6 bias
  let r3 := shift r3
  let out4 := adds r2 bias
  let out5 := adds r7 bias
  let out6 := adds r3 bias
  [out0, out1, out2, out3, out4, out5, out6, out7]

/-- The rows of the block, dequantised and after the row pass. -/
def transformed (block matrix : Words) : List M128 :=
  let rows := fun r => sraiEpi16 4 (mulloEpi16 (row block r) (row matrix r))
  [rowPass (rows 0) tabI04, rowPass (rows 1) tabI17, rowPass (rows 2) tabI26, rowPass (rows 3) tabI35,
    rowPass (rows 4) tabI04, rowPass (rows 5) tabI35, rowPass (rows 6) tabI26, rowPass (rows 7) tabI17]

/-- `idct`, which takes no notice of how many rows may be nonzero. -/
def idct (block matrix : Words) (bias : BitVec 16) (_rows : Nat) : Tile := fun r lane =>
  (store ((columnPass (fun k => (transformed block matrix).getD k setzero) (set1Epi16 bias)).getD r setzero)).getD lane 0

namespace Sse2Lemmas

/-! ### The columns -/

variable (a b : M128) (i : Fin 8)

@[simp] theorem adds_lane : (adds a b i).toInt = Vmx.adds (a i).toInt (b i).toInt := toInt_addsEpi16 a b i

@[simp] theorem subs_lane : (subs a b i).toInt = Vmx.subs (a i).toInt (b i).toInt := toInt_subsEpi16 a b i

@[simp] theorem shift_lane : (shift a i).toInt = (a i).toInt / 64 := toInt_sraiEpi16 6 a i

@[simp] theorem corr_lane : (corr a i).toInt = orOne (a i).toInt := toInt_or_one a i

theorem constant {c : Int} (hlow : -32768 ≤ c) (hhigh : c < 32768) : (BitVec.ofInt 16 c).toInt = c := by
  rw [BitVec.toInt_ofInt]
  exact Int.bmod_eq_of_le (by omega) (by omega)

@[simp] theorem mulhi_tg1 : (mulhi a tg1 i).toInt = Vmx.mulhi (a i).toInt tg1 := toInt_mulhiEpi16 a _ i

@[simp] theorem mulhi_tg2 : (mulhi a tg2 i).toInt = Vmx.mulhi (a i).toInt tg2 := toInt_mulhiEpi16 a _ i

@[simp] theorem mulhi_tg3 : (mulhi a tg3 i).toInt = Vmx.mulhi (a i).toInt tg3 := toInt_mulhiEpi16 a _ i

@[simp] theorem mulhi_cos4 : (mulhi a cos4 i).toInt = Vmx.mulhi (a i).toInt cos4 := toInt_mulhiEpi16 a _ i

@[simp] theorem addc_one : (addc a 1 i).toInt = Vmx.adds (a i).toInt 1 := toInt_addsEpi16 a _ i

@[simp] theorem addc_rndCol : (addc a rndCol i).toInt = Vmx.adds (a i).toInt rndCol := toInt_addsEpi16 a _ i

@[simp] theorem addc_rndCorr : (addc a rndCorr i).toInt = Vmx.adds (a i).toInt rndCorr := toInt_addsEpi16 a _ i

end Sse2Lemmas

open Sse2Lemmas

/-- The column pass in a lane. -/
theorem column_pass_lane (row : Nat → M128) (bias : M128) (i : Fin 8) :
    (columnPass row bias).map (fun r => (r i).toInt) = Vmx.columnPass (fun r => (row r i).toInt) (bias i).toInt := by
  unfold columnPass Vmx.columnPass
  simp only [List.map_cons, List.map_nil, adds_lane, subs_lane, shift_lane, corr_lane, mulhi_tg1, mulhi_tg2, mulhi_tg3,
    mulhi_cos4, addc_one, addc_rndCol, addc_rndCorr]

namespace Sse2Lemmas

/-! ### The rows -/

theorem pair_dword (a b : BitVec 16) (i : Fin 4) : dword (pair a b) i = b ++ a := by
  have ha := a.isLt
  have hb := b.isLt
  unfold pair set1Epi32
  rw [dword_ofDwords]
  refine BitVec.eq_of_toNat_eq ?_
  have ha' : a.toNat % 2 ^ 32 = a.toNat := Nat.mod_eq_of_lt (by omega)
  have hb' : b.toNat % 2 ^ 32 = b.toNat := Nat.mod_eq_of_lt (by omega)
  have hshift : b.toNat <<< 16 % 2 ^ 32 = b.toNat <<< 16 := Nat.mod_eq_of_lt (by rw [Nat.shiftLeft_eq]; omega)
  rw [BitVec.toNat_append, BitVec.toNat_or, BitVec.toNat_shiftLeft, BitVec.toNat_setWidth, BitVec.toNat_setWidth, ha', hb',
    hshift, Nat.or_comm]

theorem pair_low (a b : BitVec 16) (i : Fin 4) : pair a b (low i) = a := by
  rw [← append_low (pair a b (high i)) (pair a b (low i))]
  exact (congrArg (·.extractLsb' 0 16) (pair_dword a b i)).trans (append_low b a)

theorem pair_high (a b : BitVec 16) (i : Fin 4) : pair a b (high i) = b := by
  rw [← append_high (pair a b (high i)) (pair a b (low i))]
  exact (congrArg (·.extractLsb' 16 16) (pair_dword a b i)).trans (append_high b a)

/-- The entries of a table are words. -/
def Small (tab : List Int) : Prop := ∀ k, -32768 ≤ tab.getD k 0 ∧ tab.getD k 0 < 32768

theorem small_of_all {tab : List Int} (h : ∀ c ∈ tab, -32768 ≤ c ∧ c < 32768) : Small tab := by
  intro k
  rw [List.getD_eq_getElem?_getD]
  cases hk : tab[k]? with
  | none => exact ⟨by decide, by decide⟩
  | some c => exact h c (List.mem_of_getElem? hk)

theorem small_table (r : Nat) : Small (rowTable r) := by
  have hall : ∀ tab ∈ [tabI04, tabI17, tabI26, tabI35], ∀ c ∈ tab, -32768 ≤ c ∧ c < 32768 := by decide
  unfold rowTable
  rw [List.getD_eq_getElem?_getD]
  cases hr : [tabI04, tabI17, tabI26, tabI35, tabI04, tabI35, tabI26, tabI17][r]? with
  | none => exact small_of_all (List.forall_mem_nil _)
  | some tab =>
    refine small_of_all (hall tab ?_)
    have hmem := List.mem_of_getElem? hr
    simp only [List.mem_cons, List.not_mem_nil, or_false] at hmem ⊢
    tauto

variable {tab : List Int}

theorem table_lane (h : Small tab) (part : Nat) (i : Fin 8) : (table tab part i).toInt = tab.getD (part * 8 + i) 0 :=
  constant (h _).1 (h _).2

/-- A product of a pair with two entries of the table. -/
theorem madd_lane (h : Small tab) (a b : BitVec 16) (part : Nat) (i : Fin 4) :
    (dword (maddEpi16 (pair a b) (table tab part)) i).toInt =
      product a.toInt (tab.getD (part * 8 + i * 2) 0) b.toInt (tab.getD (part * 8 + i * 2 + 1) 0) := by
  have hlow : part * 8 + (low i).val = part * 8 + i * 2 := by
    unfold low
    dsimp only
    omega
  have hhigh : part * 8 + (high i).val = part * 8 + i * 2 + 1 := by
    unfold high
    dsimp only
    omega
  rw [dword_maddEpi16, pair_low, pair_high, table_lane h, table_lane h, hlow, hhigh]
  rfl

theorem shuffle_reverse (a : M128) (i : Fin 4) : dword (shuffleEpi32 0x1B a) i = dword a ⟨3 - i, by omega⟩ := by
  have hlane : ∀ i : Fin 4, (⟨0x1B / 4 ^ i.val % 4, Nat.mod_lt _ (by decide)⟩ : Fin 4) = ⟨3 - i, by omega⟩ := by decide
  rw [shuffleEpi32, dword_ofDwords, hlane]

/-- The sums and the differences of the row pass, and the pair of the scalar one. -/
theorem pair_lane (h : Small tab) (x : M128) (i : Fin 4) :
    let t0 := maddEpi16 (pair (x 0) (x 2)) (table tab 0)
    let t2 := maddEpi16 (pair (x 4) (x 6)) (table tab 1)
    let t1 := maddEpi16 (pair (x 1) (x 3)) (table tab 2)
    let t3 := maddEpi16 (pair (x 5) (x 7)) (table tab 3)
    let even := addEpi32 (addEpi32 t0 (set1Epi32 1024)) t2
    let odd := addEpi32 t3 t1
    (saturate (dword (sraiEpi32 11 (addEpi32 odd even)) i).toInt,
      saturate (dword (sraiEpi32 11 (subEpi32 even odd)) i).toInt) =
      rowPair (List.ofFn fun i => (x i).toInt) tab i := by
  have hround : (dword (set1Epi32 1024) i).toInt = 1024 := by
    rw [set1Epi32, dword_ofDwords]
    rfl
  unfold rowPair
  simp only [dword_sraiEpi32, dword_addEpi32, dword_subEpi32, madd_lane h, hround, Nat.zero_mul, Nat.zero_add]
  have h9 : 9 + i.val * 2 = 1 * 8 + i.val * 2 + 1 := by omega
  have h17 : 17 + i.val * 2 = 2 * 8 + i.val * 2 + 1 := by omega
  have h25 : 25 + i.val * 2 = 3 * 8 + i.val * 2 + 1 := by omega
  rw [h9, h17, h25]
  rfl

end Sse2Lemmas

/-- The row pass in a lane. -/
theorem row_pass_lane {tab : List Int} (h : Small tab) (x : M128) (i : Fin 8) :
    (rowPass x tab i).toInt = Vmx.rowPass (List.ofFn fun i => (x i).toInt) tab i := by
  unfold rowPass Vmx.rowPass packsEpi32
  rw [toInt_ofInt_saturate]
  by_cases hlow : i.val < 4
  · rw [dif_pos hlow, if_pos hlow]
    exact congrArg Prod.fst (pair_lane h x ⟨i, hlow⟩)
  · have hlane : (⟨3 - (i.val - 4), by omega⟩ : Fin 4) = ⟨7 - i, by omega⟩ := Fin.ext (by dsimp only; omega)
    rw [dif_neg hlow, if_neg hlow, shuffle_reverse, hlane]
    exact congrArg Prod.snd (pair_lane h x ⟨7 - i, by omega⟩)

namespace Sse2Lemmas

theorem columnPass_congr {f g : Nat → Int} (h : ∀ r < 8, f r = g r) (bias : Int) : Vmx.columnPass f bias = Vmx.columnPass g bias := by
  unfold Vmx.columnPass
  rw [h 0 (by decide), h 1 (by decide), h 2 (by decide), h 3 (by decide), h 4 (by decide), h 5 (by decide), h 6 (by decide),
    h 7 (by decide)]

theorem getD_ofFn {α : Type} {n : Nat} (f : Fin n → α) (d : α) (i : Fin n) : (List.ofFn f).getD i d = f i := by
  rw [List.getD_eq_getElem?_getD, List.getElem?_ofFn, dif_pos i.isLt]
  rfl

/-- A row, dequantised. -/
theorem dequantised_eq (block matrix : Words) (r : Fin 8) :
    dequantised (List.ofFn fun i => (block i).toInt) (List.ofFn fun i => (matrix i).toNat) r =
      List.ofFn fun i => (sraiEpi16 4 (mulloEpi16 (row block r) (row matrix r)) i).toInt := by
  have hword (i : Fin 8) : wrap16 ((List.ofFn fun i => (block i).toInt).getD (r * 8 + i) 0 *
      wrap16 ((List.ofFn fun i => (matrix i).toNat).getD (r * 8 + i) 0)) / 16 =
        (sraiEpi16 4 (mulloEpi16 (row block r) (row matrix r)) i).toInt := by
    have hblock := getD_ofFn (fun i => (block i).toInt) 0 ⟨r * 8 + i, by omega⟩
    have hmatrix := getD_ofFn (fun i => (matrix i).toNat) 0 ⟨r * 8 + i, by omega⟩
    have hsigned : wrap16 ((matrix ⟨r * 8 + i, by omega⟩).toNat : Int) = (matrix ⟨r * 8 + i, by omega⟩).toInt :=
      (BitVec.toInt_eq_toNat_bmod _).symm
    rw [toInt_sraiEpi16, toInt_mulloEpi16, hblock, hmatrix, hsigned]
    rfl
  exact congrArg List.ofFn (funext hword)

theorem transformed_lane (block matrix : Words) (r lane : Fin 8) :
    ((transformed block matrix).getD r setzero lane).toInt =
      Vmx.rowPass (dequantised (List.ofFn fun i => (block i).toInt) (List.ofFn fun i => (matrix i).toNat) r) (rowTable r)
        lane := by
  have hlist : transformed block matrix =
      List.ofFn fun r : Fin 8 => rowPass (sraiEpi16 4 (mulloEpi16 (row block r) (row matrix r))) (rowTable r) := rfl
  rw [hlist, getD_ofFn, row_pass_lane (small_table r), dequantised_eq]

theorem store_lane (v : M128) (lane : Fin 8) : (store v).getD lane 0 = sat8 (v lane).toInt := by
  have hstore : store v = List.ofFn fun i => sat8 (v i).toInt := rfl
  rw [hstore, getD_ofFn]

end Sse2Lemmas

/-- **The SSE2 transform is the scalar one.** Every pixel of the block is the same, for every block,
matrix and bias of 16 bits and every number of rows that the transform is told. -/
theorem idct_scalar_eq (block matrix : Words) (bias : BitVec 16) (rows : Nat) (r lane : Fin 8) :
    idct block matrix bias rows r lane =
      idctScalar (List.ofFn fun i => (block i).toInt) (List.ofFn fun i => (matrix i).toNat) bias.toInt r lane := by
  have hrows (k : Nat) (hk : k < 8) : ((transformed block matrix).getD k setzero lane).toInt =
      Vmx.rowPass (dequantised (List.ofFn fun i => (block i).toInt) (List.ofFn fun i => (matrix i).toNat) k) (rowTable k) lane :=
    transformed_lane block matrix ⟨k, hk⟩ lane
  have hcolumns := column_pass_lane (fun k => (transformed block matrix).getD k setzero) (set1Epi16 bias) lane
  rw [columnPass_congr hrows] at hcolumns
  unfold idct idctScalar
  rw [toInt_set1Epi16] at hcolumns
  rw [store_lane, ← hcolumns, List.getD_eq_getElem?_getD, List.getD_eq_getElem?_getD, List.getElem?_map]
  cases (columnPass (fun k => (transformed block matrix).getD k setzero) (set1Epi16 bias))[r.val]? with
  | none => rfl
  | some v => rfl

end OmtClient.Vmx.Sse2
