import OmtClient.Vmx.Place

/-!
# Planar and packed decodes

`decode_yuv422p` of `crates/omt-vmx/src/lib.rs` against `decode_uyvy` of the same frame, and
`copy_band` against copying its rows one by one.

1. `copyBand_rows`: a band copied in one piece is the band copied row by row.
2. `rest_kept`: what no slice stores into keeps what it held.
3. `band_byte`: what a buffer holds whose slices store their rows.
4. `planes_interleave`: the two decodes, whatever the schedules of their workers.
-/

namespace OmtClient.Vmx.Planar

open OmtClient.Lib OmtClient.Vmx.FrameLemmas OmtClient.Vmx.SliceLemmas OmtClient.Vmx.Claim
open OmtClient.Vmx.Claim.ClaimLemmas OmtClient.Vmx.Place.PlaceLemmas

/-- The bytes of the picture in a row of plane `p`. -/
def planeWidth (g : Geometry) : Nat → Nat
  | 0 => g.width
  | _ => g.width / 2

/-- The distance between two rows of plane `p` in the scratch. -/
def scratchStride (g : Geometry) : Nat → Nat
  | 0 => g.lumaStride
  | _ => g.chromaStride

/-- A byte of a buffer is in a row of the picture. -/
def visible (g : Geometry) (width stride i : Nat) : Prop := ∃ row < g.height, ∃ c < width, i = row * stride + c

/-- `copy_band` without the copy in one piece. -/
def copyRows (g : Geometry) (job : Job) (index p : Nat) (source : Bytes) (sourceStride width : Nat) : List Store × Bool :=
  storeRows (job.planes.getD p none)
    (fun row => ⟨p + 1, (index * sliceHeight + row) * job.planeStrides.getD p 0, (source.drop (row * sourceStride)).take width⟩)
    (List.range (g.sliceRows index))

/-- The two pixels of a pair in the planes `m`, and the four bytes of it in the packed
output `m'`. -/
def SamePair (packed planar : Job) (m m' : Memory) (row pair : Nat) : Prop :=
  ∃ u y v y',
    (m 2)[row * planar.planeStrides.getD 1 0 + pair]? = some u ∧ (m 1)[row * planar.planeStrides.getD 0 0 + 2 * pair]? = some y ∧
    (m 3)[row * planar.planeStrides.getD 2 0 + pair]? = some v ∧
    (m 1)[row * planar.planeStrides.getD 0 0 + (2 * pair + 1)]? = some y' ∧
    (m' 0)[row * packed.stride + 4 * pair]? = some u ∧ (m' 0)[row * packed.stride + (4 * pair + 1)]? = some y ∧
    (m' 0)[row * packed.stride + (4 * pair + 2)]? = some v ∧ (m' 0)[row * packed.stride + (4 * pair + 3)]? = some y'

/-- A planar decode `s` and a packed decode `t` of a frame. -/
structure Interleaved (g : Geometry) (planar packed : Frame g) (memory memory' : Memory) (s t : State) : Prop where
  /-- The bytes of the planes outside the picture are not touched, whatever becomes of the decode. -/
  planarRest : ∀ b i, (∀ p < 3, b = p + 1 → ¬ visible g (planeWidth g p) (planar.job.planeStrides.getD p 0) i) →
    (s.memory b)[i]? = (memory b)[i]?
  /-- Nor are those of the packed output. -/
  packedRest : ∀ b i, (b = 0 → ¬ visible g (g.width * 2) packed.job.stride i) → (t.memory b)[i]? = (memory' b)[i]?
  /-- A band of a plane is stored in full, and leaves what its rows would leave one by one. -/
  bands : ∀ j < g.sliceCount, ∀ p < 3, ∀ source : Bytes, source.length = 16 * scratchStride g p →
    (copyBand g planar.job j p source (scratchStride g p) (planeWidth g p)).2 = true ∧
    (copyRows g planar.job j p source (scratchStride g p) (planeWidth g p)).2 = true ∧
    ∀ m : Memory, (m (p + 1)).length = (memory (p + 1)).length →
      (copyBand g planar.job j p source (scratchStride g p) (planeWidth g p)).1.foldl Memory.store m =
        (copyRows g planar.job j p source (scratchStride g p) (planeWidth g p)).1.foldl Memory.store m
  /-- Both end alike, and then the packed output is the planes interleaved. -/
  pixels : (∀ w ∈ s.workers, w.phase = .finished) → (∀ w ∈ t.workers, w.phase = .finished) → s.result = t.result ∧
    (t.result = .ok () → ∀ row < g.height, ∀ pair < g.width / 2, SamePair packed.job planar.job s.memory t.memory row pair)

namespace PlanarLemmas

variable {k : Kernels} {g : Geometry} {job : Job} {f : Frame g} {memory : Memory} {s : State}

/-! ### Rows of a band -/

theorem storeBand_all {len j stride buffer : Nat} {data : Nat → Bytes} (hdata : ∀ row, (data row).length ≤ stride)
    (hlen : stride * g.height ≤ len) :
    storeRows (some len) (fun row => ⟨buffer, (j * sliceHeight + row) * stride, data row⟩) (List.range (g.sliceRows j)) =
      ((List.range (g.sliceRows j)).map fun row => ⟨buffer, (j * sliceHeight + row) * stride, data row⟩, true) := by
  refine storeRows_all fun row hrow => outRow_some ?_
  have hrow : row < g.sliceRows j := List.mem_range.mp hrow
  have hbottom : j * sliceHeight + row + 1 ≤ g.height := by
    unfold Geometry.sliceRows at hrow
    omega
  calc (j * sliceHeight + row) * stride + (data row).length
      ≤ (j * sliceHeight + row) * stride + stride := Nat.add_le_add_left (hdata row) _
    _ = (j * sliceHeight + row + 1) * stride := (Nat.succ_mul _ _).symm
    _ ≤ g.height * stride := Nat.mul_le_mul_right _ hbottom
    _ = stride * g.height := Nat.mul_comm _ _
    _ ≤ len := hlen

theorem slice_bottom {j : Nat} (hj : j < g.sliceCount) : j * sliceHeight + g.sliceRows j ≤ g.height := by
  unfold Geometry.sliceCount sliceHeight at hj
  unfold Geometry.sliceRows sliceHeight
  omega

theorem sliceRows_le_height (j : Nat) : g.sliceRows j ≤ 16 := Nat.min_le_right _ _

theorem planeWidth_pos (p : Nat) : 0 < planeWidth g p := by
  have hwidth := g.hwidth.1
  unfold planeWidth
  split <;> omega

/-- A row of a slice covers bytes of the picture. -/
theorem covers_visible {j row stride width i : Nat} {data : Bytes} (hrow : row < g.sliceRows j) (hdata : data.length ≤ width)
    (hcovers : (⟨(j * sliceHeight + row) * stride, data⟩ : Write Byte).covers i) : visible g width stride i := by
  obtain ⟨hfrom, hto⟩ := hcovers
  dsimp only at hfrom hto
  refine ⟨j * sliceHeight + row, ?_, i - (j * sliceHeight + row) * stride, by omega, by omega⟩
  unfold Geometry.sliceRows at hrow
  omega

/-- The writes of a band's rows. -/
def rowWrites (g : Geometry) (j stride : Nat) (data : Nat → Bytes) : List (Write Byte) :=
  (List.range (g.sliceRows j)).map fun row => ⟨(j * sliceHeight + row) * stride, data row⟩

/-- A plane that fits its buffer. -/
structure Fits (g : Geometry) (job : Job) (p len : Nat) : Prop where
  output : job.planes.getD p none = some len
  width : planeWidth g p ≤ job.planeStrides.getD p 0
  length : job.planeStrides.getD p 0 * g.height ≤ len

variable {p len j : Nat} {source : Bytes}

theorem copyRows_all (h : Fits g job p len) :
    copyRows g job j p source (scratchStride g p) (planeWidth g p) =
      ((List.range (g.sliceRows j)).map fun row => ⟨p + 1, (j * sliceHeight + row) * job.planeStrides.getD p 0,
        (source.drop (row * scratchStride g p)).take (planeWidth g p)⟩, true) := by
  unfold copyRows
  rw [h.output]
  exact storeBand_all (fun row => Nat.le_trans (List.length_take_le _ _) h.width) h.length

/-- What a band of a plane writes, in one piece or row by row. -/
theorem copyBand_rows (h : Fits g job p len) (hj : j < g.sliceCount) (hsource : source.length = 16 * scratchStride g p) :
    (copyBand g job j p source (scratchStride g p) (planeWidth g p)).2 = true ∧
      (∀ st ∈ (copyBand g job j p source (scratchStride g p) (planeWidth g p)).1, st.buffer = p + 1 ∧
        ∀ i, st.write.covers i → visible g (planeWidth g p) (job.planeStrides.getD p 0) i) ∧
      ∀ a : Bytes, a.length = len →
        applyAll a ((copyBand g job j p source (scratchStride g p) (planeWidth g p)).1.map (·.write)) =
          applyAll a (rowWrites g j (job.planeStrides.getD p 0) fun row =>
            (source.drop (row * scratchStride g p)).take (planeWidth g p)) := by
  have hbottom := slice_bottom hj
  have hroom : (j * sliceHeight + g.sliceRows j) * job.planeStrides.getD p 0 ≤ len := by
    refine Nat.le_trans (Nat.mul_le_mul_right _ hbottom) ?_
    rw [Nat.mul_comm]
    exact h.length
  by_cases htight : scratchStride g p = planeWidth g p ∧ job.planeStrides.getD p 0 = planeWidth g p
  · obtain ⟨htight, hstride⟩ := htight
    have hdata : g.sliceRows j * planeWidth g p ≤ source.length := by
      rw [hsource, htight]
      exact Nat.mul_le_mul_right _ (sliceRows_le_height j)
    have hstores : copyBand g job j p source (scratchStride g p) (planeWidth g p) =
        ([⟨p + 1, j * sliceHeight * planeWidth g p, source.take (g.sliceRows j * planeWidth g p)⟩], true) := by
      unfold copyBand
      rw [if_pos ⟨htight, hstride⟩, h.output, hstride, storeRows]
      rw [if_pos (outRow_some ?_)]
      · rfl
      · rw [List.length_take, Nat.min_eq_left hdata, ← Nat.add_mul]
        exact hstride ▸ hroom
    rw [hstores]
    refine ⟨rfl, fun st hst => ?_, fun a ha => ?_⟩
    · rw [List.mem_singleton.mp hst]
      refine ⟨rfl, fun i hcovers => ?_⟩
      obtain ⟨hfrom, hto⟩ := hcovers
      rw [List.length_take, Nat.min_eq_left hdata, ← Nat.add_mul] at hto
      refine ⟨i / planeWidth g p, Nat.lt_of_lt_of_le (Nat.div_lt_of_lt_mul ?_) hbottom, i % planeWidth g p,
        Nat.mod_lt _ (planeWidth_pos p), ?_⟩
      · rwa [Nat.mul_comm]
      · rw [hstride]
        exact (Nat.div_add_mod' i _).symm
    · rw [rowWrites, hstride, htight]
      exact (applyAll_rows hdata (by rw [ha]; exact hstride ▸ hroom)).symm
  · have hstores : copyBand g job j p source (scratchStride g p) (planeWidth g p) =
        copyRows g job j p source (scratchStride g p) (planeWidth g p) := by
      unfold copyBand
      rw [if_neg htight]
      rfl
    rw [hstores, copyRows_all h]
    refine ⟨rfl, fun st hst => ?_, fun a _ => ?_⟩
    · obtain ⟨row, hrow, rfl⟩ := List.mem_map.mp hst
      exact ⟨rfl, fun i => covers_visible (List.mem_range.mp hrow) (List.length_take_le _ _)⟩
    · rw [List.map_map]
      rfl

/-! ### What the slices leave -/

/-- A byte that no slice stores into keeps what it held. -/
theorem rest_kept {b i : Nat} (h : Inv k g f memory s) (hnone : ∀ j, ∀ st ∈ storesOf k g f j, st.buffer = b → ¬ st.write.covers i) :
    (s.memory b)[i]? = (memory b)[i]? := by
  by_cases hany : ∃ j, owns g f b j i
  · obtain ⟨j, hj⟩ := hany
    rw [h.owned b i j hj]
    refine applyAll_untouched fun w hw hcovers => ?_
    obtain ⟨st, hst, rfl⟩ := List.mem_map.mp hw
    obtain ⟨hst, hb⟩ := List.mem_filter.mp hst
    exact hnone j st (done_mem h hst) (eq_of_beq hb) hcovers
  · exact h.untouched b i fun j hj => hany ⟨j, hj⟩

/-- A byte of a row that a slice has stored. -/
theorem band_byte {b j row n stride : Nat} {data : Nat → Bytes} (h : Inv k g f memory s) (hplacement : f.job.placement = none)
    (hstride : f.job.strideOf b = stride)
    (hdone : applyAll (memory b) (writesOn b (s.done j)) = applyAll (memory b) (rowWrites g j stride data))
    (hdata : ∀ row, (data row).length ≤ stride) (hlen : stride * g.height ≤ (memory b).length) (hrow : row < g.sliceRows j)
    (hn : n < (data row).length) : (s.memory b)[(j * sliceHeight + row) * stride + n]? = (data row)[n]? := by
  have hin : ∀ {r i}, (⟨(j * sliceHeight + r) * stride, data r⟩ : Write Byte).covers i →
      (j * sliceHeight + r) * stride ≤ i ∧ i < (j * sliceHeight + r + 1) * stride := by
    intro r i hcovers
    refine covers_row (x := 0) rfl ?_ (Nat.le_refl _) (Nat.lt_succ_self _) hcovers
    rw [Nat.zero_add]
    exact hdata r
  have hcovers : (⟨(j * sliceHeight + row) * stride, data row⟩ : Write Byte).covers ((j * sliceHeight + row) * stride + n) :=
    ⟨Nat.le_add_right _ _, Nat.add_lt_add_left hn _⟩
  have hbottom : (j * sliceHeight + row + 1) * stride ≤ (memory b).length := by
    refine Nat.le_trans (Nat.mul_le_mul_right _ ?_) (Nat.mul_comm g.height _ ▸ hlen)
    unfold Geometry.sliceRows at hrow
    omega
  have howns : owns g f b j ((j * sliceHeight + row) * stride + n) := by
    unfold owns
    rw [rowsOf_unplaced hplacement, hstride]
    refine ⟨Nat.le_trans (Nat.mul_le_mul_right _ (Nat.le_add_right _ row)) (hin hcovers).1, ?_⟩
    exact Nat.lt_of_lt_of_le (hin hcovers).2 (Nat.mul_le_mul_right _ (by dsimp only; omega))
  rw [h.owned b _ j howns, hdone]
  refine (applyAll_covered (w := ⟨(j * sliceHeight + row) * stride, data row⟩) ?_ (decide_eq_true ?_) hcovers ?_).trans ?_
  · exact List.mem_map.mpr ⟨row, List.mem_range.mpr hrow, rfl⟩
  · have hroom := hdata row
    rw [Nat.succ_mul] at hbottom
    dsimp only
    omega
  · intro v hv hcovers'
    obtain ⟨r, -, rfl⟩ := List.mem_map.mp hv
    rw [Nat.add_left_cancel (row_unique (hin hcovers') (hin hcovers))]
  · dsimp only
    rw [Nat.add_sub_cancel_left]

/-! ### The slices of the two decodes -/

/-- A plane of the scratch. -/
def plane (t : Scratch) : Nat → Bytes
  | 0 => t.luma
  | 1 => t.blue
  | _ => t.red

/-- A row of a plane, in its buffer. -/
def planeData (g : Geometry) (t : Scratch) (p row : Nat) : Bytes :=
  ((plane t p).drop (row * scratchStride g p)).take (planeWidth g p)

/-- A row of the packed output. -/
def packedData (g : Geometry) (t : Scratch) (row : Nat) : Bytes :=
  uyvyRow (t.luma.drop (row * g.lumaStride)) (t.blue.drop (row * g.chromaStride)) (t.red.drop (row * g.chromaStride)) g.width

/-- The band of a plane, as `decode_slice` stores it. -/
def band (g : Geometry) (job : Job) (t : Scratch) (j p : Nat) : List Store :=
  (copyBand g job j p (plane t p) (scratchStride g p) (planeWidth g p)).1

variable {slice slice' : Slice} {t : Scratch} {ok : Bool} {n : Nat}

theorem plane_length (h : t.Sized g n) (p : Nat) : (plane t p).length = 16 * scratchStride g p := by
  cases p with
  | zero => exact h.luma
  | succ p =>
    cases p with
    | zero => exact h.blue
    | succ p => exact h.red

theorem decodePlanes_sized (h : decodePlanes k g job slice (Scratch.new g n) = (t, true)) : t.Sized g n := by
  have hnew := Scratch.new_sized g n
  rcases (@decodePlanes_alone k _ job slice) hnew hnew with ⟨u, u', hu, -⟩ | ⟨u, u', hu, -, hboth⟩
  · cases (Prod.mk.inj (h.symm.trans hu)).2
  · exact (Prod.mk.inj (h.symm.trans hu)).1 ▸ hboth.left

theorem planar_slice {luma blue red : Nat} (hplacement : job.placement = none) (hpixels : job.pixels = .yuv422p)
    (h0 : Fits g job 0 luma) (h1 : Fits g job 1 blue) (h2 : Fits g job 2 red) (hj : j < g.sliceCount)
    (hplanes : decodePlanes k g job slice (Scratch.new g 0) = (t, ok)) :
    sliceAlone k g job j slice = (if ok then band g job t j 0 ++ band g job t j 1 ++ band g job t j 2 else [], ok) := by
  have hbytes : job.placedBytes = 0 := by
    rw [Job.placedBytes, hplacement]
    rfl
  unfold sliceAlone decodeSlice
  rw [hbytes, hplanes, hplacement]
  cases ok with
  | false => rfl
  | true =>
    have hsized := decodePlanes_sized hplanes
    obtain ⟨hluma, -⟩ := (@copyBand_rows _ _ _ _ _ t.luma) h0 hj (plane_length hsized 0)
    obtain ⟨hblue, -⟩ := (@copyBand_rows _ _ _ _ _ t.blue) h1 hj (plane_length hsized 1)
    obtain ⟨hred, -⟩ := (@copyBand_rows _ _ _ _ _ t.red) h2 hj (plane_length hsized 2)
    have hbands : copyBands g job j t.luma t.blue t.red =
        (band g job t j 0 ++ band g job t j 1 ++ band g job t j 2, true) := by
      unfold copyBands
      change (if !(copyBand g job j 0 t.luma (scratchStride g 0) (planeWidth g 0)).2 then _ else
        if !(copyBand g job j 1 t.blue (scratchStride g 1) (planeWidth g 1)).2 then _ else
          (_, (copyBand g job j 2 t.red (scratchStride g 2) (planeWidth g 2)).2)) = _
      rw [hluma, hblue, hred]
      rfl
    dsimp only
    rw [if_pos hpixels, hbands]
    rfl

theorem packedData_length (row : Nat) : (packedData g t row).length = g.width * 2 := by
  have heven := g.heven
  rw [packedData, uyvyRow_length]
  omega

/-- A row of the packed output, stored. -/
def packedStore (g : Geometry) (job : Job) (t : Scratch) (j row : Nat) : Store :=
  ⟨0, (j * sliceHeight + row) * job.stride, packedData g t row⟩

theorem packed_slice (hplacement : job.placement = none) (hpixels : job.pixels = .uyvy) (houtput : job.output = some len)
    (hwidth : g.width * 2 ≤ job.stride) (hlen : job.stride * g.height ≤ len)
    (hplanes : decodePlanes k g job slice (Scratch.new g 0) = (t, ok)) :
    sliceAlone k g job j slice = (if ok then (List.range (g.sliceRows j)).map (packedStore g job t j) else [], ok) := by
  have hbytes : job.placedBytes = 0 := by
    rw [Job.placedBytes, hplacement]
    rfl
  unfold sliceAlone decodeSlice
  rw [hbytes, hplanes, hplacement]
  cases ok with
  | false => rfl
  | true =>
    have hplanar : job.pixels ≠ .yuv422p := by
      rw [hpixels]
      rintro ⟨⟩
    have hband : convertBand k g job j t.luma t.blue t.red =
        ((List.range (g.sliceRows j)).map (packedStore g job t j), true) := by
      unfold convertBand
      simp only [houtput, if_pos hpixels]
      exact storeBand_all (fun row => Nat.le_trans (Nat.le_of_eq (packedData_length row)) hwidth) hlen
    dsimp only
    rw [if_neg hplanar, hband]
    rfl

/-! ### The two frames -/

/-- A planar decode and a packed decode, of the same streams. -/
structure Both (g : Geometry) (planar packed : Frame g) (lens : Nat → Nat) (len : Nat) : Prop where
  planarPlacement : planar.job.placement = none
  packedPlacement : packed.job.placement = none
  planarPixels : planar.job.pixels = .yuv422p
  packedPixels : packed.job.pixels = .uyvy
  fits : ∀ p < 3, Fits g planar.job p (lens p)
  output : packed.job.output = some len
  width : g.width * 2 ≤ packed.job.stride
  length : packed.job.stride * g.height ≤ len
  matrix : planar.job.matrix = packed.job.matrix
  dcShift : planar.job.dcShift = packed.job.dcShift
  planarCount : planar.slices.length = g.sliceCount
  packedCount : packed.slices.length = g.sliceCount
  slices : ∀ j < g.sliceCount, ∃ slice slice', planar.slices[j]? = some slice ∧ packed.slices[j]? = some slice' ∧
    slice.dc = slice'.dc ∧ slice.ac = slice'.ac

/-- The lengths of the three planes. -/
def planeLens (luma blue red : Nat × Nat) : Nat → Nat
  | 0 => luma.1
  | 1 => blue.1
  | _ => red.1

theorem both_of_prepare {planar packed : Frame g} {color color' : ColorSpace} {l : Loaded g} {stale stale' : List (Nat × Nat)}
    {capacity capacity' stride : Nat} {luma blue red : Nat × Nat} {alloc alloc' : Bool}
    (hplanar : prepare g color l stale capacity alloc (.yuv422p luma blue red) = .ok planar)
    (hpacked : prepare g color' l stale' capacity' alloc' (.uyvy len stride) = .ok packed) :
    Both g planar packed (planeLens luma blue red) len := by
  unfold prepare at hplanar hpacked
  dsimp only at hplanar hpacked
  split at hplanar
  · next hfits =>
    cases hplanar
    split at hpacked
    · next hfit =>
      cases hpacked
      rw [Bool.and_eq_true, Bool.and_eq_true] at hfits
      obtain ⟨⟨hluma, hblue⟩, hred⟩ := hfits
      obtain ⟨hwidth, hlength⟩ := rowsFit_iff hfit
      have hlist : ∀ {F : Nat → Slice}, ((List.range g.sliceCount).map F).length = g.sliceCount := by
        intro F
        rw [List.length_map, List.length_range]
      have hsome : ∀ {F : Nat → Slice} {j}, j < g.sliceCount → ((List.range g.sliceCount).map F)[j]? = some (F j) := by
        intro F j hj
        rw [List.getElem?_map, List.getElem?_range hj]
        rfl
      refine ⟨rfl, rfl, rfl, rfl, fun p hp => ?_, rfl, hwidth, hlength, rfl, rfl, hlist, hlist,
        fun j hj => ⟨_, _, hsome hj, hsome hj, rfl, rfl⟩⟩
      obtain rfl | rfl | rfl : p = 0 ∨ p = 1 ∨ p = 2 := by omega
      · exact ⟨rfl, (rowsFit_iff hluma).1, (rowsFit_iff hluma).2⟩
      · exact ⟨rfl, (rowsFit_iff hblue).1, (rowsFit_iff hblue).2⟩
      · exact ⟨rfl, (rowsFit_iff hred).1, (rowsFit_iff hred).2⟩
    · cases hpacked
  · cases hplanar

variable {planar packed : Frame g} {lens : Nat → Nat}

/-- A slice in both decodes: the same planes, or a failure. -/
theorem both_stores (k : Kernels) (h : Both g planar packed lens len) (hj : j < g.sliceCount) :
    ∃ t ok, good k g planar j = ok ∧ good k g packed j = ok ∧ (ok = true → t.Sized g 0) ∧
      storesOf k g planar j =
        (if ok then band g planar.job t j 0 ++ band g planar.job t j 1 ++ band g planar.job t j 2 else []) ∧
      storesOf k g packed j = if ok then (List.range (g.sliceRows j)).map (packedStore g packed.job t j) else [] := by
  obtain ⟨slice, slice', hslice, hslice', hdc, hac⟩ := h.slices j hj
  obtain ⟨t, ok, hplanes⟩ : ∃ t ok, decodePlanes k g planar.job slice (Scratch.new g 0) = (t, ok) := ⟨_, _, rfl⟩
  have hplanar := planar_slice h.planarPlacement h.planarPixels (h.fits 0 (by decide)) (h.fits 1 (by decide))
    (h.fits 2 (by decide)) hj hplanes
  have hsized : ok = true → t.Sized g 0 := by
    rintro rfl
    exact decodePlanes_sized hplanes
  rw [decodePlanes_congr h.matrix h.dcShift hdc hac] at hplanes
  have hpacked := packed_slice (j := j) h.packedPlacement h.packedPixels h.output h.width h.length hplanes
  refine ⟨t, ok, ?_⟩
  unfold good storesOf
  rw [hslice, hslice']
  dsimp only [Option.elim]
  rw [hplanar, hpacked]
  exact ⟨rfl, rfl, hsized, rfl, rfl⟩

theorem storesOf_none {g : Geometry} {f : Frame g} (hcount : f.slices.length = g.sliceCount) (hj : ¬ j < g.sliceCount) :
    storesOf k g f j = [] := by
  unfold storesOf
  rw [List.getElem?_eq_none_iff.mpr (hcount ▸ Nat.not_lt.mp hj)]
  rfl

/-- The writes of a slice to a plane. -/
theorem writesOn_bands {p : Nat} (h : Both g planar packed lens len) (hj : j < g.sliceCount) (hsized : t.Sized g 0) (hp : p < 3) :
    writesOn (p + 1) (band g planar.job t j 0 ++ band g planar.job t j 1 ++ band g planar.job t j 2) =
      (band g planar.job t j p).map (·.write) := by
  have hbuffer : ∀ q < 3, ∀ st ∈ band g planar.job t j q, st.buffer = q + 1 := fun q hq st hst =>
    ((copyBand_rows (h.fits q hq) hj (plane_length hsized q)).2.1 st hst).1
  have hown : ∀ q < 3, writesOn (p + 1) (band g planar.job t j q) =
      if q = p then (band g planar.job t j q).map (·.write) else [] := by
    intro q hq
    unfold writesOn
    split
    · next hsame =>
      rw [List.filter_eq_self.mpr fun st hst => ?_]
      rw [hbuffer q hq st hst, hsame]
      exact beq_self_eq_true _
    · next hother =>
      rw [List.filter_eq_nil_iff.mpr fun st hst => ?_, List.map_nil]
      rw [hbuffer q hq st hst]
      exact fun heq => hother (Nat.succ.inj (eq_of_beq heq))
  rw [writesOn_append, writesOn_append, hown 0 (by decide), hown 1 (by decide), hown 2 (by decide)]
  obtain rfl | rfl | rfl : p = 0 ∨ p = 1 ∨ p = 2 := by omega
  · exact (List.append_nil _).trans (List.append_nil _)
  · exact List.append_nil _
  · rfl

/-! ### Bytes -/

theorem flatMap_range_getElem {F : Nat → Bytes} {m n i c : Nat} (h : ∀ i, (F i).length = m) (hi : i < n) (hc : c < m) :
    ((List.range n).flatMap F)[i * m + c]? = (F i)[c]? := by
  induction n with
  | zero => exact absurd hi (Nat.not_lt_zero i)
  | succ n ih =>
    have hlength : ((List.range n).flatMap F).length = n * m := by
      rw [length_flatMap_const fun i _ => h i, List.length_range]
    rw [List.range_succ, List.flatMap_append, List.flatMap_singleton]
    rcases Nat.lt_succ_iff_lt_or_eq.mp hi with hlt | rfl
    · have hroom : (i + 1) * m ≤ n * m := Nat.mul_le_mul_right m hlt
      rw [Nat.succ_mul] at hroom
      rw [List.getElem?_append_left (by omega), ih hlt]
    · rw [List.getElem?_append_right (by omega), hlength, Nat.add_sub_cancel_left]

/-- The four bytes of a pair. -/
theorem uyvyRow_getElem (luma blue red : Bytes) {width pair c : Nat} (hpair : pair < width / 2) (hc : c < 4) :
    (uyvyRow luma blue red width)[4 * pair + c]? =
      [blue.getD pair 0, luma.getD (2 * pair) 0, red.getD pair 0, luma.getD (2 * pair + 1) 0][c]? := by
  rw [Nat.mul_comm]
  exact flatMap_range_getElem (fun _ => rfl) hpair hc

theorem width_le_stride (g : Geometry) (p : Nat) : planeWidth g p ≤ scratchStride g p := by
  unfold planeWidth scratchStride Geometry.lumaStride Geometry.chromaStride align8
  split <;> omega

variable {row : Nat}

/-- A byte of a plane of the scratch. -/
theorem plane_some (h : t.Sized g 0) (p : Nat) (hrow : row < g.sliceRows j) (hn : n < planeWidth g p) :
    ∃ v, (plane t p)[row * scratchStride g p + n]? = some v := by
  refine ⟨_, List.getElem?_eq_getElem ?_⟩
  have hwidth := width_le_stride g p
  have hrows : (row + 1) * scratchStride g p ≤ 16 * scratchStride g p :=
    Nat.mul_le_mul_right _ (Nat.lt_of_lt_of_le hrow (sliceRows_le_height j))
  rw [Nat.succ_mul] at hrows
  rw [plane_length h]
  omega

/-- A byte of a plane, in its buffer. -/
theorem planar_byte {p : Nat} (h : Both g planar packed lens len) (hinv : Inv k g planar memory s)
    (hlen : (memory (p + 1)).length = lens p) (hj : j < g.sliceCount) (hsized : t.Sized g 0)
    (hdone : s.done j = band g planar.job t j 0 ++ band g planar.job t j 1 ++ band g planar.job t j 2) (hp : p < 3)
    (hrow : row < g.sliceRows j) (hn : n < planeWidth g p) :
    (s.memory (p + 1))[(j * sliceHeight + row) * planar.job.planeStrides.getD p 0 + n]? =
      (plane t p)[row * scratchStride g p + n]? := by
  have hfits := h.fits p hp
  obtain ⟨v, hv⟩ := plane_some hsized p hrow hn
  have hdata : (planeData g t p row)[n]? = (plane t p)[row * scratchStride g p + n]? := by
    rw [planeData, List.getElem?_take, if_pos hn, List.getElem?_drop]
  have hlength : n < (planeData g t p row).length := by
    refine List.getElem?_eq_some_iff.mp (hdata.trans hv) |>.1
  refine (band_byte hinv h.planarPlacement rfl ?_ ?_ ?_ hrow hlength).trans hdata
  · rw [hdone, writesOn_bands h hj hsized hp]
    exact (copyBand_rows hfits hj (plane_length hsized p)).2.2 _ hlen
  · exact fun row => Nat.le_trans (List.length_take_le _ _) hfits.width
  · rw [hlen]
    exact hfits.length

/-- A byte of the packed output. -/
theorem packed_byte (h : Both g planar packed lens len) (hinv : Inv k g packed memory s) (hlen : (memory 0).length = len)
    (hdone : s.done j = (List.range (g.sliceRows j)).map (packedStore g packed.job t j)) (hrow : row < g.sliceRows j)
    (hn : n < g.width * 2) :
    (s.memory 0)[(j * sliceHeight + row) * packed.job.stride + n]? = (packedData g t row)[n]? := by
  have hwrites : writesOn 0 ((List.range (g.sliceRows j)).map (packedStore g packed.job t j)) =
      rowWrites g j packed.job.stride (packedData g t) := by
    unfold writesOn
    rw [List.filter_eq_self.mpr fun st hst => ?_, List.map_map]
    · rfl
    · obtain ⟨row, -, rfl⟩ := List.mem_map.mp hst
      rfl
  refine band_byte hinv h.packedPlacement rfl ?_ (fun row => ?_) ?_ hrow ?_
  · rw [hdone, hwrites]
  · exact Nat.le_trans (Nat.le_of_eq (packedData_length row)) h.width
  · rw [hlen]
    exact h.length
  · rw [packedData_length]
    exact hn

/-- The bytes of a pair in the packed row are those of the planes. -/
theorem packed_pair (hsized : t.Sized g 0) (hrow : row < g.sliceRows j) {pair : Nat} (hpair : pair < g.width / 2) :
    (packedData g t row)[4 * pair]? = (plane t 1)[row * scratchStride g 1 + pair]? ∧
      (packedData g t row)[4 * pair + 1]? = (plane t 0)[row * scratchStride g 0 + 2 * pair]? ∧
      (packedData g t row)[4 * pair + 2]? = (plane t 2)[row * scratchStride g 2 + pair]? ∧
      (packedData g t row)[4 * pair + 3]? = (plane t 0)[row * scratchStride g 0 + (2 * pair + 1)]? := by
  have hread : ∀ {p n : Nat}, n < planeWidth g p →
      some (((plane t p).drop (row * scratchStride g p)).getD n 0) = (plane t p)[row * scratchStride g p + n]? := by
    intro p n hn
    obtain ⟨v, hv⟩ := plane_some hsized p hrow hn
    rw [List.getD_eq_getElem?_getD, List.getElem?_drop, hv]
    rfl
  have hluma : ∀ {n : Nat}, n < 2 * pair + 2 → n < planeWidth g 0 := fun hn => by
    show _ < g.width
    omega
  refine ⟨?_, ?_, ?_, ?_⟩
  · exact (uyvyRow_getElem _ _ _ hpair (c := 0) (by decide)).trans (@hread 1 _ hpair)
  · exact (uyvyRow_getElem _ _ _ hpair (c := 1) (by decide)).trans (@hread 0 _ (hluma (by omega)))
  · exact (uyvyRow_getElem _ _ _ hpair (c := 2) (by decide)).trans (@hread 2 _ hpair)
  · exact (uyvyRow_getElem _ _ _ hpair (c := 3) (by decide)).trans (@hread 0 _ (hluma (by omega)))

/-! ### The two decodes -/

theorem planar_rest {b i : Nat} (h : Both g planar packed lens len) (hinv : Inv k g planar memory s)
    (hout : ∀ p < 3, b = p + 1 → ¬ visible g (planeWidth g p) (planar.job.planeStrides.getD p 0) i) :
    (s.memory b)[i]? = (memory b)[i]? := by
  refine rest_kept hinv fun j st hst hbuffer hcovers => ?_
  by_cases hj : j < g.sliceCount
  · obtain ⟨t, ok, -, -, hsized, hstores, -⟩ := both_stores k h hj
    rw [hstores] at hst
    cases ok with
    | false => cases hst
    | true =>
      have hband : ∀ p < 3, st ∉ band g planar.job t j p := by
        intro p hp hmem
        obtain ⟨hown, hvisible⟩ := (copyBand_rows (h.fits p hp) hj (plane_length (hsized rfl) p)).2.1 st hmem
        exact hout p hp (hbuffer.symm.trans hown) (hvisible i hcovers)
      rw [if_pos rfl] at hst
      rcases List.mem_append.mp hst with hst | hst
      · rcases List.mem_append.mp hst with hst | hst
        · exact hband 0 (by decide) hst
        · exact hband 1 (by decide) hst
      · exact hband 2 (by decide) hst
  · rw [storesOf_none h.planarCount hj] at hst
    cases hst

theorem packed_rest {b i : Nat} (h : Both g planar packed lens len) (hinv : Inv k g packed memory s)
    (hout : b = 0 → ¬ visible g (g.width * 2) packed.job.stride i) : (s.memory b)[i]? = (memory b)[i]? := by
  refine rest_kept hinv fun j st hst hbuffer hcovers => ?_
  by_cases hj : j < g.sliceCount
  · obtain ⟨t, ok, -, -, -, -, hstores⟩ := both_stores k h hj
    rw [hstores] at hst
    cases ok with
    | false => cases hst
    | true =>
      obtain ⟨row, hrow, rfl⟩ := List.mem_map.mp hst
      refine hout hbuffer.symm (covers_visible (List.mem_range.mp hrow) ?_ hcovers)
      exact Nat.le_of_eq (packedData_length row)
  · rw [storesOf_none h.packedCount hj] at hst
    cases hst

/-- A pair of the picture, when its slice is done in both decodes. -/
theorem pair_interleaved {memory' : Memory} {σ τ : State} (h : Both g planar packed lens len)
    (hinv : Inv k g planar memory σ) (hinv' : Inv k g packed memory' τ) (hlens : ∀ p < 3, (memory (p + 1)).length = lens p)
    (hlen : (memory' 0).length = len) (hdone : ∀ j < g.sliceCount, σ.done j = storesOf k g planar j)
    (hdone' : ∀ j < g.sliceCount, τ.done j = storesOf k g packed j) (hgood : ∀ j < g.sliceCount, good k g packed j = true)
    (hrow : row < g.height) {pair : Nat} (hpair : pair < g.width / 2) :
    SamePair packed.job planar.job σ.memory τ.memory row pair := by
  obtain ⟨hj, hfrom, hto⟩ := slice_of_row hrow
  obtain ⟨t, ok, -, hok, hsized, hstores, hstores'⟩ := both_stores k h hj
  obtain rfl : ok = true := hok.symm.trans (hgood _ hj)
  replace hsized := hsized rfl
  have hdone := (hdone _ hj).trans hstores
  have hdone' := (hdone' _ hj).trans hstores'
  generalize row / sliceHeight = j at hj hfrom hto hdone hdone'
  obtain ⟨r, rfl⟩ : ∃ r, row = j * sliceHeight + r := ⟨row - j * sliceHeight, by omega⟩
  have hr : r < g.sliceRows j := by omega
  have hplane : ∀ {p n : Nat}, p < 3 → n < planeWidth g p →
      (σ.memory (p + 1))[(j * sliceHeight + r) * planar.job.planeStrides.getD p 0 + n]? =
        (plane t p)[r * scratchStride g p + n]? :=
    fun hp hn => planar_byte h hinv (hlens _ hp) hj hsized hdone hp hr hn
  have hpacked : ∀ {c : Nat}, c < 4 →
      (τ.memory 0)[(j * sliceHeight + r) * packed.job.stride + (4 * pair + c)]? = (packedData g t r)[4 * pair + c]? :=
    fun hc => packed_byte h hinv' hlen hdone' hr (by omega)
  have hleft : 2 * pair < planeWidth g 0 := by
    show _ < g.width
    omega
  have hright : 2 * pair + 1 < planeWidth g 0 := by
    show _ < g.width
    omega
  obtain ⟨hu, hy, hv, hy'⟩ := packed_pair hsized hr hpair
  obtain ⟨u, hblue⟩ := plane_some (n := pair) hsized 1 hr hpair
  obtain ⟨y, hluma⟩ := plane_some (n := 2 * pair) hsized 0 hr hleft
  obtain ⟨v, hred⟩ := plane_some (n := pair) hsized 2 hr hpair
  obtain ⟨y', hluma'⟩ := plane_some (n := 2 * pair + 1) hsized 0 hr hright
  refine ⟨u, y, v, y', ?_, ?_, ?_, ?_, ?_, ?_, ?_, ?_⟩
  · exact (@hplane 1 _ (by decide) hpair).trans hblue
  · exact (@hplane 0 _ (by decide) hleft).trans hluma
  · exact (@hplane 2 _ (by decide) hpair).trans hred
  · exact (@hplane 0 _ (by decide) hright).trans hluma'
  · exact (@hpacked 0 (by decide)).trans (hu.trans hblue)
  · exact (@hpacked 1 (by decide)).trans (hy.trans hluma)
  · exact (@hpacked 2 (by decide)).trans (hv.trans hred)
  · exact (@hpacked 3 (by decide)).trans (hy'.trans hluma')

/-- The stores of a band in one piece and row by row, in any memory. -/
theorem bands_agree (h : Both g planar packed lens len) (hlens : ∀ p < 3, (memory (p + 1)).length = lens p)
    (hj : j < g.sliceCount) {p : Nat} (hp : p < 3) (hsource : source.length = 16 * scratchStride g p) :
    (copyBand g planar.job j p source (scratchStride g p) (planeWidth g p)).2 = true ∧
      (copyRows g planar.job j p source (scratchStride g p) (planeWidth g p)).2 = true ∧
      ∀ m : Memory, (m (p + 1)).length = (memory (p + 1)).length →
        (copyBand g planar.job j p source (scratchStride g p) (planeWidth g p)).1.foldl Memory.store m =
          (copyRows g planar.job j p source (scratchStride g p) (planeWidth g p)).1.foldl Memory.store m := by
  obtain ⟨hok, hbuffer, hbytes⟩ := copyBand_rows (h.fits p hp) hj hsource
  rw [copyRows_all (h.fits p hp)]
  refine ⟨hok, rfl, fun m hm => funext fun b => ?_⟩
  rw [foldl_store, foldl_store]
  by_cases hb : b = p + 1
  · subst hb
    have hall : ∀ {stores : List Store}, (∀ st ∈ stores, st.buffer = p + 1) →
        writesOn (p + 1) stores = stores.map (·.write) := by
      intro stores hstores
      unfold writesOn
      rw [List.filter_eq_self.mpr fun st hst => by rw [hstores st hst]; exact beq_self_eq_true _]
    rw [hall fun st hst => (hbuffer st hst).1, hall, List.map_map]
    · exact hbytes _ (hm.trans (hlens p hp))
    · intro st hst
      obtain ⟨row, -, rfl⟩ := List.mem_map.mp hst
      rfl
  · have hnone : ∀ {stores : List Store}, (∀ st ∈ stores, st.buffer = p + 1) → writesOn b stores = [] := by
      intro stores hstores
      unfold writesOn
      rw [List.filter_eq_nil_iff.mpr fun st hst heq => hb ((eq_of_beq heq).symm.trans (hstores st hst)), List.map_nil]
    rw [hnone fun st hst => (hbuffer st hst).1, hnone]
    intro st hst
    obtain ⟨row, -, rfl⟩ := List.mem_map.mp hst
    rfl

end PlanarLemmas

open PlanarLemmas

/-- A planar decode and a packed decode of the same streams, whatever the schedules of their
workers: the packed output is the planes interleaved, a band copied in one piece is the band
copied row by row, and nothing outside the picture is touched. -/
theorem planes_interleave (k : Kernels) {g : Geometry} {planar packed : Frame g} {color color' : ColorSpace} {l : Loaded g}
    {stale stale' : List (Nat × Nat)} {capacity capacity' len stride : Nat} {luma blue red : Nat × Nat} {alloc alloc' : Bool}
    {memory memory' : Memory} {scratches scratches' : List Scratch}
    (hplanar : prepare g color l stale capacity alloc (.yuv422p luma blue red) = .ok planar)
    (hpacked : prepare g color' l stale' capacity' alloc' (.uyvy len stride) = .ok packed)
    (hluma : (memory 1).length = luma.1) (hblue : (memory 2).length = blue.1) (hred : (memory 3).length = red.1)
    (hlen : (memory' 0).length = len)
    (hscratches : ∀ s ∈ scratches, s.Sized g planar.job.placedBytes) (hworkers : scratches ≠ [])
    (hscratches' : ∀ s ∈ scratches', s.Sized g packed.job.placedBytes) (hworkers' : scratches' ≠ [])
    (schedule schedule' : List Nat) :
    Interleaved g planar packed memory memory' (run k g planar (State.init memory scratches) schedule)
      (run k g packed (State.init memory' scratches') schedule') := by
  have h := both_of_prepare hplanar hpacked
  have hlens : ∀ p < 3, (memory (p + 1)).length = planeLens luma blue red p := by
    intro p hp
    obtain rfl | rfl | rfl : p = 0 ∨ p = 1 ∨ p = 2 := by omega
    · exact hluma
    · exact hblue
    · exact hred
  obtain ⟨hf, -⟩ := prepared_of_prepare hplanar
  obtain ⟨hf', -⟩ := prepared_of_prepare hpacked
  obtain ⟨hinv, hsome⟩ := reached (k := k) hf memory hscratches hworkers schedule
  obtain ⟨hinv', hsome'⟩ := reached (k := k) hf' memory' hscratches' hworkers' schedule'
  refine ⟨fun b i => planar_rest h hinv, fun b i => packed_rest h hinv',
    fun j hj p hp source => bands_agree h hlens hj hp, ?_⟩
  intro hfinished hfinished'
  generalize run k g planar (State.init memory scratches) schedule = σ at hinv hsome hfinished ⊢
  generalize run k g packed (State.init memory' scratches') schedule' = τ at hinv' hsome' hfinished' ⊢
  obtain ⟨hresult, hsettled⟩ := decoded_alike hinv hinv' hsome hsome' h.planarCount h.packedCount (fun j hj => by
    obtain ⟨-, ok, hgood, hgood', -⟩ := both_stores k h hj
    rw [hgood, hgood']) hfinished hfinished'
  refine ⟨hresult, fun hok row hrow pair hpair => ?_⟩
  exact pair_interleaved h hinv hinv' hlens hlen (fun j hj => (hsettled hok j hj).1)
    (fun j hj => (hsettled hok j hj).2.1) (fun j hj => (hsettled hok j hj).2.2) hrow hpair

/-- A decode of two slices into a packed luma plane and padded chroma planes. -/
def planarFrame : Frame twoSlices :=
  twoFrame ⟨.yuv422p, twoStreams.matrix, 0, yuvRgb709, none, 0, [some 512, some 320, some 256], [16, 10, 8], none⟩
    [(0, 0), (0, 0)]

def packedFrame : Frame twoSlices :=
  twoFrame ⟨.uyvy, twoStreams.matrix, 0, yuvRgb709, some 1280, 40, [none, none, none], [0, 0, 0], none⟩ [(0, 0), (0, 0)]

/-- The three planes, filled. -/
def filledPlanes : Memory
  | 1 => List.replicate 512 0x5A
  | 2 => List.replicate 320 0x5A
  | 3 => List.replicate 256 0x5A
  | _ => []

theorem small_planes_interleave :
    let packedOutput : Memory := fun _ => List.replicate 1280 0
    let planar := run portable twoSlices planarFrame (State.init filledPlanes (List.replicate 2 (Scratch.new twoSlices 0))) turns
    let packed := run portable twoSlices packedFrame
      (State.init packedOutput (List.replicate 1 (Scratch.new twoSlices 0))) turns
    prepare twoSlices .bt709 twoStreams [] 0 true (.yuv422p (512, 16) (320, 10) (256, 8)) = .ok planarFrame ∧
      prepare twoSlices .bt709 twoStreams [] 0 true (.uyvy 1280 40) = .ok packedFrame ∧
      (∀ w ∈ planar.workers ++ packed.workers, w.phase = .finished) ∧ planar.result = .ok () ∧
      Interleaved twoSlices planarFrame packedFrame filledPlanes packedOutput planar packed := by
  have hplanar : prepare twoSlices .bt709 twoStreams [] 0 true (.yuv422p (512, 16) (320, 10) (256, 8)) = .ok planarFrame := by
    rfl
  have hpacked : prepare twoSlices .bt709 twoStreams [] 0 true (.uyvy 1280 40) = .ok packedFrame := by rfl
  have hsized : ∀ n, ∀ s ∈ List.replicate n (Scratch.new twoSlices 0), s.Sized twoSlices 0 := by
    intro n s hs
    rw [List.eq_of_mem_replicate hs]
    exact Scratch.new_sized twoSlices 0
  refine ⟨hplanar, hpacked, by decide +kernel, by decide +kernel, planes_interleave portable hplanar hpacked ?_ ?_ ?_ ?_
    (hsized 2) (List.cons_ne_nil _ _) (hsized 1) (List.cons_ne_nil _ _) _ _⟩
  · exact List.length_replicate
  · exact List.length_replicate
  · exact List.length_replicate
  · exact List.length_replicate

end OmtClient.Vmx.Planar
