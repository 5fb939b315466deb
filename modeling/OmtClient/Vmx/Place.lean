import OmtClient.Vmx.Claim

/-!
# Placed decodes

`decode_bgrx_placed` of `crates/omt-vmx/src/lib.rs` against `decode_bgrx` of the same frame:
what a placed decode leaves in the output is what a gather from the whole picture would.

1. `placedFrom_iff`: a slice has the destination rows whose source rows it holds.
2. `image_slice` and `placed_slice`: what a slice stores in either decode, from the
   same three planes.
3. `placed_gathers`: the two decodes, whatever the schedules of their workers.
-/

namespace OmtClient.Vmx.Place

open OmtClient.Lib OmtClient.Vmx.FrameLemmas OmtClient.Vmx.SliceLemmas OmtClient.Vmx.Claim
open OmtClient.Vmx.Claim.ClaimLemmas

/-- A byte of the output is in the placed area. -/
def inside (p : Placement) (stride i : Nat) : Prop :=
  ∃ x < p.columns.length, ∃ y < p.rows.length, ∃ c < 4, i = (p.y + y) * stride + (p.x + x) * 4 + c

/-- Slice `j` writes into destination row `y`. -/
def writesRow (k : Kernels) (g : Geometry) (f : Frame g) (p : Placement) (j y : Nat) : Prop :=
  ∃ st ∈ storesOf k g f j, ∃ i, st.write.covers i ∧ (p.y + y) * f.job.stride ≤ i ∧ i < (p.y + y + 1) * f.job.stride

/-- A placed decode `s` of a frame and a decode `t` of the whole picture. -/
structure Gathered (k : Kernels) (g : Geometry) (placed image : Frame g) (p : Placement) (memory : Memory) (s t : State) :
    Prop where
  /-- No byte outside the placed area is touched, whatever becomes of the decode. -/
  outside : ∀ b i, (b = 0 → ¬ inside p placed.job.stride i) → (s.memory b)[i]? = (memory b)[i]?
  /-- A destination row belongs to the slice that holds its source row. -/
  rows : ∀ y row, p.rows[y]? = some row → ∃ j slice, placed.slices[j]? = some slice ∧ j * sliceHeight ≤ row ∧
    row < j * sliceHeight + g.sliceRows j ∧ (∀ l, writesRow k g placed p l y → l = j) ∧
    (good k g placed j = true → writesRow k g placed p j y)
  /-- Both end alike, and then the pixels are those of the gather. -/
  pixels : (∀ w ∈ s.workers, w.phase = .finished) → (∀ w ∈ t.workers, w.phase = .finished) → s.result = t.result ∧
    (t.result = .ok () → ∀ x y column row c, p.columns[x]? = some column → p.rows[y]? = some row → c < 4 →
      ∃ v, (t.memory 0)[row * image.job.stride + column * 4 + c]? = some v ∧
        (s.memory 0)[(p.y + y) * placed.job.stride + (p.x + x) * 4 + c]? = some v)

namespace PlaceLemmas

variable {k : Kernels} {g : Geometry} {p : Placement} {rows : List Nat}

/-! ### The rows of a slice -/

theorem takeWhile_lt_iff {l : List Nat} (hsorted : l.Pairwise (· ≤ ·)) {b y row : Nat} (hy : l[y]? = some row) :
    y < (l.takeWhile (· < b)).length ↔ row < b := by
  induction l generalizing y with
  | nil => cases hy
  | cons a l ih =>
    obtain ⟨hfirst, hrest⟩ := List.pairwise_cons.mp hsorted
    rw [List.takeWhile_cons]
    by_cases ha : a < b
    · rw [if_pos (decide_eq_true ha), List.length_cons]
      cases y with
      | zero =>
        obtain rfl := Option.some.inj hy
        exact ⟨fun _ => ha, fun _ => Nat.succ_pos _⟩
      | succ y => exact Nat.succ_lt_succ_iff.trans (ih hrest hy)
    · rw [if_neg fun h => ha (of_decide_eq_true h)]
      refine ⟨fun h => absurd h (Nat.not_lt_zero y), fun hlt => ?_⟩
      rcases List.mem_cons.mp (List.mem_of_getElem? hy) with rfl | hmem
      · exact absurd hlt ha
      · exact absurd (Nat.lt_of_le_of_lt (hfirst row hmem) hlt) ha

/-- The first destination row of the slices from `i` on. -/
def StartsAt (rows : List Nat) (i first : Nat) : Prop :=
  ∀ y row, rows[y]? = some row → (first ≤ y ↔ i * sliceHeight ≤ row)

theorem startsAt_next (hsorted : rows.Pairwise (· ≤ ·)) {i first : Nat} (h : StartsAt rows i first) :
    StartsAt rows (i + 1) (first + ((rows.drop first).takeWhile (· < (i + 1) * sliceHeight)).length) := by
  intro y row hy
  have hstep : i * sliceHeight ≤ (i + 1) * sliceHeight := Nat.mul_le_mul_right sliceHeight (Nat.le_succ i)
  rcases Nat.lt_or_ge y first with hlt | hge
  · have hbelow : row < i * sliceHeight := Nat.lt_of_not_le fun hle => Nat.not_le.mpr hlt ((h y row hy).mpr hle)
    exact ⟨fun hle => absurd (Nat.le_trans (Nat.le_add_right _ _) hle) (Nat.not_le.mpr hlt),
      fun hle => absurd (Nat.le_trans hstep hle) (Nat.not_le.mpr hbelow)⟩
  · have hdrop : (rows.drop first)[y - first]? = some row := by
      rw [List.getElem?_drop, Nat.add_sub_cancel' hge]
      exact hy
    have hiff := takeWhile_lt_iff (b := (i + 1) * sliceHeight) (hsorted.drop) hdrop
    rw [← Nat.not_lt, ← Nat.not_lt, ← hiff]
    omega

/-- A slice has the destination rows whose source rows it holds. -/
theorem placedFrom_iff (hsorted : rows.Pairwise (· ≤ ·)) {n i first m : Nat} {r : Nat × Nat} (hstart : StartsAt rows i first)
    (hm : (placedFrom rows n i first)[m]? = some r) {y row : Nat} (hy : rows[y]? = some row) :
    (r.1 ≤ y ∧ y < r.2) ↔ (i + m) * sliceHeight ≤ row ∧ row < (i + m + 1) * sliceHeight := by
  induction n generalizing i first m with
  | zero => cases hm
  | succ n ih =>
    have hnext := startsAt_next hsorted hstart
    rw [placedFrom] at hm
    cases m with
    | zero =>
      obtain rfl := Option.some.inj hm
      rw [← Nat.not_le, ← Nat.not_le (a := (i + 0 + 1) * sliceHeight)]
      exact and_congr (hstart y row hy) (not_congr (hnext y row hy))
    | succ m =>
      rw [ih hnext hm, Nat.add_assoc i 1 m, Nat.add_comm 1 m]

theorem slice_rows_iff (hsorted : rows.Pairwise (· ≤ ·)) {n j : Nat} {r : Nat × Nat}
    (hj : (placedFrom rows n 0 0)[j]? = some r) {y row : Nat} (hy : rows[y]? = some row) :
    (r.1 ≤ y ∧ y < r.2) ↔ j * sliceHeight ≤ row ∧ row < (j + 1) * sliceHeight := by
  have hstart : StartsAt rows 0 0 := by
    intro y row _
    rw [Nat.zero_mul]
    exact ⟨fun _ => Nat.zero_le _, fun _ => Nat.zero_le _⟩
  have hiff := placedFrom_iff hsorted hstart hj hy
  rwa [Nat.zero_add] at hiff

/-! ### What a slice stores -/

variable {job job' : Job} {slice slice' : Slice} {s : Scratch} {f : Frame g}

theorem sized_mono {m n : Nat} (h : s.Sized g n) (hle : m ≤ n) : s.Sized g m :=
  ⟨h.luma, h.blue, h.red, h.sourceRow, Nat.le_trans hle h.placedRow⟩

theorem storeRows_all {out : Option Nat} {store : Nat → Store} {rows : List Nat}
    (h : ∀ row ∈ rows, outRow out (store row).write.offset (store row).write.data.length = true) :
    storeRows out store rows = (rows.map store, true) := by
  induction rows with
  | nil => rfl
  | cons row rest ih =>
    rw [storeRows]
    rw [if_pos (h row List.mem_cons_self), ih fun r hr => h r (List.mem_cons_of_mem _ hr)]
    rfl

theorem outRow_some {len offset n : Nat} (h : offset + n ≤ len) : outRow (some len) offset n = true := by
  unfold outRow
  rw [Option.any_some, Bool.and_eq_true, decide_eq_true_eq, decide_eq_true_eq]
  omega

/-- A row of the picture, in the output of `decode_bgrx`. -/
def imageStore (k : Kernels) (g : Geometry) (job : Job) (t : Scratch) (j row : Nat) : Store :=
  ⟨0, (j * sliceHeight + row) * job.stride, converted k g job t row⟩

/-- A placed row, in the output of `decode_bgrx_placed`. -/
def placedStore (k : Kernels) (g : Geometry) (job : Job) (p : Placement) (t : Scratch) (j : Nat) (pair : Nat × Nat) : Store :=
  ⟨0, (p.y + pair.1) * job.stride + p.x * 4, gather p.columns (converted k g job t (pair.2 - j * sliceHeight))⟩

/-- The rows that a slice of a whole picture stores. -/
theorem convertBand_eq {luma blue red : Bytes} {len j : Nat} {t : Scratch} (hpixels : job.pixels = .bgrx)
    (houtput : job.output = some len) (hwidth : g.width * 4 ≤ job.stride) (hlen : job.stride * g.height ≤ len)
    (hplanes : t.luma = luma ∧ t.blue = blue ∧ t.red = red) :
    convertBand k g job j luma blue red = ((List.range (g.sliceRows j)).map (imageStore k g job t j), true) := by
  obtain ⟨rfl, rfl, rfl⟩ := hplanes
  have hstore : ∀ row, (⟨0, (j * sliceHeight + row) * job.stride,
      if job.pixels = .uyvy then uyvyRow (t.luma.drop (row * g.lumaStride)) (t.blue.drop (row * g.chromaStride))
        (t.red.drop (row * g.chromaStride)) g.width
      else k.bgraRow (t.luma.drop (row * g.lumaStride)) (t.blue.drop (row * g.chromaStride))
        (t.red.drop (row * g.chromaStride)) g.width job.coefficients⟩ : Store) = imageStore k g job t j row := by
    intro row
    rw [if_neg (by rw [hpixels]; nofun)]
    rfl
  unfold convertBand
  rw [funext hstore]
  refine storeRows_all fun row hrow => ?_
  have hrow : row < g.sliceRows j := List.mem_range.mp hrow
  have hbottom : j * sliceHeight + row + 1 ≤ g.height := by
    unfold Geometry.sliceRows at hrow
    omega
  rw [houtput]
  refine outRow_some ?_
  show (j * sliceHeight + row) * job.stride + (converted k g job t row).length ≤ len
  rw [converted_length]
  calc (j * sliceHeight + row) * job.stride + g.width * 4
      ≤ (j * sliceHeight + row) * job.stride + job.stride := Nat.add_le_add_left hwidth _
    _ = (j * sliceHeight + row + 1) * job.stride := (Nat.succ_mul _ _).symm
    _ ≤ g.height * job.stride := Nat.mul_le_mul_right _ hbottom
    _ = job.stride * g.height := Nat.mul_comm _ _
    _ ≤ len := hlen

/-- The placed rows that a slice stores; the row converted last serves as long as the source
row is the same. -/
theorem placeRows_eq (hcolumns : ∀ c ∈ p.columns, c < g.width) {j : Nat} {pairs : List (Nat × Nat)} {last : Option Nat}
    {t : Scratch} (hs : s.Sized g (p.columns.length * 4)) (hplanes : s.luma = t.luma ∧ s.blue = t.blue ∧ s.red = t.red)
    (hlast : ∀ source, last = some source →
      s.placedRow.take (p.columns.length * 4) = gather p.columns (converted k g job t (source - j * sliceHeight)))
    (hfit : ∀ pair ∈ pairs, outRow job.output ((p.y + pair.1) * job.stride + p.x * 4) (p.columns.length * 4) = true) :
    (placeRows k g job p j pairs last s).1 = pairs.map (placedStore k g job p t j) ∧
      (placeRows k g job p j pairs last s).2.2 = true := by
  induction pairs generalizing last s with
  | nil => exact ⟨rfl, rfl⟩
  | cons pair rest ih =>
    obtain ⟨y, source⟩ := pair
    have hnext : ∀ s', s' = (if last = some source then s else convertRow k g job p (source - j * sliceHeight) s) →
        s'.Sized g (p.columns.length * 4) ∧ (s'.luma = t.luma ∧ s'.blue = t.blue ∧ s'.red = t.red) ∧
          s'.placedRow.take (p.columns.length * 4) =
            gather p.columns (converted k g job t (source - j * sliceHeight)) := by
      intro s' hs'
      split at hs'
      · next hsame =>
        subst hs'
        exact ⟨hs, hplanes, hlast source hsame⟩
      · subst hs'
        obtain ⟨hplaced, hsized⟩ := (@convertRow_placed k _ job) hs hcolumns (source - j * sliceHeight)
        refine ⟨hsized, hplanes, hplaced.trans ?_⟩
        rw [converted, converted, hplanes.1, hplanes.2.1, hplanes.2.2]
    rw [placeRows]
    dsimp only
    obtain ⟨hsized, hsame, hrow⟩ := hnext _ rfl
    rw [if_pos (hfit (y, source) List.mem_cons_self)]
    obtain ⟨hstores, hok⟩ := @ih _ (some source) hsized hsame
      (fun _ heq => Option.some.inj heq ▸ hrow) fun pair hpair => hfit pair (List.mem_cons_of_mem _ hpair)
    refine ⟨?_, hok⟩
    rw [hstores, hrow]
    rfl

theorem decodePlanes_congr (hmatrix : job.matrix = job'.matrix) (hshift : job.dcShift = job'.dcShift)
    (hdc : slice.dc = slice'.dc) (hac : slice.ac = slice'.ac) :
    decodePlanes k g job slice s = decodePlanes k g job' slice' s := by
  unfold decodePlanes
  rw [hmatrix, hshift, hdc, hac]

theorem image_slice {len j : Nat} (hplacement : job.placement = none) (hpixels : job.pixels = .bgrx)
    (houtput : job.output = some len) (hwidth : g.width * 4 ≤ job.stride) (hlen : job.stride * g.height ≤ len)
    {t : Scratch} {ok : Bool} (hplanes : decodePlanes k g job slice (Scratch.new g 0) = (t, ok)) :
    sliceAlone k g job j slice = (if ok then (List.range (g.sliceRows j)).map (imageStore k g job t j) else [], ok) := by
  have hbytes : job.placedBytes = 0 := by
    rw [Job.placedBytes, hplacement]
    rfl
  unfold sliceAlone decodeSlice
  rw [hbytes, hplanes, hplacement]
  cases ok with
  | false => rfl
  | true =>
    have hplanar : job.pixels ≠ .yuv422p := by
      rw [hpixels]
      rintro ⟨⟩
    dsimp only
    rw [if_neg hplanar, convertBand_eq hpixels houtput hwidth hlen ⟨rfl, rfl, rfl⟩]
    rfl

/-- A placed row fits into the output. -/
theorem placed_fits {len stride : Nat} (h : Accepted g p len stride) {y row : Nat} (hy : p.rows[y]? = some row) :
    (p.y + y) * stride + p.x * 4 + p.columns.length * 4 ≤ len := by
  have hlast : y ≤ p.rows.length - 1 := Nat.le_sub_one_of_lt (List.getElem?_eq_some_iff.mp hy).1
  have hrow := Nat.mul_le_mul_right stride (Nat.add_le_add_left hlast p.y)
  have hbottom := h.bottom
  omega

theorem placed_slice {len j : Nat} (hplacement : job.placement = some p) (houtput : job.output = some len)
    (h : Accepted g p len job.stride) {t : Scratch} {ok : Bool}
    (hplanes : decodePlanes k g job slice (Scratch.new g 0) = (t, ok)) :
    sliceAlone k g job j slice =
      (if ok then (placedPairs p slice.placed).map (placedStore k g job p t j) else [], ok) := by
  have hbytes : job.placedBytes = p.columns.length * 4 := by
    rw [Job.placedBytes, hplacement]
    rfl
  have hnew := Scratch.new_sized g (p.columns.length * 4)
  -- the planes are those of a scratch without a row buffer
  obtain ⟨u, hu, hsized, hsame⟩ : ∃ u, decodePlanes k g job slice (Scratch.new g (p.columns.length * 4)) = (u, ok) ∧
      (ok = true → u.Sized g (p.columns.length * 4)) ∧ (ok = true → u.luma = t.luma ∧ u.blue = t.blue ∧ u.red = t.red) := by
    rcases (@decodePlanes_alone k _ job slice) (sized_mono hnew (Nat.zero_le _))
      (Scratch.new_sized g 0) with ⟨u, u', h, h', -⟩ | ⟨u, u', h, h', halike⟩
    · obtain ⟨rfl, rfl⟩ := Prod.mk.inj (h'.symm.trans hplanes)
      exact ⟨u, h, (by rintro ⟨⟩), by rintro ⟨⟩⟩
    · obtain ⟨rfl, rfl⟩ := Prod.mk.inj (h'.symm.trans hplanes)
      refine ⟨u, h, fun _ => ?_, fun _ => ⟨halike.luma, halike.blue, halike.red⟩⟩
      rcases (@decodePlanes_alone k _ job slice) hnew hnew with ⟨v, v', hv, -⟩ | ⟨v, v', hv, hv', hboth⟩
      · cases (Prod.mk.inj (h.symm.trans hv)).2
      · exact (Prod.mk.inj (h.symm.trans hv)).1 ▸ hboth.left
  unfold sliceAlone decodeSlice
  rw [hbytes, hu, hplacement]
  cases ok with
  | false => rfl
  | true =>
    obtain ⟨hstores, hok⟩ := (@placeRows_eq k _ p job _ h.columns j (placedPairs p slice.placed) none) (hsized rfl) (hsame rfl) (by rintro _ ⟨⟩) fun pair hpair => by
        rw [houtput]
        exact outRow_some (placed_fits h (placedPairs_mem hpair).2.2)
    exact Prod.ext hstores hok

/-! ### The two frames -/

/-- A placed decode and a decode of the whole picture, of the same streams. -/
structure Both (g : Geometry) (placed image : Frame g) (p : Placement) (len imageLen : Nat) : Prop where
  placement : placed.job.placement = some p
  whole : image.job.placement = none
  pixels : image.job.pixels = .bgrx
  output : placed.job.output = some len
  imageOutput : image.job.output = some imageLen
  check : g.checkPlacement p len placed.job.stride = .ok ()
  width : g.width * 4 ≤ image.job.stride
  length : image.job.stride * g.height ≤ imageLen
  matrix : placed.job.matrix = image.job.matrix
  dcShift : placed.job.dcShift = image.job.dcShift
  coefficients : placed.job.coefficients = image.job.coefficients
  count : placed.slices.length = g.sliceCount
  imageCount : image.slices.length = g.sliceCount
  slices : ∀ j < g.sliceCount, ∃ slice slice', placed.slices[j]? = some slice ∧ image.slices[j]? = some slice' ∧
    slice.dc = slice'.dc ∧ slice.ac = slice'.ac ∧ (placedFrom p.rows g.sliceCount 0 0)[j]? = some slice.placed

theorem both_of_prepare {placed image : Frame g} {color : ColorSpace} {l : Loaded g} {stale stale' : List (Nat × Nat)}
    {capacity capacity' len stride imageLen imageStride : Nat} {alloc alloc' : Bool}
    (hplaced : prepare g color l stale capacity alloc (.placed len stride p) = .ok placed)
    (himage : prepare g color l stale' capacity' alloc' (.bgrx imageLen imageStride) = .ok image) :
    Both g placed image p len imageLen := by
  unfold prepare at hplaced himage
  dsimp only at hplaced himage
  split at himage
  · next hfit =>
    cases himage
    obtain ⟨hwidth, hlength⟩ := rowsFit_iff hfit
    split at hplaced
    · cases hplaced
    · next ranges capacity'' hplacement =>
      cases hplaced
      obtain ⟨hcheck, hranges⟩ := preparePlacement_inv hplacement
      have hlist : ∀ {F : Nat → Slice}, ((List.range g.sliceCount).map F).length = g.sliceCount := by
        intro F
        rw [List.length_map, List.length_range]
      refine ⟨rfl, rfl, rfl, rfl, rfl, hcheck, hwidth, hlength, rfl, rfl, rfl, hlist, hlist, fun j hj => ?_⟩
      have hcount : j < (placedFrom p.rows g.sliceCount 0 0).length := by
        rw [placedFrom_length]
        exact hj
      have hsome : ∀ {F : Nat → Slice}, ((List.range g.sliceCount).map F)[j]? = some (F j) := by
        intro F
        rw [List.getElem?_map, List.getElem?_range hj]
        rfl
      refine ⟨_, _, hsome, hsome, rfl, rfl, ?_⟩
      dsimp only at hranges ⊢
      rw [hranges, List.getD_eq_getElem?_getD, List.getElem?_eq_getElem hcount]
      rfl
  · cases himage

variable {placed image : Frame g} {len imageLen : Nat}

/-- A slice in both decodes: the same planes, or a failure. -/
theorem both_stores (k : Kernels) (h : Both g placed image p len imageLen) {j : Nat} (hj : j < g.sliceCount) :
    ∃ slice t ok, placed.slices[j]? = some slice ∧ (placedFrom p.rows g.sliceCount 0 0)[j]? = some slice.placed ∧
      good k g placed j = ok ∧ good k g image j = ok ∧
      storesOf k g placed j = (if ok then (placedPairs p slice.placed).map (placedStore k g placed.job p t j) else []) ∧
      storesOf k g image j = if ok then (List.range (g.sliceRows j)).map (imageStore k g image.job t j) else [] := by
  obtain ⟨slice, slice', hslice, hslice', hdc, hac, hrange⟩ := h.slices j hj
  obtain ⟨t, ok, hplanes⟩ : ∃ t ok, decodePlanes k g placed.job slice (Scratch.new g 0) = (t, ok) := ⟨_, _, rfl⟩
  have hplaced := placed_slice (j := j) h.placement h.output (accepted_of_check h.check) hplanes
  rw [decodePlanes_congr h.matrix h.dcShift hdc hac] at hplanes
  have himage := image_slice (j := j) h.whole h.pixels h.imageOutput h.width h.length hplanes
  refine ⟨slice, t, ok, hslice, hrange, ?_⟩
  unfold good storesOf
  rw [hslice, hslice']
  dsimp only [Option.elim]
  rw [hplaced, himage]
  exact ⟨rfl, rfl, rfl, rfl⟩

/-- What a slice stores in a placed decode, whether it is good or not. -/
theorem placed_store_mem (h : Both g placed image p len imageLen) {j : Nat} {st : Store} (hst : st ∈ storesOf k g placed j) :
    ∃ y row, p.rows[y]? = some row ∧ j * sliceHeight ≤ row ∧ row < (j + 1) * sliceHeight ∧ st.buffer = 0 ∧
      st.write.offset = (p.y + y) * placed.job.stride + p.x * 4 ∧ st.write.data.length = p.columns.length * 4 := by
  have ha := accepted_of_check h.check
  by_cases hj : j < g.sliceCount
  · obtain ⟨slice, t, ok, -, hrange, -, -, hstores, -⟩ := both_stores k h hj
    rw [hstores] at hst
    split at hst
    · obtain ⟨pair, hpair, rfl⟩ := List.mem_map.mp hst
      obtain ⟨hlow, hhigh, hrow⟩ := placedPairs_mem hpair
      obtain ⟨hfrom, hto⟩ := (slice_rows_iff ha.sorted hrange hrow).mp ⟨hlow, hhigh⟩
      exact ⟨pair.1, pair.2, hrow, hfrom, hto, rfl, rfl, gather_length (converted_length _) ha.columns⟩
    · cases hst
  · unfold storesOf at hst
    rw [List.getElem?_eq_none_iff.mpr (h.count ▸ Nat.not_lt.mp hj)] at hst
    cases hst

/-- The slice that holds a row of the picture. -/
theorem slice_of_row {row : Nat} (hrow : row < g.height) :
    row / sliceHeight < g.sliceCount ∧ row / sliceHeight * sliceHeight ≤ row ∧
      row < row / sliceHeight * sliceHeight + g.sliceRows (row / sliceHeight) := by
  unfold Geometry.sliceCount Geometry.sliceRows sliceHeight
  omega

theorem row_unique {r r' stride i : Nat} (h : r * stride ≤ i ∧ i < (r + 1) * stride)
    (h' : r' * stride ≤ i ∧ i < (r' + 1) * stride) : r = r' := by
  have hle := Nat.lt_of_mul_lt_mul_right (Nat.lt_of_le_of_lt h.1 h'.2)
  have hge := Nat.lt_of_mul_lt_mul_right (Nat.lt_of_le_of_lt h'.1 h.2)
  omega

/-! ### Bytes -/

/-- A byte that one store of its slice alone covers, once the slice is done. -/
theorem stored_byte {memory : Memory} {σ : State} {j i : Nat} {st : Store} (hf : Prepared g f) (h : Inv k g f memory σ)
    (hdone : σ.done j = storesOf k g f j) (hst : st ∈ storesOf k g f j)
    (hfits : st.write.offset + st.write.data.length ≤ (memory st.buffer).length) (hcovers : st.write.covers i)
    (honly : ∀ st' ∈ storesOf k g f j, st'.write.covers i → st' = st) :
    (σ.memory st.buffer)[i]? = st.write.data[i - st.write.offset]? := by
  rw [h.owned st.buffer i j (storesOf_keeps hf j st hst i hcovers), hdone]
  refine applyAll_covered (List.mem_map.mpr ⟨st, List.mem_filter.mpr ⟨hst, beq_self_eq_true _⟩, rfl⟩)
    (decide_eq_true hfits) hcovers fun w hw hcover => ?_
  obtain ⟨st', hst', rfl⟩ := List.mem_map.mp hw
  rw [honly st' (List.mem_filter.mp hst').1 hcover]

theorem done_mem {memory : Memory} {σ : State} {j : Nat} {st : Store} (h : Inv k g f memory σ) (hst : st ∈ σ.done j) :
    st ∈ storesOf k g f j := by
  by_cases hclaimed : j ∈ σ.claimed
  · by_cases hheld : j ∈ σ.workers.filterMap (·.phase.holds)
    · obtain ⟨w, hw, hholds⟩ := List.mem_filterMap.mp hheld
      cases hphase : w.phase with
      | storing index left ok =>
        rw [hphase] at hholds
        obtain rfl := Option.some.inj hholds
        rw [← ((h.busy w hw).storing index left ok hphase).2.2]
        exact List.mem_append_left _ hst
      | ready | stopping | finished =>
        rw [hphase] at hholds
        cases hholds
    · exact (h.settled j hclaimed hheld).1 ▸ hst
  · rw [h.unclaimed j hclaimed] at hst
    cases hst

theorem gather_getElem {columns : List Nat} {r : Bytes} {width x column c : Nat} (hr : r.length = width * 4)
    (hcolumns : ∀ c ∈ columns, c < width) (hx : columns[x]? = some column) (hc : c < 4) :
    (gather columns r)[x * 4 + c]? = r[column * 4 + c]? := by
  induction columns generalizing x with
  | nil => cases hx
  | cons a rest ih =>
    have ha := hcolumns a List.mem_cons_self
    have hpixel : ((r.drop (a * 4)).take 4).length = 4 := by
      rw [List.length_take, List.length_drop]
      omega
    unfold gather
    rw [List.flatMap_cons]
    cases x with
    | zero =>
      obtain rfl := Option.some.inj hx
      rw [Nat.zero_mul, Nat.zero_add, List.getElem?_append_left (by rw [hpixel]; exact hc), List.getElem?_take, if_pos hc,
        List.getElem?_drop]
    | succ x =>
      rw [List.getElem?_append_right (by rw [hpixel]; omega), hpixel,
        show (x + 1) * 4 + c - 4 = x * 4 + c from by omega]
      exact ih (fun c hc => hcolumns c (List.mem_cons_of_mem a hc)) hx

theorem mem_placedPairs {range : Nat × Nat} {y row : Nat} (hrow : p.rows[y]? = some row) (hlow : range.1 ≤ y)
    (hhigh : y < range.2) : (y, row) ∈ placedPairs p range := by
  refine List.mem_iff_getElem?.mpr ⟨y - range.1, ?_⟩
  unfold placedPairs
  rw [List.getElem?_drop, Nat.add_sub_cancel' hlow, List.getElem?_take, if_pos hhigh, List.getElem?_map,
    List.getElem?_zipIdx, hrow]
  exact congrArg (fun n => some (n, row)) (Nat.zero_add y)

/-! ### The two decodes -/

theorem check_columns {stride : Nat} (h : g.checkPlacement p len stride = .ok ()) : 0 < p.columns.length := by
  unfold Geometry.checkPlacement at h
  split at h
  · cases h
  · next hdims => exact Nat.pos_of_ne_zero fun hzero => hdims (.inl hzero)

theorem outside_untouched {memory : Memory} {σ : State} (h : Both g placed image p len imageLen)
    (hinv : Inv k g placed memory σ) {b i : Nat} (hout : b = 0 → ¬ inside p placed.job.stride i) :
    (σ.memory b)[i]? = (memory b)[i]? := by
  by_cases hany : ∃ j, owns g placed b j i
  · obtain ⟨j, hj⟩ := hany
    rw [hinv.owned b i j hj]
    refine applyAll_untouched fun w hw hcovers => ?_
    obtain ⟨st, hst, rfl⟩ := List.mem_map.mp hw
    obtain ⟨hst, hb⟩ := List.mem_filter.mp hst
    obtain ⟨y, row, hrow, -, -, hbuffer, hoffset, hlength⟩ := placed_store_mem h (done_mem hinv hst)
    refine hout ((eq_of_beq hb).symm.trans hbuffer) ?_
    obtain ⟨hfrom, hto⟩ := hcovers
    rw [hoffset] at hfrom hto
    rw [hlength] at hto
    refine ⟨(i - ((p.y + y) * placed.job.stride + p.x * 4)) / 4, by omega, y, (List.getElem?_eq_some_iff.mp hrow).1,
      (i - ((p.y + y) * placed.job.stride + p.x * 4)) % 4, by omega, by omega⟩
  · exact hinv.untouched b i fun j hj => hany ⟨j, hj⟩

/-- A placed store stays in its destination row. -/
theorem placed_in_row {st : Store} {y i : Nat} (ha : Accepted g p len placed.job.stride)
    (hoffset : st.write.offset = (p.y + y) * placed.job.stride + p.x * 4)
    (hlength : st.write.data.length = p.columns.length * 4) (hcovers : st.write.covers i) :
    (p.y + y) * placed.job.stride ≤ i ∧ i < (p.y + y + 1) * placed.job.stride := by
  have hright := ha.right
  exact covers_row (r := p.y + y) hoffset (by omega) (Nat.le_refl _) (Nat.lt_succ_self _) hcovers

/-- The slice of a source row, in both decodes. -/
theorem row_stores (k : Kernels) (h : Both g placed image p len imageLen) {y row : Nat} (hrow : p.rows[y]? = some row) :
    ∃ t range, good k g placed (row / sliceHeight) = good k g image (row / sliceHeight) ∧ (y, row) ∈ placedPairs p range ∧
      (good k g placed (row / sliceHeight) = true →
        storesOf k g placed (row / sliceHeight) =
          (placedPairs p range).map (placedStore k g placed.job p t (row / sliceHeight)) ∧
        storesOf k g image (row / sliceHeight) =
          (List.range (g.sliceRows (row / sliceHeight))).map (imageStore k g image.job t (row / sliceHeight))) := by
  have ha := accepted_of_check h.check
  obtain ⟨hj, hfrom, hto⟩ := slice_of_row (ha.rows row (List.mem_of_getElem? hrow))
  have hbelow : row < (row / sliceHeight + 1) * sliceHeight := Nat.lt_of_lt_of_le hto (sliceRows_le g _)
  obtain ⟨slice, t, ok, -, hrange, hgood, hgood', hstores, hstores'⟩ := both_stores k h hj
  obtain ⟨hlow, hhigh⟩ := (slice_rows_iff ha.sorted hrange hrow).mpr ⟨hfrom, hbelow⟩
  refine ⟨t, slice.placed, hgood.trans hgood'.symm, mem_placedPairs hrow hlow hhigh, fun htrue => ?_⟩
  obtain rfl : ok = true := hgood.symm.trans htrue
  exact ⟨hstores, hstores'⟩

theorem rows_gathered (h : Both g placed image p len imageLen) {y row : Nat} (hrow : p.rows[y]? = some row) :
    ∃ j slice, placed.slices[j]? = some slice ∧ j * sliceHeight ≤ row ∧ row < j * sliceHeight + g.sliceRows j ∧
      (∀ l, writesRow k g placed p l y → l = j) ∧ (good k g placed j = true → writesRow k g placed p j y) := by
  have ha := accepted_of_check h.check
  obtain ⟨hj, hfrom, hto⟩ := slice_of_row (ha.rows row (List.mem_of_getElem? hrow))
  obtain ⟨slice, -, hslice, -⟩ := h.slices _ hj
  refine ⟨row / sliceHeight, slice, hslice, hfrom, hto, ?_, fun hgood => ?_⟩
  · rintro l ⟨st, hst, i, hcovers, hin⟩
    obtain ⟨y', row', hrow', hlow, hhigh, -, hoffset, hlength⟩ := placed_store_mem h hst
    have hsame := row_unique (placed_in_row ha hoffset hlength hcovers) hin
    obtain rfl : y' = y := Nat.add_left_cancel hsame
    obtain rfl := Option.some.inj (hrow'.symm.trans hrow)
    exact (Nat.div_eq_of_lt_le hlow hhigh).symm
  · obtain ⟨t, range, -, hpair, hstored⟩ := row_stores k h hrow
    have hmem : placedStore k g placed.job p t (row / sliceHeight) (y, row) ∈ storesOf k g placed (row / sliceHeight) := by
      rw [(hstored hgood).1]
      exact List.mem_map.mpr ⟨(y, row), hpair, rfl⟩
    have hlength : (placedStore k g placed.job p t (row / sliceHeight) (y, row)).write.data.length = p.columns.length * 4 :=
      gather_length (converted_length _) ha.columns
    have hcovers : (placedStore k g placed.job p t (row / sliceHeight) (y, row)).write.covers
        ((p.y + y) * placed.job.stride + p.x * 4) := by
      refine ⟨Nat.le_refl _, Nat.lt_add_of_pos_right ?_⟩
      rw [hlength]
      exact Nat.mul_pos (check_columns h.check) (by decide)
    exact ⟨_, hmem, _, hcovers, placed_in_row ha rfl hlength hcovers⟩

variable {memory : Memory} {σ : State} {j n : Nat} {t : Scratch}

/-- A byte of the whole picture. -/
theorem image_byte (h : Both g placed image p len imageLen) (hf : Prepared g image) (hinv : Inv k g image memory σ)
    (hlen : (memory 0).length = imageLen) (hdone : σ.done j = storesOf k g image j) {row : Nat} (hrow : row < g.sliceRows j)
    (hstores : storesOf k g image j = (List.range (g.sliceRows j)).map (imageStore k g image.job t j)) (hn : n < g.width * 4) :
    (σ.memory 0)[(j * sliceHeight + row) * image.job.stride + n]? = (converted k g image.job t row)[n]? := by
  have hwidth := h.width
  have hin : ∀ {r i}, (imageStore k g image.job t j r).write.covers i →
      (j * sliceHeight + r) * image.job.stride ≤ i ∧ i < (j * sliceHeight + r + 1) * image.job.stride := by
    intro r i hcovers
    refine covers_row (x := 0) rfl ?_ (Nat.le_refl _) (Nat.lt_succ_self _) hcovers
    rw [Nat.zero_add]
    exact Nat.le_trans (Nat.le_of_eq (converted_length r)) hwidth
  have hmem : imageStore k g image.job t j row ∈ storesOf k g image j := by
    rw [hstores]
    exact List.mem_map.mpr ⟨row, List.mem_range.mpr hrow, rfl⟩
  have hcovers : (imageStore k g image.job t j row).write.covers ((j * sliceHeight + row) * image.job.stride + n) := by
    refine ⟨Nat.le_add_right _ _, Nat.add_lt_add_left ?_ _⟩
    exact Nat.lt_of_lt_of_eq hn (converted_length row).symm
  have hbottom : (j * sliceHeight + row + 1) * image.job.stride ≤ imageLen := by
    refine Nat.le_trans (Nat.mul_le_mul_right _ ?_) (Nat.mul_comm g.height _ ▸ h.length)
    unfold Geometry.sliceRows at hrow
    omega
  refine (stored_byte hf hinv hdone hmem ?_ hcovers ?_).trans ?_
  · show (j * sliceHeight + row) * image.job.stride + (converted k g image.job t row).length ≤ (memory 0).length
    rw [hlen, converted_length]
    refine Nat.le_trans (Nat.add_le_add_left hwidth _) ?_
    rwa [← Nat.succ_mul]
  · intro st hst hcovers'
    rw [hstores] at hst
    obtain ⟨r, -, rfl⟩ := List.mem_map.mp hst
    rw [Nat.add_left_cancel (row_unique (hin hcovers') (hin hcovers))]
  · show (converted k g image.job t row)[(j * sliceHeight + row) * image.job.stride + n -
      (j * sliceHeight + row) * image.job.stride]? = _
    rw [Nat.add_sub_cancel_left]

/-- A byte of the placed output. -/
theorem placed_byte (h : Both g placed image p len imageLen) (hf : Prepared g placed) (hinv : Inv k g placed memory σ)
    (hlen : (memory 0).length = len) (hdone : σ.done j = storesOf k g placed j) {range : Nat × Nat} {y row : Nat}
    (hpair : (y, row) ∈ placedPairs p range)
    (hstores : storesOf k g placed j = (placedPairs p range).map (placedStore k g placed.job p t j))
    (hn : n < p.columns.length * 4) :
    (σ.memory 0)[(p.y + y) * placed.job.stride + p.x * 4 + n]? =
      (gather p.columns (converted k g placed.job t (row - j * sliceHeight)))[n]? := by
  have ha := accepted_of_check h.check
  have hlength : ∀ pair, (placedStore k g placed.job p t j pair).write.data.length = p.columns.length * 4 :=
    fun pair => gather_length (converted_length _) ha.columns
  have hrow := (placedPairs_mem hpair).2.2
  have hmem : placedStore k g placed.job p t j (y, row) ∈ storesOf k g placed j := by
    rw [hstores]
    exact List.mem_map.mpr ⟨(y, row), hpair, rfl⟩
  have hcovers : (placedStore k g placed.job p t j (y, row)).write.covers ((p.y + y) * placed.job.stride + p.x * 4 + n) := by
    refine ⟨Nat.le_add_right _ _, Nat.add_lt_add_left ?_ _⟩
    rw [hlength]
    exact hn
  refine (stored_byte hf hinv hdone hmem ?_ hcovers ?_).trans ?_
  · rw [hlength]
    exact Nat.le_trans (placed_fits ha hrow) (Nat.le_of_eq hlen.symm)
  · intro st hst hcovers'
    rw [hstores] at hst
    obtain ⟨pair, hpair', rfl⟩ := List.mem_map.mp hst
    have hy : pair.1 = y := Nat.add_left_cancel
      (row_unique (placed_in_row ha rfl (hlength pair) hcovers') (placed_in_row ha rfl (hlength (y, row)) hcovers))
    have hrow' := (placedPairs_mem hpair').2.2
    rw [hy] at hrow'
    exact congrArg _ (Prod.ext hy (Option.some.inj (hrow'.symm.trans hrow)))
  · show (gather p.columns _)[(p.y + y) * placed.job.stride + p.x * 4 + n - ((p.y + y) * placed.job.stride + p.x * 4)]? = _
    rw [Nat.add_sub_cancel_left]

/-- A pixel of the placed output and the pixel that it was taken from. -/
theorem pixel_gathered {memory' : Memory} {τ : State} (hf : Prepared g placed) (hf' : Prepared g image)
    (h : Both g placed image p len imageLen) (hinv : Inv k g placed memory σ) (hinv' : Inv k g image memory' τ)
    (hlen : (memory 0).length = len) (hlen' : (memory' 0).length = imageLen)
    (hdone : ∀ j < g.sliceCount, σ.done j = storesOf k g placed j) (hdone' : ∀ j < g.sliceCount, τ.done j = storesOf k g image j)
    (hgood : ∀ j < g.sliceCount, good k g image j = true) {x y column row c : Nat} (hcolumn : p.columns[x]? = some column)
    (hrow : p.rows[y]? = some row) (hc : c < 4) :
    ∃ v, (τ.memory 0)[row * image.job.stride + column * 4 + c]? = some v ∧
      (σ.memory 0)[(p.y + y) * placed.job.stride + (p.x + x) * 4 + c]? = some v := by
  have ha := accepted_of_check h.check
  obtain ⟨hj, hfrom, hto⟩ := slice_of_row (ha.rows row (List.mem_of_getElem? hrow))
  obtain ⟨t, range, hsame, hpair, hstored⟩ := row_stores k h hrow
  obtain ⟨hstores, hstores'⟩ := hstored (hsame.trans (hgood _ hj))
  generalize row / sliceHeight = j at hj hfrom hto hstores hstores'
  have hx : x < p.columns.length := (List.getElem?_eq_some_iff.mp hcolumn).1
  have hcolumnlt := ha.columns column (List.mem_of_getElem? hcolumn)
  have hconverted := (@converted_length k g image.job t) (row - j * sliceHeight)
  have hpixel : column * 4 + c < g.width * 4 := by omega
  have himage := (@image_byte _ _ _ _ _ _ _ _ _ _ _ _ h hf' hinv' hlen' (hdone' j hj) (row - j * sliceHeight)) (by omega) hstores' hpixel
  have hplaced := placed_byte (n := x * 4 + c) h hf hinv hlen (hdone j hj) hpair hstores (by omega)
  have hgather := gather_getElem ((@converted_length k _ placed.job t) (row - j * sliceHeight)) ha.columns
    hcolumn hc
  have hsource : converted k g placed.job t (row - j * sliceHeight) = converted k g image.job t (row - j * sliceHeight) := by
    rw [converted, converted, h.coefficients]
  obtain ⟨v, hv⟩ : ∃ v, (converted k g image.job t (row - j * sliceHeight))[column * 4 + c]? = some v :=
    ⟨_, List.getElem?_eq_getElem (Nat.lt_of_lt_of_eq hpixel hconverted.symm)⟩
  rw [Nat.add_sub_cancel' hfrom, hv, ← Nat.add_assoc] at himage
  rw [hgather, hsource, hv] at hplaced
  refine ⟨v, himage, ?_⟩
  rw [← hplaced]
  exact congrArg (fun i => (σ.memory 0)[i]?) (by omega)

end PlaceLemmas

open PlaceLemmas

/-- A placed decode and a decode of the whole picture, whatever the schedules of their
workers: the placed area holds the gathered pixels and nothing else is touched. -/
theorem placed_gathers (k : Kernels) {g : Geometry} {placed image : Frame g} {color : ColorSpace} {l : Loaded g}
    {stale stale' : List (Nat × Nat)} {capacity capacity' len stride imageLen imageStride : Nat} {alloc alloc' : Bool}
    {p : Placement} {memory memory' : Memory} {scratches scratches' : List Scratch}
    (hplaced : prepare g color l stale capacity alloc (.placed len stride p) = .ok placed)
    (himage : prepare g color l stale' capacity' alloc' (.bgrx imageLen imageStride) = .ok image)
    (hlen : (memory 0).length = len) (hlen' : (memory' 0).length = imageLen)
    (hscratches : ∀ s ∈ scratches, s.Sized g placed.job.placedBytes) (hworkers : scratches ≠ [])
    (hscratches' : ∀ s ∈ scratches', s.Sized g image.job.placedBytes) (hworkers' : scratches' ≠ [])
    (schedule schedule' : List Nat) :
    Gathered k g placed image p memory (run k g placed (State.init memory scratches) schedule)
      (run k g image (State.init memory' scratches') schedule') := by
  have h := both_of_prepare hplaced himage
  obtain ⟨hf, -⟩ := prepared_of_prepare hplaced
  obtain ⟨hf', -⟩ := prepared_of_prepare himage
  obtain ⟨hinv, hsome⟩ := reached (k := k) hf memory hscratches hworkers schedule
  obtain ⟨hinv', hsome'⟩ := reached (k := k) hf' memory' hscratches' hworkers' schedule'
  refine ⟨fun b i hout => outside_untouched h hinv hout, fun y row hrow => rows_gathered h hrow, ?_⟩
  intro hfinished hfinished'
  generalize run k g placed (State.init memory scratches) schedule = σ at hinv hsome hfinished ⊢
  generalize run k g image (State.init memory' scratches') schedule' = τ at hinv' hsome' hfinished' ⊢
  obtain ⟨hresult, hsettled⟩ := decoded_alike hinv hinv' hsome hsome' h.count h.imageCount (fun j hj => by
    obtain ⟨-, -, ok, -, -, hgood, hgood', -⟩ := both_stores k h hj
    rw [hgood, hgood']) hfinished hfinished'
  refine ⟨hresult, fun hok x y column row c hcolumn hrow hc => ?_⟩
  exact pixel_gathered hf hf' h hinv hinv' hlen hlen' (fun j hj => (hsettled hok j hj).1)
    (fun j hj => (hsettled hok j hj).2.1) (fun j hj => (hsettled hok j hj).2.2) hcolumn hrow hc

/-- Two columns and three rows of the picture, the middle row twice. -/
def smallPlacement : Placement := ⟨1, 2, [15, 0], [3, 17, 17]⟩

def smallFrame : Frame twoSlices :=
  twoFrame ⟨.bgrx, twoStreams.matrix, 0, yuvRgb709, some 80, 16, [none, none, none], [0, 0, 0], some smallPlacement⟩
    [(0, 1), (1, 3)]

theorem small_placement_gathers :
    let memory : Memory := fun _ => List.replicate 80 165
    let placed := run portable twoSlices smallFrame (State.init memory (List.replicate 2 (Scratch.new twoSlices 8))) turns
    let whole := run portable twoSlices imageFrame
      (State.init (fun _ => List.replicate 2048 0) (List.replicate 1 (Scratch.new twoSlices 0))) turns
    prepare twoSlices .bt709 twoStreams [] 0 true (.placed 80 16 smallPlacement) = .ok smallFrame ∧
      prepare twoSlices .bt709 twoStreams [] 0 true (.bgrx 2048 64) = .ok imageFrame ∧
      (∀ w ∈ placed.workers ++ whole.workers, w.phase = .finished) ∧ placed.result = .ok () ∧
      Gathered portable twoSlices smallFrame imageFrame smallPlacement memory placed whole := by
  have hplaced : prepare twoSlices .bt709 twoStreams [] 0 true (.placed 80 16 smallPlacement) = .ok smallFrame := by rfl
  have himage : prepare twoSlices .bt709 twoStreams [] 0 true (.bgrx 2048 64) = .ok imageFrame := by rfl
  have hlen : (List.replicate 80 (165 : Byte)).length = 80 := List.length_replicate
  have hlen' : (List.replicate 2048 (0 : Byte)).length = 2048 := List.length_replicate
  have hworkers : List.replicate 2 (Scratch.new twoSlices 8) ≠ [] := List.cons_ne_nil _ _
  have hworkers' : List.replicate 1 (Scratch.new twoSlices 0) ≠ [] := List.cons_ne_nil _ _
  refine ⟨hplaced, himage, by decide +kernel, by decide +kernel,
    placed_gathers portable hplaced himage hlen hlen' (fun s hs => ?_) hworkers (fun s hs => ?_) hworkers' _ _⟩
  · rw [List.eq_of_mem_replicate hs]
    exact Scratch.new_sized twoSlices 8
  · rw [List.eq_of_mem_replicate hs]
    exact Scratch.new_sized twoSlices 0

end OmtClient.Vmx.Place
