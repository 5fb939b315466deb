import OmtClient.Vmx.Slice

/-!
# A frame

`decode_uyvy`, `decode_bgrx`, `decode_yuv422p` and `decode_bgrx_placed` of
`crates/omt-vmx/src/lib.rs`, up to `run`: the output that the caller hands over is checked
and becomes the job of the workers. Then which bytes of the output a slice may write.

1. `decodeSlice_keeps`: the stores of a slice stay in rows of its own, in every buffer.
-/

namespace OmtClient.Vmx

open OmtClient.Lib

inductive ColorSpace
  | bt601
  | bt709
  deriving DecidableEq, Repr

def ColorSpace.coefficients : ColorSpace → List Int
  | .bt601 => yuvRgb601
  | .bt709 => yuvRgb709

/-- What `load` leaves: the streams of each slice, with the dequantisation. -/
structure Loaded (g : Geometry) where
  streams : List (Stream × Stream)
  matrix : List Nat
  dcShift : Nat
  hstreams : streams.length = g.sliceCount

/-- The output of a call: the lengths and strides of its buffers, and a placement. -/
inductive Request
  | uyvy (len stride : Nat)
  | bgrx (len stride : Nat)
  | yuv422p (luma blue red : Nat × Nat)
  | placed (len stride : Nat) (p : Placement)
  deriving DecidableEq, Repr

/-- Rows of at least `minimum` bytes, `stride` apart, that fit into `len` bytes. -/
def Geometry.rowsFit (g : Geometry) (len stride minimum : Nat) : Bool :=
  (checked (stride * g.height)).any fun needed => decide (minimum ≤ stride) && decide (needed ≤ len)

/-- A frame about to be decoded: the job, and the slices with their placed rows. -/
structure Frame (g : Geometry) where
  job : Job
  slices : List Slice

/-- `check_packed`, or the checks of a planar output or of a placement, and the job. `stale`
is what `placed` holds from an earlier call. -/
def prepare (g : Geometry) (color : ColorSpace) (l : Loaded g) (stale : List (Nat × Nat)) (capacity : Nat)
    (alloc : Bool) (r : Request) : Except Status (Frame g) :=
  let job := fun pixels output stride planes planeStrides placement =>
    (⟨pixels, l.matrix, l.dcShift, color.coefficients, output, stride, planes, planeStrides, placement⟩ : Job)
  let slices := fun ranges : List (Nat × Nat) =>
    (List.range g.sliceCount).map fun i =>
      let streams := l.streams.getD i (Stream.new 0, Stream.new 0)
      (⟨streams.1, streams.2, ranges.getD i (0, 0)⟩ : Slice)
  match r with
  | .uyvy len stride =>
    if g.rowsFit len stride (g.width * 2) then .ok ⟨job .uyvy (some len) stride [none, none, none] [0, 0, 0] none, slices stale⟩
    else .error .outputSize
  | .bgrx len stride =>
    if g.rowsFit len stride (g.width * 4) then .ok ⟨job .bgrx (some len) stride [none, none, none] [0, 0, 0] none, slices stale⟩
    else .error .outputSize
  | .yuv422p luma blue red =>
    if g.rowsFit luma.1 luma.2 g.width && g.rowsFit blue.1 blue.2 (g.width / 2) && g.rowsFit red.1 red.2 (g.width / 2) then
      .ok ⟨job .yuv422p none 0 [some luma.1, some blue.1, some red.1] [luma.2, blue.2, red.2] none, slices stale⟩
    else .error .outputSize
  | .placed len stride p =>
    match g.preparePlacement p len stride capacity alloc with
    | .error e => .error e
    | .ok (ranges, _) => .ok ⟨job .bgrx (some len) stride [none, none, none] [0, 0, 0] (some p), slices ranges⟩

/-! ## The rows of a slice -/

/-- The distance between two rows of a buffer. -/
def Job.strideOf (job : Job) (buffer : Nat) : Nat :=
  match buffer with
  | 0 => job.stride
  | p + 1 => job.planeStrides.getD p 0

/-- The rows of the output that a slice may write: its rows of the image, or its placed
rows. -/
def rowsOf (g : Geometry) (f : Frame g) (j : Nat) : Nat × Nat :=
  match f.job.placement with
  | none => (j * sliceHeight, j * sliceHeight + g.sliceRows j)
  | some p => (p.y + ((f.slices[j]?).elim (0, 0) (·.placed)).1, p.y + ((f.slices[j]?).elim (0, 0) (·.placed)).2)

/-- A byte of a buffer belongs to a slice. -/
def owns (g : Geometry) (f : Frame g) (buffer j i : Nat) : Prop :=
  (rowsOf g f j).1 * f.job.strideOf buffer ≤ i ∧ i < (rowsOf g f j).2 * f.job.strideOf buffer

/-- The writes of some stores to one buffer. -/
def writesOn (buffer : Nat) (stores : List Store) : List (Write Byte) :=
  (stores.filter (·.buffer == buffer)).map (·.write)

/-! ## What the checks leave -/

/-- A frame that `prepare` made. -/
inductive Prepared (g : Geometry) (f : Frame g) : Prop
  | packed {len : Nat} (hplacement : f.job.placement = none) (hpixels : f.job.pixels ≠ .yuv422p)
    (houtput : f.job.output = some len) (hwidth : g.width * (if f.job.pixels = .uyvy then 2 else 4) ≤ f.job.stride)
    (hlen : f.job.stride * g.height ≤ len)
  | planar {luma blue red : Nat × Nat} (hplacement : f.job.placement = none) (hpixels : f.job.pixels = .yuv422p)
    (hplanes : f.job.planes = [some luma.1, some blue.1, some red.1])
    (hstrides : f.job.planeStrides = [luma.2, blue.2, red.2])
    (hluma : g.width ≤ luma.2 ∧ luma.2 * g.height ≤ luma.1)
    (hblue : g.width / 2 ≤ blue.2 ∧ blue.2 * g.height ≤ blue.1)
    (hred : g.width / 2 ≤ red.2 ∧ red.2 * g.height ≤ red.1)
  | placed {len : Nat} {p : Placement} (hplacement : f.job.placement = some p) (hpixels : f.job.pixels = .bgrx)
    (houtput : f.job.output = some len) (hcheck : g.checkPlacement p len f.job.stride = .ok ())
    (hslices : f.slices.map (·.placed) = placedFrom p.rows g.sliceCount 0 0)

namespace FrameLemmas

variable {g : Geometry} {f : Frame g} {p : Placement} {rows : List Nat}

theorem rowsFit_iff {len stride minimum : Nat} (h : g.rowsFit len stride minimum = true) :
    minimum ≤ stride ∧ stride * g.height ≤ len := by
  unfold Geometry.rowsFit checked at h
  split at h
  · rw [Option.any_some, Bool.and_eq_true, decide_eq_true_eq, decide_eq_true_eq] at h
    exact h
  · cases h

/-! ### Placed rows -/

theorem placedFrom_length (n i first : Nat) : (placedFrom rows n i first).length = n := by
  induction n generalizing i first with
  | zero => rfl
  | succ n ih => exact congrArg (· + 1) (ih _ _)

/-- The ranges go on from each other. -/
theorem placedFrom_mem {n i first : Nat} {r : Nat × Nat} (h : r ∈ placedFrom rows n i first) : first ≤ r.1 ∧ r.1 ≤ r.2 := by
  induction n generalizing i first with
  | zero => cases h
  | succ n ih =>
    rw [placedFrom] at h
    rcases List.mem_cons.mp h with rfl | h
    · exact ⟨Nat.le_refl _, Nat.le_add_right _ _⟩
    · obtain ⟨hfirst, hle⟩ := ih h
      exact ⟨Nat.le_trans (Nat.le_add_right _ _) hfirst, hle⟩

theorem placedFrom_pairwise (n i first : Nat) : (placedFrom rows n i first).Pairwise fun a b => a.2 ≤ b.1 := by
  induction n generalizing i first with
  | zero => exact List.Pairwise.nil
  | succ n ih =>
    rw [placedFrom]
    exact List.pairwise_cons.mpr ⟨fun r hr => (placedFrom_mem hr).1, ih _ _⟩

theorem preparePlacement_inv {len stride capacity : Nat} {alloc : Bool} {r : List (Nat × Nat) × Nat}
    (h : g.preparePlacement p len stride capacity alloc = .ok r) :
    g.checkPlacement p len stride = .ok () ∧ r.1 = placedFrom p.rows g.sliceCount 0 0 := by
  unfold Geometry.preparePlacement at h
  cases hcheck : g.checkPlacement p len stride with
  | error e =>
    rw [hcheck] at h
    cases h
  | ok u =>
    rw [hcheck] at h
    refine ⟨rfl, ?_⟩
    change (if _ then _ else _) = _ at h
    split at h
    · cases h
    · cases h
      rfl

theorem range_getD {α : Type} {l : List α} {d : α} {n : Nat} (h : l.length = n) :
    (List.range n).map (fun i => l.getD i d) = l := by
  subst h
  refine List.ext_getElem (by rw [List.length_map, List.length_range]) fun i hi hi' => ?_
  rw [List.getElem_map, List.getElem_range, List.getD_eq_getElem?_getD, List.getElem?_eq_getElem hi']
  rfl

theorem prepared_of_prepare {color : ColorSpace} {l : Loaded g} {stale : List (Nat × Nat)} {capacity : Nat} {alloc : Bool}
    {r : Request} (h : prepare g color l stale capacity alloc r = .ok f) :
    Prepared g f ∧ f.slices.length = g.sliceCount := by
  unfold prepare at h
  extract_lets job slices at h
  have hlength : ∀ ranges, (slices ranges).length = g.sliceCount := fun ranges => by
    rw [List.length_map, List.length_range]
  cases r with
  | uyvy len stride =>
    dsimp only at h
    split at h
    · next hfit =>
      cases h
      obtain ⟨hwidth, hlen⟩ := rowsFit_iff hfit
      exact ⟨.packed rfl nofun rfl hwidth hlen, hlength _⟩
    · cases h
  | bgrx len stride =>
    dsimp only at h
    split at h
    · next hfit =>
      cases h
      obtain ⟨hwidth, hlen⟩ := rowsFit_iff hfit
      exact ⟨.packed rfl nofun rfl hwidth hlen, hlength _⟩
    · cases h
  | yuv422p luma blue red =>
    dsimp only at h
    split at h
    · next hfit =>
      cases h
      rw [Bool.and_eq_true, Bool.and_eq_true] at hfit
      exact ⟨.planar rfl rfl rfl rfl (rowsFit_iff hfit.1.1) (rowsFit_iff hfit.1.2) (rowsFit_iff hfit.2), hlength _⟩
    · cases h
  | placed len stride p =>
    dsimp only at h
    split at h
    · cases h
    · next ranges capacity' hplacement =>
      cases h
      obtain ⟨hcheck, hranges⟩ := preparePlacement_inv hplacement
      refine ⟨.placed rfl rfl rfl hcheck ?_, hlength _⟩
      rw [List.map_map]
      have hcount : ranges.length = g.sliceCount := by rw [show ranges = _ from hranges, placedFrom_length]
      exact (range_getD hcount).trans hranges

/-! ### A place has one owner -/

theorem sliceRows_le (g : Geometry) (j : Nat) : j * sliceHeight + g.sliceRows j ≤ (j + 1) * sliceHeight := by
  have := Nat.min_le_right (g.height - j * sliceHeight) sliceHeight
  unfold Geometry.sliceRows
  rw [Nat.succ_mul]
  omega

/-- The rows of a later slice come after those of an earlier one. -/
theorem rowsOf_lt (hf : Prepared g f) {j k : Nat} (hlt : j < k) (hnonempty : (rowsOf g f k).1 < (rowsOf g f k).2) :
    (rowsOf g f j).2 ≤ (rowsOf g f k).1 := by
  have hunplaced : f.job.placement = none → (rowsOf g f j).2 ≤ (rowsOf g f k).1 := by
    intro hplacement
    unfold rowsOf
    rw [hplacement]
    exact Nat.le_trans (sliceRows_le g j) (Nat.mul_le_mul_right sliceHeight hlt)
  cases hf with
  | packed hplacement => exact hunplaced hplacement
  | planar hplacement => exact hunplaced hplacement
  | placed hplacement hpixels houtput hcheck hslices =>
    rename_i len p
    unfold rowsOf at hnonempty ⊢
    rw [hplacement] at hnonempty ⊢
    dsimp only at hnonempty ⊢
    cases hk : f.slices[k]? with
    | none =>
      rw [hk] at hnonempty
      exact absurd hnonempty (Nat.lt_irrefl _)
    | some sk =>
      obtain ⟨hkn, hsk⟩ := List.getElem?_eq_some_iff.mp hk
      have hjn : j < f.slices.length := Nat.lt_trans hlt hkn
      rw [List.getElem?_eq_getElem hjn]
      have hpair := (@placedFrom_pairwise p.rows) g.sliceCount 0 0
      rw [← hslices] at hpair
      have hle := List.pairwise_iff_getElem.mp hpair j k (by rw [List.length_map]; exact hjn)
        (by rw [List.length_map]; exact hkn) hlt
      rw [List.getElem_map, List.getElem_map, hsk] at hle
      exact Nat.add_le_add_left hle p.y

theorem owns_apart (hf : Prepared g f) {buffer j k i : Nat} (hj : owns g f buffer j i) (hk : owns g f buffer k i) : j = k := by
  have hnot : ∀ {j k}, owns g f buffer j i → owns g f buffer k i → ¬ j < k := by
    intro j k hj hk hlt
    have hnonempty : (rowsOf g f k).1 < (rowsOf g f k).2 :=
      Nat.lt_of_mul_lt_mul_right (Nat.lt_of_le_of_lt hk.1 hk.2)
    have hle := Nat.mul_le_mul_right (f.job.strideOf buffer) (rowsOf_lt hf hlt hnonempty)
    exact Nat.lt_irrefl i (Nat.lt_of_lt_of_le hj.2 (Nat.le_trans hle hk.1))
  rcases Nat.lt_trichotomy j k with h | h | h
  · exact absurd h (hnot hj hk)
  · exact h
  · exact absurd h (hnot hk hj)

/-! ### The stores of a slice -/

theorem storeRows_mem {out : Option Nat} {store : Nat → Store} {rows : List Nat} {s : Store}
    (h : s ∈ (storeRows out store rows).1) : ∃ row ∈ rows, s = store row := by
  induction rows with
  | nil => cases h
  | cons row rest ih =>
    rw [storeRows] at h
    dsimp only at h
    split at h
    · rcases List.mem_cons.mp h with rfl | h
      · exact ⟨row, List.mem_cons_self, rfl⟩
      · obtain ⟨r, hr, hs⟩ := ih h
        exact ⟨r, List.mem_cons_of_mem _ hr, hs⟩
    · cases h

/-- A write inside one row covers bytes of that row only. -/
theorem covers_row {w : Write Byte} {r x stride i lo hi : Nat} (hoffset : w.offset = r * stride + x)
    (hroom : x + w.data.length ≤ stride) (hlo : lo ≤ r) (hhi : r < hi) (h : w.covers i) : lo * stride ≤ i ∧ i < hi * stride := by
  obtain ⟨hfrom, hto⟩ := h
  have hlow := Nat.mul_le_mul_right stride hlo
  have hhigh : r * stride + stride ≤ hi * stride := by
    rw [← Nat.succ_mul]
    exact Nat.mul_le_mul_right stride hhi
  omega

/-- The stores of a slice in a buffer, each inside a row of its own. -/
def Keeps (g : Geometry) (f : Frame g) (j : Nat) (stores : List Store) : Prop :=
  ∀ s ∈ stores, ∀ i, s.write.covers i → owns g f s.buffer j i

theorem rowsOf_unplaced (hplacement : f.job.placement = none) (j : Nat) :
    rowsOf g f j = (j * sliceHeight, j * sliceHeight + g.sliceRows j) := by
  unfold rowsOf
  rw [hplacement]

theorem convertBand_keeps {k : Kernels} {j : Nat} {luma blue red : Bytes} (hplacement : f.job.placement = none)
    (hwidth : g.width * (if f.job.pixels = .uyvy then 2 else 4) ≤ f.job.stride) :
    Keeps g f j (convertBand k g f.job j luma blue red).1 := by
  intro s hs i hi
  obtain ⟨row, hrow, rfl⟩ := storeRows_mem hs
  have heven := g.heven
  have hrow := List.mem_range.mp hrow
  unfold owns
  rw [rowsOf_unplaced hplacement]
  refine covers_row (r := j * sliceHeight + row) (x := 0) rfl ?_ (Nat.le_add_right _ _) (Nat.add_lt_add_left hrow _) hi
  show 0 + (if f.job.pixels = .uyvy then _ else _ : Bytes).length ≤ f.job.stride
  split at hwidth
  · next huyvy =>
    rw [if_pos huyvy, uyvyRow_length]
    omega
  · next huyvy =>
    rw [if_neg huyvy, k.bgraRow_length]
    omega

theorem copyBand_keeps {j p sourceStride width : Nat} {source : Bytes} (hplacement : f.job.placement = none)
    (hwidth : width ≤ f.job.planeStrides.getD p 0) :
    Keeps g f j (copyBand g f.job j p source sourceStride width).1 := by
  intro s hs i hi
  unfold copyBand at hs
  dsimp only at hs
  split at hs
  · next htight =>
    obtain ⟨row, -, rfl⟩ := storeRows_mem hs
    obtain ⟨hfrom, hto⟩ := hi
    dsimp only at hfrom hto
    rw [List.length_take] at hto
    unfold owns
    rw [rowsOf_unplaced hplacement]
    show j * sliceHeight * f.job.planeStrides.getD p 0 ≤ i ∧
      i < (j * sliceHeight + g.sliceRows j) * f.job.planeStrides.getD p 0
    rw [htight.2] at hfrom hto ⊢
    rw [Nat.add_mul]
    omega
  · obtain ⟨row, hrow, rfl⟩ := storeRows_mem hs
    have hrow := List.mem_range.mp hrow
    unfold owns
    rw [rowsOf_unplaced hplacement]
    refine covers_row (r := j * sliceHeight + row) (x := 0) rfl ?_ (Nat.le_add_right _ _) (Nat.add_lt_add_left hrow _) hi
    show 0 + ((source.drop (row * sourceStride)).take width).length ≤ f.job.planeStrides.getD p 0
    rw [List.length_take]
    omega

theorem copyBands_keeps {j : Nat} {luma blue red : Bytes} (hplacement : f.job.placement = none)
    (h0 : g.width ≤ f.job.planeStrides.getD 0 0) (h1 : g.width / 2 ≤ f.job.planeStrides.getD 1 0)
    (h2 : g.width / 2 ≤ f.job.planeStrides.getD 2 0) : Keeps g f j (copyBands g f.job j luma blue red).1 := by
  have hluma := (@copyBand_keeps g _ j _ g.lumaStride _ luma) hplacement h0
  have hblue := (@copyBand_keeps g _ j _ g.chromaStride _ blue) hplacement h1
  have hred := (@copyBand_keeps g _ j _ g.chromaStride _ red) hplacement h2
  intro s hs
  unfold copyBands at hs
  dsimp only at hs
  split at hs
  · exact hluma s hs
  · split at hs
    · rcases List.mem_append.mp hs with hs | hs
      · exact hluma s hs
      · exact hblue s hs
    · rcases List.mem_append.mp hs with hs | hs
      · rcases List.mem_append.mp hs with hs | hs
        · exact hluma s hs
        · exact hblue s hs
      · exact hred s hs

theorem placeRows_mem {k : Kernels} {job : Job} {index : Nat} {pairs : List (Nat × Nat)} {last : Option Nat} {s : Scratch}
    {st : Store} (h : st ∈ (placeRows k g job p index pairs last s).1) :
    ∃ pair ∈ pairs, st.buffer = 0 ∧ st.write.offset = (p.y + pair.1) * job.stride + p.x * 4 ∧
      st.write.data.length ≤ p.columns.length * 4 := by
  induction pairs generalizing last s with
  | nil => cases h
  | cons pair rest ih =>
    obtain ⟨y, source⟩ := pair
    rw [placeRows] at h
    dsimp only at h
    split at h
    · rcases List.mem_cons.mp h with rfl | h
      · refine ⟨(y, source), List.mem_cons_self, rfl, rfl, ?_⟩
        rw [List.length_take]
        exact Nat.min_le_left _ _
      · obtain ⟨pair, hpair, hst⟩ := ih h
        exact ⟨pair, List.mem_cons_of_mem _ hpair, hst⟩
    · cases h

theorem placedPairs_mem {range : Nat × Nat} {pair : Nat × Nat} (h : pair ∈ placedPairs p range) :
    range.1 ≤ pair.1 ∧ pair.1 < range.2 ∧ p.rows[pair.1]? = some pair.2 := by
  unfold placedPairs at h
  obtain ⟨i, hi⟩ := List.mem_iff_getElem?.mp h
  rw [List.getElem?_drop, List.getElem?_take] at hi
  split at hi
  · next hlt =>
    rw [List.getElem?_map, List.getElem?_zipIdx] at hi
    cases hrow : p.rows[range.1 + i]? with
    | none =>
      rw [hrow] at hi
      cases hi
    | some r =>
      rw [hrow] at hi
      obtain rfl := Option.some.inj hi
      dsimp only
      rw [Nat.zero_add]
      exact ⟨Nat.le_add_right _ _, hlt, hrow⟩
  · cases hi

theorem placeRows_keeps {k : Kernels} {j len : Nat} {slice : Slice} {last : Option Nat} {s : Scratch}
    (hplacement : f.job.placement = some p) (ha : Accepted g p len f.job.stride) (hj : f.slices[j]? = some slice) :
    Keeps g f j (placeRows k g f.job p j (placedPairs p slice.placed) last s).1 := by
  intro st hst i hi
  obtain ⟨pair, hpair, hbuffer, hoffset, hlength⟩ := placeRows_mem hst
  obtain ⟨hlow, hhigh, -⟩ := placedPairs_mem hpair
  have hright := ha.right
  have hroom : p.x * 4 + st.write.data.length ≤ f.job.stride := by omega
  unfold owns rowsOf
  rw [hplacement, hbuffer, hj]
  exact covers_row (r := p.y + pair.1) hoffset hroom (Nat.add_le_add_left hlow _) (Nat.add_lt_add_left hhigh _) hi

theorem columnsInside (hf : Prepared g f) : f.job.ColumnsInside g := by
  intro p hp
  cases hf with
  | packed hplacement => exact nomatch hplacement.symm.trans hp
  | planar hplacement => exact nomatch hplacement.symm.trans hp
  | placed hplacement hpixels houtput hcheck hslices =>
    obtain rfl := Option.some.inj (hplacement.symm.trans hp)
    exact (accepted_of_check hcheck).columns

theorem decodeSlice_keeps {k : Kernels} {j : Nat} {slice : Slice} {s : Scratch} (hf : Prepared g f)
    (hj : f.slices[j]? = some slice) : Keeps g f j (decodeSlice k g f.job j slice s).1 := by
  unfold decodeSlice
  dsimp only
  split
  · intro st hst
    cases hst
  · cases hf with
    | packed hplacement hpixels houtput hwidth hlen =>
      rw [hplacement]
      dsimp only
      rw [if_neg hpixels]
      exact convertBand_keeps hplacement hwidth
    | planar hplacement hpixels hplanes hstrides hluma hblue hred =>
      rw [hplacement]
      dsimp only
      rw [if_pos hpixels]
      refine copyBands_keeps hplacement ?_ ?_ ?_
      · rw [hstrides]
        exact hluma.1
      · rw [hstrides]
        exact hblue.1
      · rw [hstrides]
        exact hred.1
    | placed hplacement hpixels houtput hcheck hslices =>
      have hkeeps := (@placeRows_keeps _ _ _ k _ _ _ none (decodePlanes k g f.job slice s).1) hplacement
        (accepted_of_check hcheck) hj
      rw [hplacement]
      exact hkeeps

end FrameLemmas

end OmtClient.Vmx
