import OmtClient.Vmx.Decode
import OmtClient.Vmx.Plane

/-!
# A slice

`decode_slice` of `crates/omt-vmx/src/lib.rs`: the planes of one slice are decoded into the
worker's scratch and its rows are stored into the output, converted, copied or placed.

The output is a memory of four buffers: the packed output and the three planes. What a slice
does to it is the list of its stores; a store that does not fit ends the slice. `usize::MAX`
as the source row converted last is `none`.

1. `decodeSlice_alone`: what a slice stores and whether it fails does not depend on the
   scratch that it is given.
-/

namespace OmtClient.Vmx

open OmtClient.Lib

inductive Pixels
  | uyvy
  | bgrx
  | yuv422p
  deriving DecidableEq, Repr

/-- What every worker decodes for one frame. An output that is missing has no length. -/
structure Job where
  pixels : Pixels
  matrix : List Nat
  dcShift : Nat
  coefficients : List Int
  output : Option Nat
  stride : Nat
  planes : List (Option Nat)
  planeStrides : List Nat
  placement : Option Placement
  deriving DecidableEq, Repr

structure Slice where
  dc : Stream
  ac : Stream
  placed : Nat × Nat
  deriving DecidableEq, Repr

structure Scratch where
  luma : Bytes
  blue : Bytes
  red : Bytes
  sourceRow : Bytes
  placedRow : Bytes
  deriving DecidableEq, Repr

/-- A write to one of the buffers. -/
structure Store where
  buffer : Nat
  write : Write Byte
  deriving DecidableEq, Repr

/-- `Out::row`: the bytes are inside the buffer. -/
def outRow (len : Option Nat) (offset n : Nat) : Bool := len.any fun l => decide (offset ≤ l) && decide (n ≤ l - offset)

/-- Stores made one after the other until one does not fit. -/
def storeRows (out : Option Nat) (store : Nat → Store) : List Nat → List Store × Bool
  | [] => ([], true)
  | row :: rest =>
    let s := store row
    if outRow out s.write.offset s.write.data.length then
      let (stores, ok) := storeRows out store rest
      (s :: stores, ok)
    else ([], false)

/-! ## Bands -/

/-- `convert_band`. -/
def convertBand (k : Kernels) (g : Geometry) (job : Job) (index : Nat) (luma blue red : Bytes) : List Store × Bool :=
  storeRows job.output (fun row =>
    let l := luma.drop (row * g.lumaStride)
    let b := blue.drop (row * g.chromaStride)
    let r := red.drop (row * g.chromaStride)
    ⟨0, (index * sliceHeight + row) * job.stride,
      if job.pixels = .uyvy then uyvyRow l b r g.width else k.bgraRow l b r g.width job.coefficients⟩)
    (List.range (g.sliceRows index))

/-- `copy_band`, of plane `p`. -/
def copyBand (g : Geometry) (job : Job) (index p : Nat) (source : Bytes) (sourceStride width : Nat) : List Store × Bool :=
  let out := job.planes.getD p none
  let stride := job.planeStrides.getD p 0
  let rows := g.sliceRows index
  if sourceStride = width ∧ stride = width then
    storeRows out (fun _ => ⟨p + 1, index * sliceHeight * stride, source.take (rows * width)⟩) [0]
  else
    storeRows out (fun row =>
      ⟨p + 1, (index * sliceHeight + row) * stride, (source.drop (row * sourceStride)).take width⟩) (List.range rows)

/-- The planes one after the other, until one does not fit. -/
def copyBands (g : Geometry) (job : Job) (index : Nat) (luma blue red : Bytes) : List Store × Bool :=
  let (s0, ok0) := copyBand g job index 0 luma g.lumaStride g.width
  if !ok0 then (s0, false)
  else
    let (s1, ok1) := copyBand g job index 1 blue g.chromaStride (g.width / 2)
    if !ok1 then (s0 ++ s1, false)
    else
      let (s2, ok2) := copyBand g job index 2 red g.chromaStride (g.width / 2)
      (s0 ++ s1 ++ s2, ok2)

/-! ## Placed rows -/

/-- The pixels of a row that the columns name. -/
def gather (columns : List Nat) (row : Bytes) : Bytes := columns.flatMap fun c => (row.drop (c * 4)).take 4

/-- A source row converted, and gathered for the output. -/
def convertRow (k : Kernels) (g : Geometry) (job : Job) (p : Placement) (row : Nat) (s : Scratch) : Scratch :=
  let converted := k.bgraRow (s.luma.drop (row * g.lumaStride)) (s.blue.drop (row * g.chromaStride))
    (s.red.drop (row * g.chromaStride)) g.width job.coefficients
  let sourceRow := overwrite s.sourceRow 0 converted
  { s with sourceRow, placedRow := overwrite s.placedRow 0 (gather p.columns sourceRow) }

/-- The placed rows of a slice: destination rows with the source row of each. -/
def placeRows (k : Kernels) (g : Geometry) (job : Job) (p : Placement) (index : Nat) :
    List (Nat × Nat) → Option Nat → Scratch → List Store × Scratch × Bool
  | [], _, s => ([], s, true)
  | (y, source) :: rest, converted, s =>
    let s := if converted = some source then s else convertRow k g job p (source - index * sliceHeight) s
    let offset := (p.y + y) * job.stride + p.x * 4
    if outRow job.output offset (p.columns.length * 4) then
      let (stores, s', ok) := placeRows k g job p index rest (some source) s
      (⟨0, offset, s.placedRow.take (p.columns.length * 4)⟩ :: stores, s', ok)
    else ([], s, false)

/-- The destination rows of a slice with their source rows. -/
def placedPairs (p : Placement) (range : Nat × Nat) : List (Nat × Nat) :=
  ((p.rows.zipIdx.map fun r => (r.2, r.1)).take range.2).drop range.1

/-! ## The slice -/

/-- The three planes in the scratch, if the streams hold them. -/
def decodePlanes (k : Kernels) (g : Geometry) (job : Job) (slice : Slice) (s : Scratch) : Scratch × Bool :=
  let plane := fun stride bias => (⟨stride, bias, job.matrix, job.dcShift⟩ : PlaneJob)
  let dc := Reader.start slice.dc.visible
  let ac := Reader.start slice.ac.visible
  match decodePlane k (plane g.lumaStride 128) dc ac s.luma with
  | (luma, none) => ({ s with luma }, false)
  | (luma, some (dc, ac)) =>
    match decodePlane k (plane g.chromaStride 0) dc ac s.blue with
    | (blue, none) => ({ s with luma, blue }, false)
    | (blue, some (dc, ac)) =>
      match decodePlane k (plane g.chromaStride 0) dc ac s.red with
      | (red, none) => ({ s with luma, blue, red }, false)
      | (red, some _) => ({ s with luma, blue, red }, true)

/-- `decode_slice`: the stores, the scratch after them and whether the slice was good. -/
def decodeSlice (k : Kernels) (g : Geometry) (job : Job) (index : Nat) (slice : Slice) (s : Scratch) :
    List Store × Scratch × Bool :=
  let (s, ok) := decodePlanes k g job slice s
  if !ok then ([], s, false)
  else
    match job.placement with
    | some p => placeRows k g job p index (placedPairs p slice.placed) none s
    | none =>
      let (stores, ok) :=
        if job.pixels = .yuv422p then copyBands g job index s.luma s.blue s.red
        else convertBand k g job index s.luma s.blue s.red
      (stores, s, ok)

/-- A scratch of the sizes that `Decoder::new` and `prepare_placement` give it. -/
structure Scratch.Sized (g : Geometry) (placedBytes : Nat) (s : Scratch) : Prop where
  luma : s.luma.length = 16 * g.lumaStride
  blue : s.blue.length = 16 * g.chromaStride
  red : s.red.length = 16 * g.chromaStride
  sourceRow : s.sourceRow.length = g.width * 4
  placedRow : placedBytes ≤ s.placedRow.length

/-- The scratch of a new decoder. -/
def Scratch.new (g : Geometry) (placedBytes : Nat) : Scratch :=
  ⟨List.replicate (g.lumaStride * sliceHeight) 0, List.replicate (g.chromaStride * sliceHeight) 0,
    List.replicate (g.chromaStride * sliceHeight) 0, List.replicate (g.width * 4) 0, List.replicate placedBytes 0⟩

/-- The bytes that a placed row needs. -/
def Job.placedBytes (job : Job) : Nat := job.placement.elim 0 (·.columns.length * 4)

/-- A slice taken alone: what it stores and whether it is good. -/
def sliceAlone (k : Kernels) (g : Geometry) (job : Job) (index : Nat) (slice : Slice) : List Store × Bool :=
  let r := decodeSlice k g job index slice (Scratch.new g job.placedBytes)
  (r.1, r.2.2)

namespace SliceLemmas

variable {k : Kernels} {g : Geometry} {job : Job} {slice : Slice} {s s' : Scratch} {p : Placement} {n : Nat}

/-- Two scratches with the same planes, and the same placed row if one was made. -/
structure Alike (g : Geometry) (n : Nat) (made : Bool) (s s' : Scratch) : Prop where
  left : s.Sized g n
  right : s'.Sized g n
  luma : s.luma = s'.luma
  blue : s.blue = s'.blue
  red : s.red = s'.red
  placedRow : made = true → s.placedRow.take n = s'.placedRow.take n

/-! ### The planes -/

/-- The planes of two scratches: both are rejected, or both end alike. -/
theorem decodePlanes_alone (hs : s.Sized g n) (hs' : s'.Sized g n) :
    (∃ t t', decodePlanes k g job slice s = (t, false) ∧ decodePlanes k g job slice s' = (t', false) ∧ t.Sized g n) ∨
    ∃ t t', decodePlanes k g job slice s = (t, true) ∧ decodePlanes k g job slice s' = (t', true) ∧
      Alike g n false t t' := by
  unfold decodePlanes
  extract_lets plane dc ac
  rcases decodePlane_cases k (plane g.lumaStride 128) dc ac hs.luma hs'.luma with
    ⟨luma, luma', h, h', hlen, -⟩ | ⟨luma, ⟨dc, ac⟩, h, h', hluma⟩
  · rw [h, h']
    exact .inl ⟨_, _, rfl, rfl, hlen, hs.blue, hs.red, hs.sourceRow, hs.placedRow⟩
  rw [h, h']
  dsimp only
  rcases decodePlane_cases k (plane g.chromaStride 0) dc ac hs.blue hs'.blue with
    ⟨blue, blue', h, h', hlen, -⟩ | ⟨blue, ⟨dc, ac⟩, h, h', hblue⟩
  · rw [h, h']
    exact .inl ⟨_, _, rfl, rfl, hluma, hlen, hs.red, hs.sourceRow, hs.placedRow⟩
  rw [h, h']
  dsimp only
  rcases decodePlane_cases k (plane g.chromaStride 0) dc ac hs.red hs'.red with
    ⟨red, red', h, h', hlen, -⟩ | ⟨red, readers, h, h', hred⟩
  · rw [h, h']
    exact .inl ⟨_, _, rfl, rfl, hluma, hblue, hlen, hs.sourceRow, hs.placedRow⟩
  rw [h, h']
  exact .inr ⟨_, _, rfl, rfl, ⟨hluma, hblue, hred, hs.sourceRow, hs.placedRow⟩,
    ⟨hluma, hblue, hred, hs'.sourceRow, hs'.placedRow⟩, rfl, rfl, rfl, nofun⟩

/-! ### Placed rows -/

theorem gather_length {columns : List Nat} {row : Bytes} {width : Nat} (hrow : row.length = width * 4)
    (hcolumns : ∀ c ∈ columns, c < width) : (gather columns row).length = columns.length * 4 := by
  refine length_flatMap_const fun c hc => ?_
  have := hcolumns c hc
  rw [List.length_take, List.length_drop]
  omega

theorem overwrite_whole {buffer data : Bytes} (h : data.length = buffer.length) : overwrite buffer 0 data = data := by
  unfold overwrite
  rw [List.take_zero, List.nil_append, Nat.zero_add, h, List.drop_length, List.append_nil]

theorem take_overwrite_start {buffer data : Bytes} (h : data.length ≤ buffer.length) :
    (overwrite buffer 0 data).take data.length = data := by
  have := take_overwrite (k := 0) (by rwa [Nat.zero_add] : 0 + data.length ≤ buffer.length)
  rwa [Nat.zero_add, List.take_zero, List.nil_append] at this

/-- The bytes of a converted row. -/
def converted (k : Kernels) (g : Geometry) (job : Job) (s : Scratch) (row : Nat) : Bytes :=
  k.bgraRow (s.luma.drop (row * g.lumaStride)) (s.blue.drop (row * g.chromaStride)) (s.red.drop (row * g.chromaStride))
    g.width job.coefficients

theorem converted_length (row : Nat) : (converted k g job s row).length = g.width * 4 := by
  have heven := g.heven
  rw [converted, k.bgraRow_length]
  omega

/-- The row buffers after a conversion hold it and nothing else of the row. -/
theorem convertRow_placed (hs : s.Sized g (p.columns.length * 4)) (hcolumns : ∀ c ∈ p.columns, c < g.width) (row : Nat) :
    (convertRow k g job p row s).placedRow.take (p.columns.length * 4) = gather p.columns (converted k g job s row) ∧
      (convertRow k g job p row s).Sized g (p.columns.length * 4) := by
  have hlength := (@converted_length k g job s) row
  have hsource : overwrite s.sourceRow 0 (converted k g job s row) = converted k g job s row :=
    overwrite_whole (hlength.trans hs.sourceRow.symm)
  have hgather := gather_length hlength hcolumns
  have hroom : (gather p.columns (converted k g job s row)).length ≤ s.placedRow.length := hgather ▸ hs.placedRow
  have hrow : convertRow k g job p row s = { s with
      sourceRow := converted k g job s row
      placedRow := overwrite s.placedRow 0 (gather p.columns (converted k g job s row)) } := by
    show { s with
      sourceRow := overwrite s.sourceRow 0 (converted k g job s row)
      placedRow := overwrite s.placedRow 0 (gather p.columns (overwrite s.sourceRow 0 (converted k g job s row))) } = _
    rw [hsource]
  rw [hrow]
  refine ⟨?_, hs.luma, hs.blue, hs.red, hlength, ?_⟩
  · dsimp only
    rw [← hgather]
    exact take_overwrite_start hroom
  · dsimp only
    rw [length_overwrite (by rwa [Nat.zero_add])]
    exact hs.placedRow

theorem convertRow_alike {made : Bool} (h : Alike g (p.columns.length * 4) made s s')
    (hcolumns : ∀ c ∈ p.columns, c < g.width) (row : Nat) :
    Alike g (p.columns.length * 4) true (convertRow k g job p row s) (convertRow k g job p row s') := by
  obtain ⟨hleft, hsized⟩ := (@convertRow_placed k _ job) h.left hcolumns row
  obtain ⟨hright, hsized'⟩ := (@convertRow_placed k _ job) h.right hcolumns row
  refine ⟨hsized, hsized', h.luma, h.blue, h.red, fun _ => ?_⟩
  rw [hleft, hright, converted, converted, h.luma, h.blue, h.red]

/-- The placed rows of two scratches with the same planes. -/
theorem placeRows_alone (hcolumns : ∀ c ∈ p.columns, c < g.width) {index : Nat} (pairs : List (Nat × Nat))
    {last : Option Nat} (h : Alike g (p.columns.length * 4) last.isSome s s') :
    (placeRows k g job p index pairs last s).1 = (placeRows k g job p index pairs last s').1 ∧
      (placeRows k g job p index pairs last s).2.2 = (placeRows k g job p index pairs last s').2.2 ∧
      (placeRows k g job p index pairs last s).2.1.Sized g (p.columns.length * 4) := by
  induction pairs generalizing last s s' with
  | nil => exact ⟨rfl, rfl, h.left⟩
  | cons pair rest ih =>
    obtain ⟨y, source⟩ := pair
    rw [placeRows, placeRows]
    dsimp only
    have hnext : Alike g (p.columns.length * 4) true
        (if last = some source then s else convertRow k g job p (source - index * sliceHeight) s)
        (if last = some source then s' else convertRow k g job p (source - index * sliceHeight) s') := by
      split
      · next hsame =>
        rw [hsame] at h
        exact h
      · exact convertRow_alike h hcolumns _
    split
    · obtain ⟨hstores, hok, hsized⟩ := @ih _ _ (some source) hnext
      refine ⟨?_, hok, hsized⟩
      rw [hnext.placedRow rfl, hstores]
    · exact ⟨rfl, rfl, hnext.left⟩

end SliceLemmas

open SliceLemmas

/-- The columns of a placement are inside the picture. -/
def Job.ColumnsInside (g : Geometry) (job : Job) : Prop := ∀ p, job.placement = some p → ∀ c ∈ p.columns, c < g.width

theorem decodeSlice_alike {k : Kernels} {g : Geometry} {job : Job} {index : Nat} {slice : Slice} {s s' : Scratch}
    (hjob : job.ColumnsInside g) (hs : s.Sized g job.placedBytes) (hs' : s'.Sized g job.placedBytes) :
    (decodeSlice k g job index slice s).1 = (decodeSlice k g job index slice s').1 ∧
      (decodeSlice k g job index slice s).2.2 = (decodeSlice k g job index slice s').2.2 ∧
      (decodeSlice k g job index slice s).2.1.Sized g job.placedBytes := by
  unfold decodeSlice
  rcases (@decodePlanes_alone k _ job slice) hs hs' with ⟨t, t', h, h', hsized⟩ | ⟨t, t', h, h', halike⟩
  · rw [h, h']
    exact ⟨rfl, rfl, hsized⟩
  · rw [h, h']
    dsimp only
    cases hplacement : job.placement with
    | some p =>
      have hbytes : job.placedBytes = p.columns.length * 4 := by
        rw [Job.placedBytes, hplacement]
        rfl
      rw [hbytes] at halike ⊢
      exact (@placeRows_alone _ _ _ _ _ _ (hjob p hplacement) _ (placedPairs p slice.placed) none) halike
    | none =>
      dsimp only
      rw [halike.luma, halike.blue, halike.red]
      exact ⟨rfl, rfl, halike.left⟩

theorem Scratch.new_sized (g : Geometry) (n : Nat) : (Scratch.new g n).Sized g n := by
  refine ⟨?_, ?_, ?_, List.length_replicate, Nat.le_of_eq List.length_replicate.symm⟩
  · exact List.length_replicate.trans (Nat.mul_comm _ _)
  · exact List.length_replicate.trans (Nat.mul_comm _ _)
  · exact List.length_replicate.trans (Nat.mul_comm _ _)

/-- What a slice stores and whether it fails does not depend on the scratch. -/
theorem decodeSlice_alone {k : Kernels} {g : Geometry} {job : Job} {index : Nat} {slice : Slice} {s : Scratch}
    (hjob : job.ColumnsInside g) (hs : s.Sized g job.placedBytes) :
    (decodeSlice k g job index slice s).1 = (sliceAlone k g job index slice).1 ∧
      (decodeSlice k g job index slice s).2.2 = (sliceAlone k g job index slice).2 ∧
      (decodeSlice k g job index slice s).2.1.Sized g job.placedBytes :=
  decodeSlice_alike hjob hs (Scratch.new_sized g job.placedBytes)

end OmtClient.Vmx
