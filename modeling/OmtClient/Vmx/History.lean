import OmtClient.Vmx.Claim
import OmtClient.Vmx.Load

/-!
# A decoder from frame to frame

`Decoder` of `crates/omt-vmx/src/lib.rs` with all that it uses again: the streams of the slices,
their placed rows, the workers' scratch and the capacity of its row buffers. A history is any
sequence of `load` and `decode_*` calls.

1. `load_fresh`: what a successful `load` leaves to be read is what it leaves in a new decoder.
2. `decode_fresh`: without a loaded frame a call is refused, and one that succeeds writes what
   a new decoder writes that has loaded that frame only.
-/

namespace OmtClient.Vmx

open OmtClient.Lib Claim

def maxWorkers : Nat := 8

/-- `Vec::resize` with zeros. -/
def resize (n : Nat) (v : Bytes) : Bytes := v.take n ++ List.replicate (n - v.length) 0

/-- The bytes of a placed row. -/
def Request.rowBytes : Request → Nat
  | .placed _ _ p => p.columns.length * 4
  | _ => 0

/-- A decoder: what `load` leaves, the placed rows of the slices, `placed_capacity` and the
scratches of the workers. -/
structure Machine (g : Geometry) where
  decoder : Decoder g
  placed : List (Nat × Nat)
  capacity : Nat
  scratches : List Scratch

/-- `Decoder::new`. -/
def Machine.new (g : Geometry) (workers : Nat) : Machine g where
  decoder := .new g
  placed := List.replicate g.sliceCount (0, 0)
  capacity := 0
  scratches := List.replicate (min workers g.sliceCount) (Scratch.new g 0)

variable {g : Geometry}

/-- The row buffers made long enough, of which `grown` can be. -/
def Machine.growRows (m : Machine g) (rowBytes grown : Nat) : Machine g :=
  if m.capacity < rowBytes then
    { m with
      capacity := if m.scratches.length ≤ grown then rowBytes else m.capacity
      scratches := (m.scratches.take grown).map (fun s =>
        { s with placedRow := resize rowBytes s.placedRow }) ++ m.scratches.drop grown }
  else m

/-- A call up to `run`. -/
def Machine.ready (color : ColorSpace) (m : Machine g) (r : Request) (grown : Nat) :
    Except Status (Frame g) × Machine g :=
  if m.decoder.loaded = false then (.error .empty, m)
  else
    let alloc := decide (m.scratches.length ≤ grown)
    match prepare g color m.decoder.toLoaded m.placed m.capacity alloc r with
    | .error e => (.error e, if e = .workerFailure then m.growRows r.rowBytes grown else m)
    | .ok f => (.ok f, { m.growRows r.rowBytes grown with placed := f.slices.map (·.placed) })

/-- A `decode_*` call with the output it is given. -/
def Machine.decode (k : Kernels) (color : ColorSpace) (m : Machine g) (r : Request)
    (memory : Memory) (grown : Nat) (schedule : List Nat) :
    Except Status Unit × Memory × Machine g :=
  match m.ready color r grown with
  | (.error e, m) => (.error e, memory, m)
  | (.ok f, m) =>
    let s := Claim.run k g f (State.init memory m.scratches) schedule
    (s.result, s.memory, { m with scratches := s.workers.map (·.scratch) })

section

variable (k : Kernels) (color : ColorSpace)

/-- Behind the schedule `run` returns: every worker has finished. -/
def Machine.returns (m : Machine g) (r : Request) (memory : Memory) (grown : Nat)
    (schedule : List Nat) : Bool :=
  match m.ready color r grown with
  | (.error _, _) => true
  | (.ok f, m) => (Claim.run k g f (State.init memory m.scratches) schedule).workers.all
      (·.phase == .finished)

/-- The calls on a decoder, with the frame that is loaded: the last one, if that was taken. -/
inductive History : Option Bytes → Machine g → Prop
  | new {workers : Nat} (hworkers : 1 ≤ workers ∧ workers ≤ maxWorkers) :
      History none (Machine.new g workers)
  | load {last : Option Bytes} {m : Machine g} (h : History last m) (input : Bytes)
      (alloc : Nat → Bool) (hok : (m.decoder.load input alloc).1 = .ok ()) :
      History (some input) { m with decoder := (m.decoder.load input alloc).2 }
  | refused {last : Option Bytes} {m : Machine g} (h : History last m) (input : Bytes)
      (alloc : Nat → Bool) (hno : (m.decoder.load input alloc).1 ≠ .ok ()) :
      History none { m with decoder := (m.decoder.load input alloc).2 }
  | decode {last : Option Bytes} {m : Machine g} (h : History last m) (r : Request)
      (memory : Memory) (grown : Nat) (schedule : List Nat) :
      History last (m.decode k color r memory grown schedule).2.2

/-- A new decoder that has loaded this. -/
def freshly (g : Geometry) (input : Bytes) : Decoder g := ((Decoder.new g).load input fun _ => true).2

/-- What a new decoder that has loaded a frame writes to a buffer, slice by slice. -/
def written (g : Geometry) (input : Bytes) (r : Request) (buffer : Nat) : List (Write Byte) :=
  match prepare g color (freshly g input).toLoaded [] 0 true r with
  | .error _ => []
  | .ok f => (List.range f.slices.length).flatMap fun j => writesOn buffer (storesOf k g f j)

end

/-- Decoders with the same frame to read. -/
structure Decoder.Alike (d d' : Decoder g) : Prop where
  dc : d.dc.map (·.visible) = d'.dc.map (·.visible)
  ac : d.ac.map (·.visible) = d'.ac.map (·.visible)
  matrix : d.matrix = d'.matrix
  dcShift : d.dcShift = d'.dcShift

/-- What is known of a decoder between two calls. -/
structure Machine.Sound (last : Option Bytes) (m : Machine g) : Prop where
  loaded : m.decoder.loaded = last.isSome
  frame : ∀ input, last = some input → m.decoder.Alike (freshly g input)
  workers : m.scratches ≠ []
  sized : ∀ s ∈ m.scratches, s.Sized g m.capacity

namespace HistoryLemmas

open LoadLemmas FrameLemmas SliceLemmas ClaimLemmas

variable {k : Kernels} {color : ColorSpace} {input : Bytes} {alloc : Nat → Bool} {f f' : Frame g}
  {l l' : Loaded g} {job : Job} {m : Machine g} {r : Request} {n grown : Nat}

/-! ### Loading -/

theorem stream_alloc {s s' : Stream} {data : Bytes} {b : Bool} (h : s.load data b = (true, s')) :
    s.load data true = (true, s') := by
  unfold Stream.load at h ⊢
  split at h
  · cases h
  next hroom =>
  rw [if_neg hroom]
  dsimp only at h ⊢
  split at h
  · cases h
  · rw [if_neg fun hno => Bool.noConfusion hno.2]
    exact h

theorem pass_alloc {next : Nat → Except Status (Bytes × Nat)} {i cursor cursor' : Nat}
    {streams streams' : List Stream} (h : loadPass alloc next i streams cursor = (streams', .ok cursor')) :
    loadPass (fun _ => true) next i streams cursor = (streams', .ok cursor') := by
  induction streams generalizing i cursor streams' with
  | nil => exact h
  | cons s rest ih =>
    rw [loadPass] at h ⊢
    cases hnext : next cursor with
    | error e =>
      rw [hnext] at h
      cases h
    | ok taken =>
      rw [hnext] at h
      dsimp only at h ⊢
      split at h
      · cases h
      next s' hload =>
      rw [stream_alloc hload]
      cases hrest : loadPass alloc next (i + 1) rest taken.2 with
      | mk rest' c =>
        rw [hrest] at h
        obtain ⟨rfl, rfl⟩ := Prod.mk.inj h
        rw [ih hrest]

theorem load_alloc {d : Decoder g} (h : (d.load input alloc).1 = .ok ()) :
    d.load input alloc = d.load input fun _ => true := by
  unfold Decoder.load at h ⊢
  cases hhead : loadHead g.sliceCount input with
  | error e => rfl
  | ok head =>
    rw [hhead] at h
    dsimp only at h ⊢
    cases hdc : (loadPass alloc (takeStream input) 0 d.dc head.length).2 with
    | error e =>
      rw [hdc] at h
      cases h
    | ok cursor =>
      rw [hdc] at h
      dsimp only at h
      cases hac : (loadPass alloc (takeAc input cursor) g.sliceCount d.ac cursor).2 with
      | error e =>
        rw [hac] at h
        cases h
      | ok after =>
        have hdcPass := pass_alloc (Prod.ext rfl hdc)
        have hacPass := pass_alloc (Prod.ext rfl hac)
        simp only [hac, hdcPass, hacPass]

theorem refused_unloaded {d : Decoder g} (h : (d.load input alloc).1 ≠ .ok ()) :
    (d.load input alloc).2.loaded = false := by
  unfold Decoder.load at h ⊢
  dsimp only at h ⊢
  split
  · rfl
  · split
    · rfl
    · split
      · rfl
      · next hhead _ _ hdc _ _ hac =>
        rw [hhead] at h
        dsimp only at h
        rw [hdc] at h
        dsimp only at h
        rw [hac] at h
        exact absurd rfl h

/-! ### A slice -/

/-- What a job reads of a slice. -/
def seen (job : Job) (s : Slice) : Bytes × Bytes × (Nat × Nat) :=
  (s.dc.visible, s.ac.visible, if job.placement.isSome then s.placed else (0, 0))

theorem decodeSlice_seen {slice slice' : Slice} (h : seen job slice = seen job slice') (j : Nat)
    (s : Scratch) : decodeSlice k g job j slice s = decodeSlice k g job j slice' s := by
  obtain ⟨hdc, hac, hplaced⟩ := (Prod.mk.injEq .. ▸ h : _ ∧ _ = _).imp_right Prod.mk.inj
  have hplanes : decodePlanes k g job slice s = decodePlanes k g job slice' s := by
    unfold decodePlanes
    rw [hdc, hac]
  unfold decodeSlice
  rw [hplanes]
  cases hplacement : job.placement with
  | none => rfl
  | some p =>
    rw [hplacement] at hplaced
    rw [show slice.placed = slice'.placed from hplaced]

theorem storesOf_seen (hjob : f.job = f'.job)
    (h : f.slices.map (seen f.job) = f'.slices.map (seen f.job)) (j : Nat) :
    storesOf k g f j = storesOf k g f' j := by
  have hj := congrArg (·[j]?) h
  simp only [List.getElem?_map] at hj
  unfold storesOf
  cases hf : f.slices[j]? with
  | none =>
    rw [hf] at hj
    rw [Option.map_eq_none_iff.mp hj.symm, Option.elim_none, Option.elim_none]
  | some slice =>
    rw [hf] at hj
    obtain ⟨slice', hf', hseen⟩ := Option.map_eq_some_iff.mp hj.symm
    rw [hf', Option.elim_some, Option.elim_some, sliceAlone, sliceAlone, ← hjob, decodeSlice_seen hseen]

/-! ### The checks of a call -/

/-- What is read of the streams of a slice. -/
def bytesOf (s : Stream × Stream) : Bytes × Bytes := (s.1.visible, s.2.visible)

theorem bytesOf_zip (dc ac : List Stream) :
    (dc.zip ac).map bytesOf = (dc.map (·.visible)).zip (ac.map (·.visible)) := by
  rw [List.zip_map]
  rfl

/-- The slices of two frames, whose placed rows are the same if any are used. -/
theorem slices_seen (h : l.streams.map bytesOf = l'.streams.map bytesOf) {a b : List (Nat × Nat)}
    (hplaced : job.placement.isSome = true → a = b) (n : Nat) :
    let slices := fun (l : Loaded g) (ranges : List (Nat × Nat)) => (List.range n).map fun i =>
      let streams := l.streams.getD i (Stream.new 0, Stream.new 0)
      (⟨streams.1, streams.2, ranges.getD i (0, 0)⟩ : Slice)
    (slices l a).map (seen job) = (slices l' b).map (seen job) := by
  intro slices
  rw [List.map_map, List.map_map]
  refine List.map_congr_left fun i _ => ?_
  have hi := congrArg (fun s => s.getD i (bytesOf (Stream.new 0, Stream.new 0))) h
  simp only [List.getD_eq_getElem?_getD, List.getElem?_map, Option.getD_map] at hi
  obtain ⟨hdc, hac⟩ := Prod.mk.inj hi
  refine Prod.ext hdc (Prod.ext hac ?_)
  cases hplacement : job.placement.isSome with
  | false => simp [seen, hplacement]
  | true =>
    rw [hplaced hplacement]
    rfl

theorem prepare_seen {stale : List (Nat × Nat)} {capacity : Nat} {b : Bool}
    (hstreams : l.streams.map bytesOf = l'.streams.map bytesOf) (hmatrix : l.matrix = l'.matrix)
    (hshift : l.dcShift = l'.dcShift) (h : prepare g color l stale capacity b r = .ok f) :
    ∃ f', prepare g color l' [] 0 true r = .ok f' ∧ f.job = f'.job ∧
      f.slices.map (seen f.job) = f'.slices.map (seen f.job) := by
  unfold prepare at h ⊢
  extract_lets job slices at h
  extract_lets job' slices'
  have hjob : job' = job := by
    unfold job job'
    rw [hmatrix, hshift]
  rw [hjob]
  have hsame : ∀ {j : Job} (a b : List (Nat × Nat)), (j.placement.isSome = true → a = b) →
      (slices a).map (seen j) = (slices' b).map (seen j) :=
    fun a b hplaced => slices_seen hstreams hplaced g.sliceCount
  cases r with
  | uyvy len stride | bgrx len stride | yuv422p luma blue red =>
    dsimp only at h ⊢
    split at h
    · next hfit =>
      cases h
      rw [if_pos hfit]
      exact ⟨_, rfl, rfl, hsame _ _ fun hsome => Bool.noConfusion hsome⟩
    · cases h
  | placed len stride p =>
    dsimp only at h ⊢
    split at h
    · cases h
    · next ranges capacity' hplacement =>
      cases h
      obtain ⟨hcheck, hranges⟩ := preparePlacement_inv hplacement
      rw [preparePlacement_ok 0 hcheck]
      exact ⟨_, rfl, rfl, hsame _ _ fun _ => hranges⟩

/-- A call that passes its checks has the room for its placed rows. -/
theorem prepare_room {stale : List (Nat × Nat)} {capacity : Nat} {b : Bool}
    (h : prepare g color l stale capacity b r = .ok f) :
    f.job.placedBytes = r.rowBytes ∧ (capacity < r.rowBytes → b = true) := by
  unfold prepare at h
  extract_lets job slices at h
  cases r with
  | uyvy len stride | bgrx len stride | yuv422p luma blue red =>
    dsimp only at h
    split at h
    · cases h
      exact ⟨rfl, fun hlt => absurd hlt (Nat.not_lt_zero _)⟩
    · cases h
  | placed len stride p =>
    dsimp only at h
    split at h
    · cases h
    · next ranges capacity' hplacement =>
      cases h
      refine ⟨rfl, fun hlt => Bool.not_eq_false _ ▸ fun hno => ?_⟩
      unfold Geometry.preparePlacement at hplacement
      rw [(preparePlacement_inv hplacement).1] at hplacement
      rw [if_pos ⟨hlt, hno⟩] at hplacement
      cases hplacement

/-! ### The row buffers -/

theorem overwrite_le (buffer data : Bytes) : buffer.length ≤ (overwrite buffer 0 data).length := by
  simp only [overwrite, List.length_append, List.length_take, List.length_drop]
  omega

theorem placeRows_rows {p : Placement} {j : Nat} (pairs : List (Nat × Nat)) (last : Option Nat)
    (s : Scratch) : s.placedRow.length ≤ (placeRows k g job p j pairs last s).2.1.placedRow.length := by
  induction pairs generalizing last s with
  | nil => exact Nat.le_refl _
  | cons pair rest ih =>
    rw [placeRows]
    have hnext : s.placedRow.length ≤ (if last = some pair.2 then s
        else convertRow k g job p (pair.2 - j * sliceHeight) s).placedRow.length := by
      split
      · exact Nat.le_refl _
      · exact overwrite_le _ _
    split
    · exact Nat.le_trans hnext (ih _ _)
    · exact hnext

theorem decodeSlice_rows (j : Nat) (slice : Slice) (s : Scratch) :
    s.placedRow.length ≤ (decodeSlice k g job j slice s).2.1.placedRow.length := by
  have hplanes : (decodePlanes k g job slice s).1.placedRow = s.placedRow := by
    unfold decodePlanes
    dsimp only
    split
    · rfl
    · split
      · rfl
      · split
        · rfl
        · rfl
  unfold decodeSlice
  dsimp only
  rw [← hplanes]
  split
  · exact Nat.le_refl _
  · split
    · exact placeRows_rows _ _ _
    · exact Nat.le_refl _

theorem workerStep_rows (s : State) (w : Worker) :
    w.scratch.placedRow.length ≤ (workerStep k g f s w).2.scratch.placedRow.length := by
  unfold workerStep
  split
  · dsimp only
    split
    · exact Nat.le_refl _
    · exact decodeSlice_rows _ _ _
  · exact Nat.le_refl _
  · exact Nat.le_refl _
  · exact Nat.le_refl _
  · exact Nat.le_refl _
  · exact Nat.le_refl _

/-- No run of the workers shortens a row buffer. -/
theorem run_rows {s : State} (h : ∀ w ∈ s.workers, n ≤ w.scratch.placedRow.length)
    (schedule : List Nat) :
    ∀ w ∈ (Claim.run k g f s schedule).workers, n ≤ w.scratch.placedRow.length := by
  induction schedule generalizing s with
  | nil => exact h
  | cons i rest ih =>
    refine ih fun v hv => ?_
    unfold step at hv
    cases hi : s.workers[i]? with
    | none =>
      rw [hi] at hv
      exact h v hv
    | some w =>
      rw [hi] at hv
      rcases List.mem_or_eq_of_mem_set hv with hv | rfl
      · exact h v hv
      · exact Nat.le_trans (h w (List.mem_of_getElem? hi)) (workerStep_rows _ _)

theorem grow_sized (h : ∀ s ∈ m.scratches, s.Sized g m.capacity) (n grown : Nat) :
    ∀ s ∈ (m.growRows n grown).scratches, s.Sized g (m.growRows n grown).capacity := by
  unfold Machine.growRows
  split
  · next hlt =>
    intro s hs
    rcases List.mem_append.mp hs with hs | hs
    · obtain ⟨t, ht, rfl⟩ := List.mem_map.mp hs
      have hsized := h t (List.mem_of_mem_take ht)
      have hlength : (resize n t.placedRow).length = n := by
        simp only [resize, List.length_append, List.length_take, List.length_replicate]
        omega
      refine ⟨hsized.luma, hsized.blue, hsized.red, hsized.sourceRow, ?_⟩
      rw [hlength]
      split
      · exact Nat.le_refl _
      · exact Nat.le_of_lt hlt
    · rw [if_neg]
      · exact h s (List.mem_of_mem_drop hs)
      · intro hall
        rw [List.drop_eq_nil_of_le hall] at hs
        cases hs
  · exact h

theorem grow_capacity (h : m.capacity < n → m.scratches.length ≤ grown) :
    n ≤ (m.growRows n grown).capacity := by
  unfold Machine.growRows
  split
  · next hlt =>
    rw [if_pos (h hlt)]
  · next hnot => exact Nat.not_lt.mp hnot

theorem grow_workers (h : m.scratches ≠ []) : (m.growRows n grown).scratches ≠ [] := by
  rw [← List.length_pos_iff] at h ⊢
  unfold Machine.growRows
  split
  · simp only [List.length_append, List.length_map, List.length_take, List.length_drop]
    omega
  · exact h

theorem grow_decoder : (m.growRows n grown).decoder = m.decoder := by
  unfold Machine.growRows
  split
  · rfl
  · rfl

end HistoryLemmas

open HistoryLemmas LoadLemmas FrameLemmas ClaimLemmas

/-- What a successful `load` leaves to be read does not depend on what was loaded before. -/
theorem load_fresh {d : Decoder g} {input : Bytes} {alloc : Nat → Bool}
    (h : (d.load input alloc).1 = .ok ()) :
    (d.load input alloc).2.Alike (freshly g input) ∧ (d.load input alloc).2.loaded = true := by
  have heq := load_alloc h
  rw [heq] at h ⊢
  obtain ⟨hlength, shift, quality, dcs, acs, henvelope⟩ := load_ok d h
  have hd := (load_envelope d hlength henvelope).2
  have hnew := (load_envelope (Decoder.new g) hlength henvelope).2
  exact ⟨⟨hd.dc.trans hnew.dc.symm, hd.ac.trans hnew.ac.symm, hd.matrix.trans hnew.matrix.symm,
    hd.dcShift.trans hnew.dcShift.symm⟩, hd.loaded⟩

section

variable {k : Kernels} {color : ColorSpace} {last : Option Bytes} {m : Machine g}

/-- The checks and the row buffers of a call. -/
theorem ready_sound (h : m.Sound last) (r : Request) (grown : Nat) :
    (m.ready color r grown).2.Sound last ∧ ∀ f, (m.ready color r grown).1 = .ok f →
      f.job.placedBytes ≤ (m.ready color r grown).2.capacity ∧
      ∃ stale capacity b, prepare g color m.decoder.toLoaded stale capacity b r = .ok f := by
  have hdecoder := @grow_decoder _ m r.rowBytes grown
  have hgrown : (m.growRows r.rowBytes grown).Sound last :=
    ⟨by rw [hdecoder]; exact h.loaded, by rw [hdecoder]; exact h.frame, grow_workers h.workers,
      grow_sized h.sized _ _⟩
  unfold Machine.ready
  split
  · exact ⟨h, nofun⟩
  dsimp only
  split
  · refine ⟨?_, nofun⟩
    split
    · exact hgrown
    · exact h
  · next f hprepare =>
    refine ⟨⟨hgrown.loaded, hgrown.frame, hgrown.workers, hgrown.sized⟩, fun f' hf' => ?_⟩
    obtain rfl := Except.ok.inj hf'
    obtain ⟨hbytes, hroom⟩ := prepare_room hprepare
    refine ⟨?_, _, _, _, hprepare⟩
    rw [hbytes]
    exact grow_capacity fun hlt => of_decide_eq_true (hroom hlt)

theorem sized_for (h : m.Sound last) {n : Nat} (hn : n ≤ m.capacity) :
    ∀ s ∈ m.scratches, s.Sized g n := by
  intro s hs
  have hsized := h.sized s hs
  exact ⟨hsized.luma, hsized.blue, hsized.red, hsized.sourceRow, Nat.le_trans hn hsized.placedRow⟩

theorem decode_sound (h : m.Sound last) (r : Request) (memory : Memory) (grown : Nat)
    (schedule : List Nat) : (m.decode k color r memory grown schedule).2.2.Sound last := by
  obtain ⟨hsound, hready⟩ := @ready_sound _ color _ _ h r grown
  unfold Machine.decode
  split
  · next m' heq =>
    rw [heq] at hsound
    exact hsound
  · next f m' heq =>
    rw [heq] at hsound hready
    obtain ⟨hbytes, _, _, _, hprepare⟩ := hready f rfl
    obtain ⟨hinv, hsome⟩ := reached (k := k) (prepared_of_prepare hprepare).1 memory
      (sized_for hsound hbytes) hsound.workers schedule
    have hrows := @run_rows _ k f m'.capacity (State.init memory m'.scratches) (fun w hw => by
      obtain ⟨s, hs, rfl⟩ := List.mem_map.mp hw
      exact (hsound.sized s hs).placedRow) schedule
    refine ⟨hsound.loaded, hsound.frame, fun hnil => hsome (List.map_eq_nil_iff.mp hnil), ?_⟩
    intro s hs
    obtain ⟨w, hw, rfl⟩ := List.mem_map.mp hs
    have hw' := (hinv.busy w hw).sized
    exact ⟨hw'.luma, hw'.blue, hw'.red, hw'.sourceRow, hrows w hw⟩

/-- What holds of a decoder after any calls. -/
theorem history_sound (h : History k color last m) : m.Sound last := by
  induction h with
  | new hworkers =>
    refine ⟨rfl, fun _ heq => (by cases heq), ?_, fun s hs => ?_⟩
    · rw [← List.length_pos_iff, Machine.new, List.length_replicate]
      exact Nat.lt_min.mpr ⟨hworkers.1, sliceCount_pos⟩
    · rw [List.eq_of_mem_replicate hs]
      exact Scratch.new_sized g 0
  | load _ input alloc hok ih =>
    obtain ⟨halike, hloaded⟩ := load_fresh hok
    refine ⟨hloaded, fun input' heq => ?_, ih.workers, ih.sized⟩
    obtain rfl := Option.some.inj heq
    exact halike
  | refused _ input alloc hno ih =>
    exact ⟨refused_unloaded hno, fun _ heq => (by cases heq), ih.workers, ih.sized⟩
  | decode _ r memory grown schedule ih => exact decode_sound ih r memory grown schedule

/-- There is an order of the workers behind which a call returns. -/
theorem returns_some (h : m.Sound last) (r : Request) (memory : Memory) (grown : Nat) :
    ∃ schedule, m.returns k color r memory grown schedule = true := by
  obtain ⟨hsound, hready⟩ := @ready_sound _ color _ _ h r grown
  unfold Machine.returns
  split
  · exact ⟨[], rfl⟩
  next f m' heq =>
  rw [heq] at hsound hready
  obtain ⟨hbytes, _, _, _, hprepare⟩ := hready f rfl
  obtain ⟨hf, -⟩ := prepared_of_prepare hprepare
  have hinv := (reached (k := k) hf memory (sized_for hsound hbytes) hsound.workers []).1
  -- by the steps that are left: whoever has not finished makes one of them
  suffices hend : ∀ n s, Inv k g f memory s → s.owes k g f = n →
      ∃ schedule, (Claim.run k g f s schedule).workers.all (·.phase == .finished) = true from
    hend _ _ hinv rfl
  intro n
  induction n using Nat.strong_induction_on with
  | _ n ih =>
    intro s hs howes
    by_cases hall : s.workers.all (·.phase == .finished) = true
    · exact ⟨[], hall⟩
    obtain ⟨w, hw, hbusy⟩ : ∃ w ∈ s.workers, w.phase ≠ .finished := by
      simpa [List.all_eq_true] using hall
    obtain ⟨i, hi⟩ := List.mem_iff_getElem?.mp hw
    have hdescends := step_descends hf hs hi hbusy
    obtain ⟨schedule, hschedule⟩ := ih _ (howes ▸ hdescends) _ (step_inv hf hs i) rfl
    exact ⟨i :: schedule, hschedule⟩

/-- A call that returns succeeds when every slice is good. -/
theorem decode_ok (h : m.Sound last) {r : Request} {memory : Memory} {grown : Nat}
    {schedule : List Nat} (hreturns : m.returns k color r memory grown schedule = true)
    (hgood : (m.ready color r grown).1.toOption.any fun f =>
      (List.range f.slices.length).all (good k g f)) :
    (m.decode k color r memory grown schedule).1 = .ok () := by
  obtain ⟨hsound, hready⟩ := @ready_sound _ color _ _ h r grown
  unfold Machine.decode
  unfold Machine.returns at hreturns
  split
  · next heq =>
    rw [heq] at hgood
    cases hgood
  next f m' heq =>
  rw [heq] at hsound hready hreturns hgood
  obtain ⟨hbytes, _, _, _, hprepare⟩ := hready f rfl
  obtain ⟨hinv, hsome⟩ := reached (k := k) (prepared_of_prepare hprepare).1 memory
    (sized_for hsound hbytes) hsound.workers schedule
  refine if_neg fun hfailed => ?_
  obtain ⟨j, hj, hbad⟩ := (failed_iff hinv hsome fun w hw =>
    eq_of_beq (List.all_eq_true.mp hreturns w hw)).mp hfailed
  exact Bool.false_ne_true (hbad.symm.trans (List.all_eq_true.mp hgood j (List.mem_range.mpr hj)))

/-- What the frame of a call stores is what that of a new decoder stores. -/
theorem written_eq {d : Decoder g} {input : Bytes} (h : d.Alike (freshly g input)) {r : Request}
    {stale : List (Nat × Nat)} {capacity : Nat} {b : Bool} {f : Frame g}
    (hprepare : prepare g color d.toLoaded stale capacity b r = .ok f) (buffer : Nat) :
    written k color g input r buffer =
      (List.range f.slices.length).flatMap fun j => writesOn buffer (storesOf k g f j) := by
  have hstreams : d.toLoaded.streams.map bytesOf = (freshly g input).toLoaded.streams.map bytesOf := by
    rw [Decoder.toLoaded, Decoder.toLoaded, bytesOf_zip, bytesOf_zip, h.dc, h.ac]
  obtain ⟨f', hprepare', hjob, hseen⟩ := prepare_seen hstreams h.matrix h.dcShift hprepare
  have hlength : f'.slices.length = f.slices.length :=
    (prepared_of_prepare hprepare').2.trans (prepared_of_prepare hprepare).2.symm
  rw [written, hprepare']
  dsimp only
  rw [hlength]
  exact congrArg (List.flatMap · _) (funext fun j => by rw [storesOf_seen hjob hseen])

end

/-- **Nothing is left of an earlier frame.** After any calls: while no frame is loaded a call is
refused as empty and changes nothing; and a call that succeeds, however the workers claim the
slices, writes what a new decoder writes that has loaded the same frame. -/
theorem decode_fresh {k : Kernels} {color : ColorSpace} {last : Option Bytes} {m : Machine g}
    (h : History k color last m) (r : Request) (memory : Memory) (grown : Nat) (schedule : List Nat) :
    (last = none → m.decode k color r memory grown schedule = (.error .empty, memory, m)) ∧
    ((m.decode k color r memory grown schedule).1 = .ok () →
      m.returns k color r memory grown schedule = true →
      ∃ input, last = some input ∧ ∀ b, (m.decode k color r memory grown schedule).2.1 b =
        applyAll (memory b) (written k color g input r b)) := by
  have hsound := history_sound h
  constructor
  · rintro rfl
    have hready : m.ready color r grown = (.error .empty, m) := if_pos hsound.loaded
    rw [Machine.decode, hready]
  intro hok hreturns
  obtain ⟨hsound', hready⟩ := @ready_sound _ color _ _ hsound r grown
  unfold Machine.decode at hok ⊢
  split at hok
  · cases hok
  next f m' heq =>
  rw [heq] at hsound' hready
  obtain ⟨hbytes, _, _, _, hprepare⟩ := hready f rfl
  rw [Machine.returns, heq] at hreturns
  have hfinished := fun w hw => eq_of_beq (List.all_eq_true.mp hreturns w hw)
  obtain ⟨hf, -⟩ := prepared_of_prepare hprepare
  obtain ⟨hinv, hsome⟩ := reached (k := k) hf memory (sized_for hsound' hbytes) hsound'.workers schedule
  have hfailed : (Claim.run k g f (State.init memory m'.scratches) schedule).failed = false := by
    dsimp only at hok
    unfold State.result at hok
    split at hok
    · cases hok
    · next hno => exact Bool.eq_false_iff.mpr hno
  cases hlast : last with
  | none =>
    have hrefused : m.ready color r grown = (.error .empty, m) := 
      if_pos (hsound.loaded.trans (by rw [hlast]; rfl))
    cases heq.symm.trans hrefused
  | some input =>
    refine ⟨input, rfl, fun b => ?_⟩
    rw [written_eq (hsound.frame input hlast) hprepare]
    exact memory_eq hf hinv (fun j hj => (finished_settled hinv hsome hfinished hfailed hj).2.1) b

/-- A frame of two slices. -/
def twoInput (dc : Byte) : Bytes :=
  let dcStream := leBytes 4 8 ++ dcPayload dc
  let acStream := leBytes 4 12 ++ acPayload
  [formatProgressive, 50, 2] ++ (dcStream ++ dcStream) ++ (acStream ++ acStream)

/-- A decoder of two workers that has decoded one frame, refused one and loaded another. -/
def reused : Machine twoSlices :=
  let m := Machine.new twoSlices 2
  let m := { m with decoder := (m.decoder.load (twoInput 0xA5) fun _ => true).2 }
  let m := (m.decode portable .bt709 (.uyvy 1024 32) (fun _ => List.replicate 1024 0) 2 [0, 1, 0]).2.2
  let m := { m with decoder := (m.decoder.load [] fun _ => true).2 }
  { m with decoder := (m.decoder.load (twoInput 0x5A) fun _ => true).2 }

theorem decode_fresh_reused : ∃ schedule,
    let result := reused.decode portable .bt709 (.bgrx 2048 64) (fun _ => List.replicate 2048 7) 2 schedule
    result.1 = .ok () ∧ ∀ b, result.2.1 b = applyAll (List.replicate 2048 7)
      (written portable .bt709 twoSlices (twoInput 0x5A) (.bgrx 2048 64) b) := by
  have h : History portable .bt709 (some (twoInput 0x5A)) reused :=
    .load (.refused (.decode (.load (.new ⟨by decide, by decide⟩) _ _ (by decide +kernel)) _ _ _ _)
      _ _ (by decide +kernel)) _ _ (by decide +kernel)
  obtain ⟨schedule, hreturns⟩ := @returns_some _ portable .bt709 _ _ (history_sound h)
    (.bgrx 2048 64) (fun _ => List.replicate 2048 7) 2
  have hok := decode_ok (history_sound h) hreturns (by decide +kernel)
  obtain ⟨input, hinput, hbytes⟩ := (decode_fresh h _ _ _ _).2 hok hreturns
  obtain rfl := Option.some.inj hinput
  exact ⟨schedule, hok, hbytes⟩

end OmtClient.Vmx
