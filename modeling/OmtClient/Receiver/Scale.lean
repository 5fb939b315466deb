import OmtClient.Vmx.Decode

/-!
# Scaling to a display mode

`choose_mode` of `crates/omt-receiver/src/video.rs`, and `Placement::fit` and `Scaler` of
`crates/omt-receiver/src/scale.rs`, against the checks of the decoder.

The refresh rates are floating-point numbers, of which only the comparisons that `best_rate`
makes matter: they are a parameter (`Rates`).

1. `fitted_placement_accepted`: whatever mode was chosen, the placement fitted into it passes.
2. `placement_laws`: what a fitted placement is and what its tables sample, at every size.
-/

namespace OmtClient.Receiver.Scale

open OmtClient.Vmx

/-! ## Modes -/

/-- What `best_rate` asks of the rates. -/
structure Rates (R : Type) where
  isPositive : R → Bool
  /-- Below `DOUBLED_RATE_BELOW`. -/
  isLow : R → Bool
  double : R → R
  nan : R
  round : R → R
  sixty : R
  /-- Within `RATE_TOLERANCE`. -/
  near : R → R → Bool
  faster : R → R → Bool

structure ModeShape (R : Type) where
  width : Nat
  height : Nat
  refresh : R
  interlaced : Bool

structure ModeChoice where
  index : Nat
  scaled : Bool
  deriving DecidableEq, Repr

section

variable {R : Type} (rates : Rates R)

def usable (s : ModeShape R) : Bool :=
  !s.interlaced && rates.isPositive s.refresh && decide (s.width ≤ maxWidth) && decide (s.height ≤ maxHeight)

/-- A candidate: a mode with its index. -/
abbrev Candidate (R : Type) := Nat × ModeShape R

/-- The fastest of the candidates, the first of equals. -/
def fastest : List (Candidate R) → Option (Candidate R)
  | [] => none
  | first :: rest => some (rest.foldl (fun best c => if rates.faster c.2.refresh best.2.refresh then c else best) first)

def bestRate (candidates : List (Candidate R)) (requested : R) : Option (Candidate R) :=
  let doubled := if rates.isPositive requested && rates.isLow requested then rates.double requested else rates.nan
  let expected := [doubled, requested, rates.round requested, rates.sixty]
  (expected.findSome? fun e => candidates.find? fun c => rates.near c.2.refresh e).or (fastest rates candidates)

def area (c : Candidate R) : Nat := c.2.width * c.2.height

/-- `max_by_key`, which keeps the last of equals. -/
def largest : List (Candidate R) → Option (Candidate R)
  | [] => none
  | first :: rest => some (rest.foldl (fun best c => if area best ≤ area c then c else best) first)

/-- `min_by_key`, which keeps the first. -/
def smallest : List (Candidate R) → Option (Candidate R)
  | [] => none
  | first :: rest => some (rest.foldl (fun best c => if area c < area best then c else best) first)

def chooseMode (shapes : List (ModeShape R)) (width height : Nat) (requested : R) : Option ModeChoice :=
  let usableList : List (Candidate R) := (shapes.zipIdx.map fun p => (p.2, p.1)).filter fun c => usable rates c.2
  let exact := usableList.filter fun c => c.2.width == width && c.2.height == height
  match bestRate rates exact requested with
  | some c => some ⟨c.1, false⟩
  | none => do
    let reduced := usableList.filter fun c => decide (c.2.width ≤ width) && decide (c.2.height ≤ height)
    let chosen ← (largest reduced).or (smallest usableList)
    let same := usableList.filter fun c => c.2.width == chosen.2.width && c.2.height == chosen.2.height
    let c ← bestRate rates same requested
    pure ⟨c.1, true⟩

end

/-! ## The fitted picture -/

structure Area where
  x : Nat
  y : Nat
  width : Nat
  height : Nat
  deriving DecidableEq, Repr

/-- `usize::try_from(v).unwrap_or(default)`. -/
def toUsize (v default : Nat) : Nat := if v < 2 ^ 64 then v else default

/-- `Placement::fit`. -/
def Area.fit (sw sh mw mh : Nat) : Option Area :=
  if sw = 0 ∨ sh = 0 ∨ mw = 0 ∨ mh = 0 then none
  else
    let sourceRatio := sw * mh
    let modeRatio := mw * sh
    let (width, height) :=
      if sourceRatio ≤ modeRatio then (min (toUsize (sourceRatio / sh) mw) mw, mh)
      else (mw, min (toUsize (modeRatio / sw) mh) mh)
    let width := max width 1
    let height := max height 1
    some ⟨(mw - width) / 2, (mh - height) / 2, width, height⟩

/-- The source coordinate that a destination pixel samples. -/
def sample (index destination source : Nat) : Nat :=
  min (toUsize ((2 * index + 1) * source / (2 * destination)) 0) (source - 1)

structure Scaler where
  placement : Area
  rows : List Nat
  columns : List Nat
  deriving DecidableEq, Repr

/-- One of the tables; an entry is a `u32`. -/
def table (n source : Nat) : List Nat :=
  (List.range n).map fun i => if sample i n source < 2 ^ 32 then sample i n source else 2 ^ 32 - 1

def Scaler.new (sw sh : Nat) (p : Area) : Except String Scaler :=
  if sw = 0 ∨ sh = 0 ∨ 2 ^ 32 ≤ sw ∨ 2 ^ 32 ≤ sh ∨ p.width = 0 ∨ p.height = 0 then
    .error "Video frame geometry cannot be scaled"
  else .ok ⟨p, table p.height sh, table p.width sw⟩

/-- The placement that `present` hands to the decoder. -/
def Scaler.vmxPlacement (s : Scaler) : Placement := ⟨s.placement.x, s.placement.y, s.columns, s.rows⟩

namespace ScaleLemmas

/-! ### The chosen mode -/

section

variable {R : Type} {rates : Rates R}

theorem foldl_mem {α : Type} {f : α → α → α} (hf : ∀ a b, f a b = a ∨ f a b = b) (l : List α) (a : α) :
    l.foldl f a ∈ a :: l := by
  induction l generalizing a with
  | nil => exact List.mem_singleton.mpr rfl
  | cons b l ih =>
    rw [List.foldl_cons]
    rcases List.mem_cons.mp (ih (f a b)) with h | h
    · rw [h]
      rcases hf a b with h | h
      · rw [h]
        exact List.mem_cons_self
      · rw [h]
        exact List.mem_cons_of_mem _ List.mem_cons_self
    · exact List.mem_cons_of_mem _ (List.mem_cons_of_mem _ h)

theorem fastest_mem {candidates : List (Candidate R)} {c : Candidate R} (h : fastest rates candidates = some c) :
    c ∈ candidates := by
  cases candidates with
  | nil => cases h
  | cons first rest =>
    rw [← Option.some.inj h]
    refine foldl_mem (fun a b => ?_) rest first
    split
    · exact .inr rfl
    · exact .inl rfl

theorem bestRate_mem {candidates : List (Candidate R)} {requested : R} {c : Candidate R}
    (h : bestRate rates candidates requested = some c) : c ∈ candidates := by
  unfold bestRate at h
  rcases Option.or_eq_some_iff.mp h with h | ⟨-, h⟩
  · obtain ⟨e, -, hfind⟩ := List.exists_of_findSome?_eq_some h
    exact List.mem_of_find?_eq_some hfind
  · exact fastest_mem h

/-- Only a usable mode is ever chosen. -/
theorem chooseMode_usable {shapes : List (ModeShape R)} {width height : Nat} {requested : R} {choice : ModeChoice}
    (h : chooseMode rates shapes width height requested = some choice) :
    ∃ mode, shapes[choice.index]? = some mode ∧ usable rates mode = true := by
  have hmem : ∀ c ∈ (shapes.zipIdx.map fun p => (p.2, p.1)).filter (fun c : Candidate R => usable rates c.2),
      shapes[c.1]? = some c.2 ∧ usable rates c.2 = true := by
    intro c hc
    obtain ⟨hc, husable⟩ := List.mem_filter.mp hc
    obtain ⟨p, hp, rfl⟩ := List.mem_map.mp hc
    exact ⟨List.mem_zipIdx_iff_getElem?.mp hp, husable⟩
  unfold chooseMode at h
  extract_lets usableList exact reduced same at h
  cases hexact : bestRate rates exact requested with
  | some c =>
    rw [hexact] at h
    obtain rfl := Option.some.inj h
    exact ⟨c.2, hmem c (List.mem_filter.mp (bestRate_mem hexact)).1⟩
  | none =>
    rw [hexact] at h
    obtain ⟨chosen, -, h⟩ := Option.bind_eq_some_iff.mp h
    obtain ⟨c, hc, h⟩ := Option.bind_eq_some_iff.mp h
    obtain rfl := Option.some.inj h
    exact ⟨c.2, hmem c (List.mem_filter.mp (bestRate_mem hc)).1⟩

theorem usable_size {mode : ModeShape R} (h : usable rates mode = true) : mode.width ≤ maxWidth ∧ mode.height ≤ maxHeight := by
  unfold usable at h
  simp only [Bool.and_eq_true, decide_eq_true_eq] at h
  exact ⟨h.1.2, h.2⟩

end

/-! ### The tables -/

theorem sample_lt {n source i : Nat} (hsource : 0 < source) (hi : i < n) :
    (2 * i + 1) * source / (2 * n) < source := by
  refine Nat.div_lt_of_lt_mul ?_
  exact Nat.mul_lt_mul_of_pos_right (by omega) hsource

theorem sample_eq {n source i : Nat} (hsource : 0 < source) (hsmall : source < 2 ^ 32) (hi : i < n) :
    sample i n source = (2 * i + 1) * source / (2 * n) := by
  have hlt := sample_lt hsource hi
  unfold sample toUsize
  rw [if_pos (by omega), Nat.min_eq_left (by omega)]

/-- The entries of a table are its samples, all inside the source. -/
theorem table_eq {n source : Nat} (hsource : 0 < source) (hsmall : source < 2 ^ 32) :
    table n source = (List.range n).map fun i => (2 * i + 1) * source / (2 * n) := by
  refine List.map_congr_left fun i hi => ?_
  have hi := List.mem_range.mp hi
  have hlt := sample_lt hsource hi
  rw [sample_eq hsource hsmall hi, if_pos (by omega)]

theorem table_lt {n source v : Nat} (hsource : 0 < source) (hsmall : source < 2 ^ 32) (hv : v ∈ table n source) :
    v < source := by
  rw [table_eq hsource hsmall] at hv
  obtain ⟨i, hi, rfl⟩ := List.mem_map.mp hv
  exact sample_lt hsource (List.mem_range.mp hi)

theorem table_sorted {n source : Nat} (hsource : 0 < source) (hsmall : source < 2 ^ 32) :
    (table n source).Pairwise (· ≤ ·) := by
  rw [table_eq hsource hsmall]
  refine List.pairwise_map.mpr (List.pairwise_lt_range.imp fun {i j} hij => ?_)
  exact Nat.div_le_div_right (Nat.mul_le_mul_right source (by omega))

/-! ### The fitted picture -/

/-- A picture inside a mode. -/
structure Inside (p : Area) (mw mh : Nat) : Prop where
  width : 1 ≤ p.width
  height : 1 ≤ p.height
  right : p.x + p.width ≤ mw
  bottom : p.y + p.height ≤ mh

theorem fit_inside {sw sh mw mh : Nat} (hw : 0 < sw) (hh : 0 < sh) (hmw : 0 < mw) (hmh : 0 < mh) :
    ∃ p, Area.fit sw sh mw mh = some p ∧ Inside p mw mh := by
  unfold Area.fit
  rw [if_neg (by omega)]
  extract_lets sourceRatio modeRatio
  split
  next width height hsize =>
  have hwidth : width ≤ mw ∧ height ≤ mh := by
    split at hsize
    · obtain ⟨rfl, rfl⟩ := Prod.mk.inj hsize
      exact ⟨Nat.min_le_right _ _, Nat.le_refl _⟩
    · obtain ⟨rfl, rfl⟩ := Prod.mk.inj hsize
      exact ⟨Nat.le_refl _, Nat.min_le_right _ _⟩
  refine ⟨_, rfl, ?_, ?_, ?_, ?_⟩
  · exact Nat.le_max_right _ _
  · exact Nat.le_max_right _ _
  · dsimp only
    omega
  · dsimp only
    omega

theorem scaler_new {sw sh : Nat} {p : Area} (hw : 0 < sw ∧ sw < 2 ^ 32) (hh : 0 < sh ∧ sh < 2 ^ 32) (h : 1 ≤ p.width)
    (h' : 1 ≤ p.height) : Scaler.new sw sh p = .ok ⟨p, table p.height sh, table p.width sw⟩ := by
  unfold Scaler.new
  rw [if_neg (by omega)]

/-- The bytes of a picture inside a mode end inside the mode's buffer. -/
theorem extent_inside {p : Area} {mw mh pitch size : Nat} {columns rows : List Nat} (h : Inside p mw mh)
    (hcolumns : columns.length = p.width) (hrows : rows.length = p.height) (hmw : mw ≤ maxWidth) (hmh : mh ≤ maxHeight)
    (hpitch : 4 * mw ≤ pitch) (hsize : pitch * mh ≤ size) (hfits : size < 2 ^ 64) :
    ∃ right last, Placement.extent ⟨p.x, p.y, columns, rows⟩ pitch = some (right, last) ∧ right ≤ pitch ∧ last ≤ size := by
  have hright := h.right
  have hbottom := h.bottom
  have hheight := h.height
  have hmw' : mw ≤ 1920 := hmw
  have hmh' : mh ≤ 1080 := hmh
  have hlast : (p.y + (p.height - 1)) * pitch + pitch ≤ size := by
    calc (p.y + (p.height - 1)) * pitch + pitch = (p.y + (p.height - 1) + 1) * pitch := (Nat.succ_mul _ _).symm
      _ ≤ mh * pitch := Nat.mul_le_mul_right pitch (by omega)
      _ = pitch * mh := Nat.mul_comm _ _
      _ ≤ size := hsize
  refine ⟨(p.x + p.width) * 4, (p.y + (p.height - 1)) * pitch + (p.x + p.width) * 4, ?_, by omega, by omega⟩
  unfold Placement.extent
  dsimp only
  rw [hcolumns, hrows]
  have hone : checked (p.x + p.width) = some (p.x + p.width) := if_pos (by omega)
  have htwo : checked ((p.x + p.width) * 4) = some ((p.x + p.width) * 4) := if_pos (by omega)
  have hthree : checked (p.y + (p.height - 1)) = some (p.y + (p.height - 1)) := if_pos (by omega)
  have hfour : checked ((p.y + (p.height - 1)) * pitch) = some ((p.y + (p.height - 1)) * pitch) := if_pos (by omega)
  have hfive : checked ((p.y + (p.height - 1)) * pitch + (p.x + p.width) * 4) =
      some ((p.y + (p.height - 1)) * pitch + (p.x + p.width) * 4) := if_pos (by omega)
  rw [hone, Option.bind_some, htwo, hthree, Option.bind_some, hfour]
  show (checked _).bind _ = _
  rw [hfive]
  rfl

theorem check_inside {g : Geometry} {p : Area} {mw mh pitch size : Nat} (h : Inside p mw mh) (hmw : mw ≤ maxWidth)
    (hmh : mh ≤ maxHeight) (hpitch : 4 * mw ≤ pitch) (hsize : pitch * mh ≤ size) (hfits : size < 2 ^ 64) :
    g.checkPlacement ⟨p.x, p.y, table p.width g.width, table p.height g.height⟩ size pitch = .ok () := by
  have hcolumns : (table p.width g.width).length = p.width := by rw [table, List.length_map, List.length_range]
  have hrows : (table p.height g.height).length = p.height := by rw [table, List.length_map, List.length_range]
  obtain ⟨right, last, hextent, hright, hlast⟩ := extent_inside h hcolumns hrows hmw hmh hpitch hsize hfits
  have hwidth : 0 < g.width ∧ g.width < 2 ^ 32 := by
    have := g.hwidth
    unfold maxWidth at this
    omega
  have hheight : 0 < g.height ∧ g.height < 2 ^ 32 := by
    have := g.hheight
    unfold maxHeight at this
    omega
  have hmw' : mw ≤ 1920 := hmw
  have hmh' : mh ≤ 1080 := hmh
  have hone := h.width
  have htwo := h.height
  have hthree := h.right
  have hfour := h.bottom
  unfold Geometry.checkPlacement
  rw [hextent]
  dsimp only
  rw [hcolumns, hrows, if_neg (by unfold maxPlacedWidth maxPlacedHeight; omega), if_neg, if_neg, if_neg (by omega)]
  · rw [descends_of_pairwise (table_sorted hheight.1 hheight.2), Bool.or_false, Bool.not_eq_true, List.any_eq_false]
    intro v hv
    rw [decide_eq_true_eq]
    exact Nat.not_le.mpr (table_lt hheight.1 hheight.2 hv)
  · rw [Bool.not_eq_true, List.any_eq_false]
    intro v hv
    rw [decide_eq_true_eq]
    exact Nat.not_le.mpr (table_lt hwidth.1 hwidth.2 hv)

end ScaleLemmas

open ScaleLemmas

/-- What becomes of a picture on a mode: a mode without pixels has no placement; on any
other the scaler is built and its placement is accepted on every buffer that holds the
mode. -/
inductive Fitted (g : Geometry) (mw mh : Nat) : Prop
  | degenerate (hmode : mw = 0 ∨ mh = 0) (hfit : Area.fit g.width g.height mw mh = none)
  | accepted {p : Area} {s : Scaler} (hfit : Area.fit g.width g.height mw mh = some p)
    (hscaler : Scaler.new g.width g.height p = .ok s)
    (hprepare : ∀ pitch size capacity, 4 * mw ≤ pitch → pitch * mh ≤ size → size < 2 ^ 64 →
      ∃ ranges, g.preparePlacement s.vmxPlacement size pitch capacity true = .ok ranges)

theorem fitted_placement_accepted {R : Type} (rates : Rates R) (shapes : List (ModeShape R)) (width height : Nat)
    (requested : R) (choice : ModeChoice) (g : Geometry)
    (h : chooseMode rates shapes width height requested = some choice) :
    ∃ mode, shapes[choice.index]? = some mode ∧ Fitted g mode.width mode.height := by
  obtain ⟨mode, hmode, husable⟩ := chooseMode_usable h
  obtain ⟨hmw, hmh⟩ := usable_size husable
  have hwidth := g.hwidth
  have hheight := g.hheight
  unfold maxWidth at hwidth
  unfold maxHeight at hheight
  refine ⟨mode, hmode, ?_⟩
  by_cases hzero : mode.width = 0 ∨ mode.height = 0
  · refine .degenerate hzero ?_
    unfold Area.fit
    rw [if_pos (by omega)]
  · obtain ⟨p, hfit, hinside⟩ := (@fit_inside g.width g.height mode.width mode.height)
      (by omega) (by omega) (by omega) (by omega)
    refine .accepted hfit (scaler_new (by omega) (by omega) hinside.width hinside.height) fun pitch size capacity hp hs hf => ?_
    exact ⟨_, preparePlacement_ok capacity (check_inside hinside hmw hmh hp hs hf)⟩

/-- Rates in whole hertz. -/
def hertz : Rates Nat := ⟨(0 < ·), (· < 40), (2 * ·), 0, id, 60, (· == ·), fun a b => decide (b < a)⟩

theorem tall_mode_accepted :
    ∃ mode, [(⟨16, 1080, 50, false⟩ : ModeShape Nat), ⟨16, 1080, 60, false⟩][1]? = some mode ∧
      Fitted ⟨1920, 1080, by decide, by decide, by decide⟩ mode.width mode.height :=
  fitted_placement_accepted hertz [⟨16, 1080, 50, false⟩, ⟨16, 1080, 60, false⟩] 1920 1080 30 ⟨1, true⟩ _ (by decide)

/-! ## The laws of a placement -/

/-- What a placement fitted into a mode is. One axis fills the mode; the other is the size
that keeps the aspect ratio, rounded down but never nothing; both are centred. -/
structure Fitting (sw sh mw mh : Nat) (p : Area) : Prop where
  inside : Inside p mw mh
  fills : (p.height = mh ∧ p.width = max (sw * mh / sh) 1) ∨ (p.width = mw ∧ p.height = max (mw * sh / sw) 1)
  across : p.x ≤ mw - p.width - p.x ∧ mw - p.width - p.x ≤ p.x + 1
  down : p.y ≤ mh - p.height - p.y ∧ mh - p.height - p.y ≤ p.y + 1

/-- What a table of `n` entries into `source` coordinates samples. The numerator and the
denominator of every entry fit into a `u128`. -/
structure Sampling (n source : Nat) (entries : List Nat) : Prop where
  samples : entries = (List.range n).map (sample · n source)
  inside : ∀ i < n, sample i n source < source
  monotone : ∀ i j, i ≤ j → j < n → sample i n source ≤ sample j n source
  identity : n = source → ∀ i < n, sample i n source = i
  numerator : ∀ i < n, (2 * i + 1) * source < 2 ^ 128
  denominator : 2 * n < 2 ^ 128

namespace ScaleLemmas

/-- A fitted axis is no longer than the mode, and so nothing is clamped. -/
theorem axis_eq {ratio limit source : Nat} (h : ratio ≤ limit * source) (hsource : 0 < source) (hlimit : limit < 2 ^ 64) :
    min (toUsize (ratio / source) limit) limit = ratio / source := by
  have hle : ratio / source ≤ limit := by
    rw [Nat.div_le_iff_le_mul_add_pred hsource, Nat.mul_comm]
    exact Nat.le_trans h (Nat.le_add_right _ _)
  unfold toUsize
  rw [if_pos (Nat.lt_of_le_of_lt hle hlimit), Nat.min_eq_left hle]

theorem fit_fitting {sw sh mw mh : Nat} (hsource : 0 < sw ∧ 0 < sh) (hmode : 0 < mw ∧ 0 < mh)
    (husize : mw < 2 ^ 64 ∧ mh < 2 ^ 64) : ∃ p, Area.fit sw sh mw mh = some p ∧ Fitting sw sh mw mh p := by
  obtain ⟨p, hfit, hinside⟩ := fit_inside hsource.1 hsource.2 hmode.1 hmode.2
  refine ⟨p, hfit, ?_⟩
  have hright := hinside.right
  have hbottom := hinside.bottom
  unfold Area.fit at hfit
  rw [if_neg (by omega)] at hfit
  extract_lets sourceRatio modeRatio at hfit
  have hcentre : ∀ {m n x : Nat}, x = (m - n) / 2 → x ≤ m - n - x ∧ m - n - x ≤ x + 1 := by
    intro m n x hx
    omega
  by_cases hlimit : sourceRatio ≤ modeRatio
  · rw [if_pos hlimit, axis_eq hlimit hsource.2 husize.1] at hfit
    obtain rfl := Option.some.inj hfit
    exact ⟨hinside, .inl ⟨Nat.max_eq_left hmode.2, rfl⟩, hcentre rfl, hcentre rfl⟩
  · have hlimit' : modeRatio ≤ mh * sw := by
      rw [Nat.mul_comm]
      exact Nat.le_of_not_le hlimit
    rw [if_neg hlimit, axis_eq hlimit' hsource.1 husize.2] at hfit
    obtain rfl := Option.some.inj hfit
    exact ⟨hinside, .inr ⟨Nat.max_eq_left hmode.1, rfl⟩, hcentre rfl, hcentre rfl⟩

theorem table_sampling {n source : Nat} (hn : n < 2 ^ 64) (hsource : 0 < source) (hsmall : source < 2 ^ 32) :
    Sampling n source (table n source) := by
  refine ⟨?_, ?_, ?_, ?_, ?_, by omega⟩
  · rw [table_eq hsource hsmall]
    exact List.map_congr_left fun i hi => (sample_eq hsource hsmall (List.mem_range.mp hi)).symm
  · intro i hi
    rw [sample_eq hsource hsmall hi]
    exact sample_lt hsource hi
  · intro i j hij hj
    rw [sample_eq hsource hsmall (Nat.lt_of_le_of_lt hij hj), sample_eq hsource hsmall hj]
    exact Nat.div_le_div_right (Nat.mul_le_mul_right source (by omega))
  · rintro rfl i hi
    -- The centre of a pixel lies strictly between its two borders.
    rw [sample_eq hsource hsmall hi, Nat.mul_comm 2 n, Nat.mul_comm, Nat.mul_div_mul_left _ _ hsource]
    omega
  · intro i hi
    calc (2 * i + 1) * source < 2 ^ 65 * 2 ^ 32 := Nat.mul_lt_mul'' (by omega) hsmall
      _ < 2 ^ 128 := by decide

end ScaleLemmas

/-- At every size: the picture fitted into a mode keeps its aspect ratio, fills an axis and
is centred, and the tables of every scaler sample inside the source, in order, and pixel for
pixel when nothing is scaled. -/
theorem placement_laws (sw sh mw mh : Nat) (hsource : 0 < sw ∧ 0 < sh) (hmode : 0 < mw ∧ 0 < mh)
    (husize : (sw < 2 ^ 64 ∧ sh < 2 ^ 64) ∧ mw < 2 ^ 64 ∧ mh < 2 ^ 64) :
    (∃ p, Area.fit sw sh mw mh = some p ∧ Fitting sw sh mw mh p) ∧ (sw * mh < 2 ^ 128 ∧ mw * sh < 2 ^ 128) ∧
      ∀ p s, p.width < 2 ^ 64 → p.height < 2 ^ 64 → Scaler.new sw sh p = .ok s →
        Sampling p.width sw s.columns ∧ Sampling p.height sh s.rows := by
  have hproduct : ∀ {a b : Nat}, a < 2 ^ 64 → b < 2 ^ 64 → a * b < 2 ^ 128 := fun ha hb =>
    Nat.lt_of_lt_of_le (Nat.mul_lt_mul'' ha hb) (by decide)
  refine ⟨fit_fitting hsource hmode husize.2, ⟨hproduct husize.1.1 husize.2.2, hproduct husize.2.1 husize.1.2⟩, ?_⟩
  intro p s hwidth hheight hnew
  unfold Scaler.new at hnew
  split at hnew
  · cases hnew
  · next hadmitted =>
    cases hnew
    exact ⟨table_sampling hwidth (by omega) (by omega), table_sampling hheight (by omega) (by omega)⟩

theorem full_hd_laws :
    (∃ p, Area.fit 1920 1080 1280 1024 = some p ∧ Fitting 1920 1080 1280 1024 p) ∧
      (1920 * 1024 < 2 ^ 128 ∧ 1280 * 1080 < 2 ^ 128) ∧
      ∀ p s, p.width < 2 ^ 64 → p.height < 2 ^ 64 → Scaler.new 1920 1080 p = .ok s →
        Sampling p.width 1920 s.columns ∧ Sampling p.height 1080 s.rows :=
  placement_laws 1920 1080 1280 1024 (by decide) (by decide) (by decide)

end OmtClient.Receiver.Scale
