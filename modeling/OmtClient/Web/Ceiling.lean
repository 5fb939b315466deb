import Mathlib.Data.List.Forall2
import OmtClient.Receiver.Ceiling

/-!
# The video limit of the Web form

`parse_video_ceiling`, `describe_video_ceiling` and `pixel_rate` of
`crates/omt-web/src/state.rs`: what the Web frontend accepts as a video limit, and
what it shows of one. The receiver is started with the saved text and reads it with
`VideoCeiling::parse`.

1. `shape_iff`: the receiver takes a field exactly when the Web form does and none of
   its numbers starts with a zero.
2. `validators_agree_iff`: on which texts the two validators agree.
-/

namespace OmtClient.Web.Ceiling

open OmtClient.Lib OmtClient.Common
open OmtClient.Receiver.Ceiling (Shape cut number)
open OmtClient.Receiver

def allDigits (s : Bytes) : Bool := s.all isAsciiDigit

/-- One turn of the loop of `parse_video_ceiling`. -/
def checkShape (shape : Bytes) : Except Bytes Unit :=
  let invalid := utf8 "Invalid video limit: " ++ shape ++ utf8 ". Expected WIDTHxHEIGHT@FPS."
  match cut shape with
  | none => .error invalid
  | some (w, h, fps) =>
    if ¬ (2 ≤ w.length ∧ w.length ≤ 4) ∨ ¬ (2 ≤ h.length ∧ h.length ≤ 4) ∨
        ¬ (1 ≤ fps.length ∧ fps.length ≤ 3) ∨ !allDigits w ∨ !allDigits h ∨ !allDigits fps then
      .error invalid
    else
      let (w, h, f) := (decimal w, decimal h, decimal fps)
      if 255 < f then .error (utf8 "Invalid frame rate")
      else if ¬ (16 ≤ w ∧ w ≤ 1920) then
        .error (utf8 "Width " ++ numeral 10 w ++ utf8 " is outside 16-1920.")
      else if ¬ (16 ≤ h ∧ h ≤ 1080) then
        .error (utf8 "Height " ++ numeral 10 h ++ utf8 " is outside 16-1080.")
      else if ¬ (1 ≤ f ∧ f ≤ 60) then
        .error (utf8 "Frame rate " ++ numeral 10 f ++ utf8 " is outside 1-60.")
      else .ok ()

/-- `parse_video_ceiling`. -/
def parseVideoCeiling (value : Bytes) : Except Bytes Unit :=
  if 4 < value.count 44 + 1 then
    .error (utf8 "A video limit must list between 1 and 4 resolutions.")
  else (value.splitOn 44).forM checkShape

/-- One shape as `describe_video_ceiling` shows it. -/
def describeShape (shape : Bytes) : Bytes :=
  match splitOnce 64 shape with
  | none => shape
  | some (size, fps) =>
    let rate := match parseUnsigned 255 fps with
      | some f => numeral 10 f
      | none => fps
    size ++ utf8 " at " ++ rate ++ utf8 " fps"

/-- `describe_video_ceiling`. -/
def describeVideoCeiling (value : Bytes) : Bytes :=
  (utf8 ", or ").intercalate ((value.splitOn 44).map describeShape)

/-- A field of digits that fits in a u64. -/
def digits (s : Bytes) : Option Nat :=
  if s = [] ∨ !allDigits s then none else parseUnsigned (2 ^ 64 - 1) s

/-- The pixel rate of one shape, unless it overflows. -/
def shapeRate (shape : Bytes) : Option Nat := do
  let (w, h, fps) ← cut shape
  let area := (← digits w) * (← digits h)
  if 2 ^ 64 ≤ area then none
  else
    let rate := area * (← digits fps)
    if 2 ^ 64 ≤ rate then none else some rate

/-- `pixel_rate`: the largest width x height x fps among the shapes. -/
def pixelRate (value : Bytes) : Nat := ((value.splitOn 44).filterMap shapeRate).max?.getD 0

/-! ## Where the validators agree -/

/-- A shape with a number that starts with a zero. -/
def zeroLed (shape : Bytes) : Bool :=
  match cut shape with
  | none => false
  | some (w, h, fps) => w.head? == some 48 || h.head? == some 48 || fps.head? == some 48

/-- The receiver takes a text exactly when the Web form does, and then reads from it
the shapes that the Web shows and rates. -/
def Agree (value : Bytes) : Prop :=
  (parseVideoCeiling value = .ok () ↔ ∃ shapes, Ceiling.parse value = .ok shapes) ∧
  ∀ shapes, Ceiling.parse value = .ok shapes →
    describeVideoCeiling value = Ceiling.describe shapes ∧
    pixelRate value = (shapes.map fun s => s.width * s.height * s.fps).max?.getD 0

namespace CeilingLemmas

open OmtClient.Receiver.Ceiling.CeilingLemmas

variable {f : Bytes} {s : Shape}

theorem checkShape_eq_ok :
    checkShape f = .ok () ↔ ∃ w h fps, cut f = some (w, h, fps) ∧
      (2 ≤ w.length ∧ w.length ≤ 4) ∧ (2 ≤ h.length ∧ h.length ≤ 4) ∧
      (1 ≤ fps.length ∧ fps.length ≤ 3) ∧ allDigits w = true ∧ allDigits h = true ∧
      allDigits fps = true ∧ (16 ≤ decimal w ∧ decimal w ≤ 1920) ∧
      (16 ≤ decimal h ∧ decimal h ≤ 1080) ∧ 1 ≤ decimal fps ∧ decimal fps ≤ 60 := by
  unfold checkShape
  cases hcut : cut f with
  | none => simp
  | some parts =>
    obtain ⟨w, h, fps⟩ := parts
    constructor
    · intro hok
      dsimp only at hok
      split at hok
      · cases hok
      next hshape =>
      split at hok
      · cases hok
      split at hok
      · cases hok
      next hw =>
      split at hok
      · cases hok
      next hh =>
      split at hok
      · cases hok
      next hf =>
      simp only [not_or, not_not, Bool.not_eq_true', Bool.not_eq_false] at hshape
      rw [not_not] at hw hh hf
      obtain ⟨h1, h2, h3, h4, h5, h6⟩ := hshape
      exact ⟨w, h, fps, rfl, h1, h2, h3, h4, h5, h6, hw, hh, hf⟩
    · rintro ⟨w', h', fps', hparts, h1, h2, h3, h4, h5, h6, hw, hh, hf⟩
      cases hparts
      have hshape : ¬ (¬ (2 ≤ w.length ∧ w.length ≤ 4) ∨ ¬ (2 ≤ h.length ∧ h.length ≤ 4) ∨
          ¬ (1 ≤ fps.length ∧ fps.length ≤ 3) ∨ (!allDigits w) = true ∨ (!allDigits h) = true ∨
          (!allDigits fps) = true) := by
        simp only [not_or, not_not, h4, h5, h6]
        exact ⟨h1, h2, h3, nofun, nofun, nofun⟩
      have hbyte : ¬ 255 < decimal fps := by omega
      simp only [if_neg hshape, if_neg hbyte, if_neg (not_not.mpr hw), if_neg (not_not.mpr hh),
        if_neg (not_not.mpr hf)]

theorem zeroLed_eq_false {w h fps : Bytes} (hcut : cut f = some (w, h, fps)) :
    zeroLed f = false ↔ (w.head? ≠ some 48 ∧ h.head? ≠ some 48) ∧ fps.head? ≠ some 48 := by
  simp only [zeroLed, hcut, Bool.or_eq_false_iff, beq_eq_false_iff_ne, ne_eq]

/-- A number of the receiver's, as the Web form reads it. -/
theorem number_iff {ds : Bytes} {v low high : Nat} (hlow : 0 < low) (hv : 10 ^ (low - 1) ≤ v)
    (hhigh : v < 10 ^ high) (hfour : high ≤ 4) (hle : low ≤ high) :
    number ds = some v ↔ (low ≤ ds.length ∧ ds.length ≤ high) ∧ allDigits ds = true ∧
      ds.head? ≠ some 48 ∧ decimal ds = v := by
  rw [number_eq_some]
  constructor
  · rintro ⟨hne, -, hzero, hall, rfl⟩
    have hlen := (le_decimal hall hne hzero (Nat.lt_of_lt_of_le hlow hle)).mpr hhigh
    refine ⟨⟨?_, hlen⟩, hall, hzero, rfl⟩
    -- fewer digits than `low` denote less than its power of ten
    rcases Nat.lt_or_ge ds.length low with hlt | hge
    · have hsmall := decimal_lt hall
      have : 10 ^ ds.length ≤ 10 ^ (low - 1) := Nat.pow_le_pow_right (by decide) (by omega)
      omega
    · exact hge
  · rintro ⟨⟨hlo, hhi⟩, hall, hzero, hval⟩
    refine ⟨?_, Nat.le_trans hhi hfour, hzero, hall, hval⟩
    rintro rfl
    exact absurd hlo (Nat.not_le.mpr hlow)

end CeilingLemmas

open CeilingLemmas

/-- The receiver takes a field exactly when the Web form does and none of its numbers
starts with a zero. -/
theorem shape_iff {f : Bytes} {s : Shape} :
    Ceiling.shape f = .ok s ↔ checkShape f = .ok () ∧ zeroLed f = false ∧
      ∃ w h fps, cut f = some (w, h, fps) ∧ s = ⟨decimal w, decimal h, decimal fps⟩ := by
  rw [Ceiling.shape_eq_ok, checkShape_eq_ok]
  constructor
  · rintro ⟨w, h, fps, hcut, hw, hh, hf, w1, w2, h1, h2, f1, f2⟩
    rw [(@number_iff _ _ 2 4) (by decide) (by omega) (by omega) (by decide) (by decide)] at hw hh
    rw [(@number_iff _ _ 1 3) (by decide) (by omega) (by omega) (by decide) (by decide)] at hf
    obtain ⟨hwlen, hwall, hwzero, hwv⟩ := hw
    obtain ⟨hhlen, hhall, hhzero, hhv⟩ := hh
    obtain ⟨hflen, hfall, hfzero, hfv⟩ := hf
    refine ⟨⟨w, h, fps, hcut, hwlen, hhlen, hflen, hwall, hhall, hfall, ?_⟩, ?_, w, h, fps, hcut, ?_⟩
    · rw [hwv, hhv, hfv]
      exact ⟨⟨w1, w2⟩, ⟨h1, h2⟩, f1, f2⟩
    · exact (zeroLed_eq_false hcut).mpr ⟨⟨hwzero, hhzero⟩, hfzero⟩
    · rw [hwv, hhv, hfv]
  · rintro ⟨⟨w, h, fps, hcut, hwlen, hhlen, hflen, hwall, hhall, hfall, hw, hh, hf⟩, hzero, w', h', fps',
      hcut', rfl⟩
    cases hcut.symm.trans hcut'
    obtain ⟨⟨hwzero, hhzero⟩, hfzero⟩ := (zeroLed_eq_false hcut).mp hzero
    refine ⟨w, h, fps, hcut, ?_, ?_, ?_, hw.1, hw.2, hh.1, hh.2, hf.1, hf.2⟩
    · exact ((@number_iff _ _ 2 4) (by decide) (by dsimp only; omega) (by dsimp only; omega)
        (by decide) (by decide)).mpr ⟨hwlen, hwall, hwzero, rfl⟩
    · exact ((@number_iff _ _ 2 4) (by decide) (by dsimp only; omega) (by dsimp only; omega)
        (by decide) (by decide)).mpr ⟨hhlen, hhall, hhzero, rfl⟩
    · exact ((@number_iff _ _ 1 3) (by decide) (by dsimp only; omega) (by dsimp only; omega)
        (by decide) (by decide)).mpr ⟨hflen, hfall, hfzero, rfl⟩

namespace CeilingLemmas

variable {f : Bytes} {s : Shape}

/-- The shape that a text of the Web form is read as. -/
def reading (f : Bytes) : Shape :=
  match cut f with
  | none => ⟨0, 0, 0⟩
  | some (w, h, fps) => ⟨decimal w, decimal h, decimal fps⟩

theorem shape_of_check (h : checkShape f = .ok ()) (hzero : zeroLed f = false) :
    Ceiling.shape f = .ok (reading f) := by
  obtain ⟨w, h', fps, hcut, -⟩ := (checkShape_eq_ok).mp h
  refine (shape_iff).mpr ⟨h, hzero, w, h', fps, hcut, ?_⟩
  rw [reading, hcut]

theorem parseVideoCeiling_eq_ok {value : Bytes} :
    parseVideoCeiling value = .ok () ↔
      (value.splitOn 44).length ≤ 4 ∧ ∀ f ∈ value.splitOn 44, checkShape f = .ok () := by
  have hforM (fs : List Bytes) : fs.forM checkShape = .ok () ↔ ∀ f ∈ fs, checkShape f = .ok () := by
    induction fs with
    | nil => exact ⟨fun _ _ h => (nomatch h), fun _ => rfl⟩
    | cons f fs ih =>
      rw [List.forall_mem_cons, ← ih]
      show (checkShape f >>= fun _ => fs.forM checkShape) = .ok () ↔ _
      cases checkShape f with
      | error e => exact ⟨fun h => (nomatch h), fun h => (nomatch h.1)⟩
      | ok u => exact ⟨fun h => ⟨rfl, h⟩, fun h => h.2⟩
  rw [parseVideoCeiling, length_splitOn]
  split
  · next h => exact ⟨fun hno => (nomatch hno), fun hok => absurd h (Nat.not_lt.mpr hok.1)⟩
  · next h => exact (hforM _).trans ⟨fun hall => ⟨Nat.not_lt.mp h, hall⟩, fun hok => hok.2⟩

/-- What is shown of a shape is what the receiver says of it. -/
theorem describeShape_eq (h : Ceiling.shape f = .ok s) :
    describeShape f = numeral 10 s.width ++ utf8 "x" ++ numeral 10 s.height ++ utf8 " at " ++
      numeral 10 s.fps ++ utf8 " fps" := by
  obtain ⟨hcheck, hzero, w, h', fps, hcut, rfl⟩ := (shape_iff).mp h
  obtain ⟨w', h'', fps', hcut', hwlen, hhlen, hflen, hwall, hhall, hfall, -, -, -, hf⟩ :=
    (checkShape_eq_ok).mp hcheck
  cases hcut.symm.trans hcut'
  obtain ⟨⟨hwzero, hhzero⟩, hfzero⟩ := (zeroLed_eq_false hcut).mp hzero
  have hne {ds : Bytes} {n : Nat} (hn : 0 < n) (hlen : n ≤ ds.length) : ds ≠ [] := by
    rintro rfl
    exact absurd hlen (Nat.not_le.mpr hn)
  have hsize : ∃ size, splitOnce 64 f = some (size, fps) ∧ splitOnce 120 size = some (w, h') := by
    rw [cut] at hcut
    obtain ⟨⟨size, rate⟩, hat, hrest⟩ := Option.bind_eq_some_iff.mp hcut
    obtain ⟨⟨w', h''⟩, hx, heq⟩ := Option.bind_eq_some_iff.mp hrest
    cases heq
    exact ⟨size, hat, hx⟩
  obtain ⟨size, hat, hx⟩ := hsize
  rw [describeShape, hat]
  dsimp only
  rw [parseUnsigned_digits (hne (by decide) hflen.1) hfall (by omega),
    numeral_decimal hwall (hne (by decide) hwlen.1) hwzero,
    numeral_decimal hhall (hne (by decide) hhlen.1) hhzero, (splitOnce_eq_some.mp hx).1]
  simp only [List.append_assoc]
  rfl

theorem shapeRate_eq (h : Ceiling.shape f = .ok s) : shapeRate f = some (s.width * s.height * s.fps) := by
  obtain ⟨hcheck, -, w, h', fps, hcut, rfl⟩ := (shape_iff).mp h
  obtain ⟨w', h'', fps', hcut', hwlen, hhlen, hflen, hwall, hhall, hfall, hw, hh, hf⟩ :=
    (checkShape_eq_ok).mp hcheck
  cases hcut.symm.trans hcut'
  have hdigits {ds : Bytes} {n : Nat} (hn : 0 < n) (hlen : n ≤ ds.length) (hall : allDigits ds = true)
      (hsmall : decimal ds ≤ 2000) : digits ds = some (decimal ds) := by
    have hne : ds ≠ [] := by
      rintro rfl
      exact absurd hlen (Nat.not_le.mpr hn)
    rw [digits, if_neg (by rw [hall]; exact fun h => h.elim hne nofun)]
    exact parseUnsigned_digits hne hall (by omega)
  have harea : decimal w * decimal h' ≤ 1920 * 1080 := Nat.mul_le_mul hw.2 hh.2
  have hrate : decimal w * decimal h' * decimal fps ≤ 1920 * 1080 * 60 := Nat.mul_le_mul harea hf.2
  simp only [shapeRate, hcut, Option.bind_eq_bind, Option.bind_some,
    hdigits (by decide) hwlen.1 hwall (by omega), hdigits (by decide) hhlen.1 hhall (by omega),
    hdigits (by decide) hflen.1 hfall (by omega)]
  rw [if_neg (by omega), if_neg (by omega)]

theorem filterMap_eq {fields : List Bytes} {shapes : List Shape}
    (h : List.Forall₂ (fun f s => Ceiling.shape f = .ok s) fields shapes) :
    fields.filterMap shapeRate = shapes.map fun s => s.width * s.height * s.fps := by
  induction h with
  | nil => rfl
  | cons hs _ ih => rw [List.filterMap_cons, shapeRate_eq hs, ih, List.map_cons]

theorem map_describe {fields : List Bytes} {shapes : List Shape}
    (h : List.Forall₂ (fun f s => Ceiling.shape f = .ok s) fields shapes) :
    fields.map describeShape = shapes.map fun s => numeral 10 s.width ++ utf8 "x" ++ numeral 10 s.height ++
      utf8 " at " ++ numeral 10 s.fps ++ utf8 " fps" := by
  induction h with
  | nil => rfl
  | cons hs _ ih => rw [List.map_cons, describeShape_eq hs, ih, List.map_cons]

theorem forall₂_of_checks {fields : List Bytes} (hcheck : ∀ f ∈ fields, checkShape f = .ok ())
    (hzero : ∀ f ∈ fields, zeroLed f = false) :
    List.Forall₂ (fun f s => Ceiling.shape f = .ok s) fields (fields.map reading) := by
  induction fields with
  | nil => exact .nil
  | cons f fields ih =>
    rw [List.forall_mem_cons] at hcheck hzero
    exact .cons (shape_of_check hcheck.1 hzero.1) (ih hcheck.2 hzero.2)

theorem checks_of_forall₂ {fields : List Bytes} {shapes : List Shape}
    (h : List.Forall₂ (fun f s => Ceiling.shape f = .ok s) fields shapes) :
    ∀ f ∈ fields, checkShape f = .ok () ∧ zeroLed f = false := by
  induction h with
  | nil => nofun
  | cons hs _ ih =>
    obtain ⟨hcheck, hzero, -⟩ := (shape_iff).mp hs
    exact List.forall_mem_cons.mpr ⟨⟨hcheck, hzero⟩, ih⟩

end CeilingLemmas

/-- The two validators agree on a text, and read the same shapes from it, exactly when
the Web form refuses it or none of its numbers starts with a zero. -/
theorem validators_agree_iff (value : Bytes) :
    Agree value ↔
      (parseVideoCeiling value = .ok () → ∀ shape ∈ value.splitOn 44, zeroLed shape = false) := by
  constructor
  · intro hagree hok
    obtain ⟨shapes, hparse⟩ := hagree.1.mp hok
    exact fun f hf => (checks_of_forall₂ (Ceiling.parse_eq_ok.mp hparse).2 f hf).2
  · intro hplain
    refine ⟨⟨fun hok => ?_, ?_⟩, fun shapes hparse => ?_⟩
    · obtain ⟨hlen, hcheck⟩ := parseVideoCeiling_eq_ok.mp hok
      refine ⟨_, Ceiling.parse_eq_ok.mpr ⟨?_, forall₂_of_checks hcheck (hplain hok)⟩⟩
      rw [List.length_map]
      exact hlen
    · rintro ⟨shapes, hparse⟩
      obtain ⟨hlen, hall⟩ := Ceiling.parse_eq_ok.mp hparse
      refine parseVideoCeiling_eq_ok.mpr ⟨?_, fun f hf => (checks_of_forall₂ hall f hf).1⟩
      rw [hall.length_eq]
      exact hlen
    · have hall := (Ceiling.parse_eq_ok.mp hparse).2
      rw [describeVideoCeiling, Ceiling.describe, pixelRate, map_describe hall, filterMap_eq hall]
      exact ⟨rfl, rfl⟩

/-- A limit with a leading zero is saved by the Web form and refused by the receiver. -/
theorem leading_zero_disagrees :
    parseVideoCeiling (utf8 "0640x480@30") = .ok () ∧
    (Ceiling.parse (utf8 "0640x480@30")).toOption = none ∧ ¬ Agree (utf8 "0640x480@30") := by
  have hweb : parseVideoCeiling (utf8 "0640x480@30") = .ok () := by decide
  have hreceiver : (Ceiling.parse (utf8 "0640x480@30")).toOption = none := by decide
  refine ⟨hweb, hreceiver, fun hagree => ?_⟩
  obtain ⟨shapes, hparse⟩ := hagree.1.mp hweb
  rw [hparse] at hreceiver
  cases hreceiver

end OmtClient.Web.Ceiling
