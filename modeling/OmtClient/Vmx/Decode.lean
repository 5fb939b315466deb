import Mathlib.Algebra.Order.Ring.Int
import Mathlib.Data.List.Basic

/-!
# The decoder's geometry and placements

`crates/omt-vmx/src/lib.rs`: the sizes a decoder is made for, the slices they are cut into,
and `prepare_placement`, which checks a resampled output and gives each slice its rows.

A `usize` has 64 bits. `Geometry` carries the checks of `Decoder::new`.
-/

namespace OmtClient.Vmx

def maxWidth : Nat := 1920
def maxHeight : Nat := 1080
def maxPlacedWidth : Nat := 8192
def maxPlacedHeight : Nat := 8192
def sliceHeight : Nat := 16

inductive Status
  | invalidDimensions
  | empty
  | oversized
  | truncated
  | invalidFormat
  | unsupportedFormat
  | sliceCount
  | outputSize
  | workerFailure
  | corruptStream
  deriving DecidableEq, Repr

def Status.name : Status → String
  | .invalidDimensions => "InvalidDimensions"
  | .empty => "Empty"
  | .oversized => "Oversized"
  | .truncated => "Truncated"
  | .invalidFormat => "InvalidFormat"
  | .unsupportedFormat => "UnsupportedFormat"
  | .sliceCount => "SliceCount"
  | .outputSize => "OutputSize"
  | .workerFailure => "WorkerFailure"
  | .corruptStream => "CorruptStream"

/-! ## Geometry -/

structure Geometry where
  width : Nat
  height : Nat
  hwidth : 16 ≤ width ∧ width ≤ maxWidth
  heven : width % 2 = 0
  hheight : 16 ≤ height ∧ height ≤ maxHeight

/-- The checks of `Decoder::new` on the size. -/
def Geometry.new (width height : Nat) : Except Status Geometry :=
  if h : ((16 ≤ width ∧ width ≤ maxWidth) ∧ width % 2 = 0) ∧ (16 ≤ height ∧ height ≤ maxHeight) then
    .ok ⟨width, height, h.1.1, h.1.2, h.2⟩
  else .error .invalidDimensions

def align8 (v : Nat) : Nat := (v + 7) / 8 * 8

def Geometry.lumaStride (g : Geometry) : Nat := align8 g.width
def Geometry.chromaStride (g : Geometry) : Nat := align8 (g.width / 2)
def Geometry.sliceCount (g : Geometry) : Nat := (g.height + (sliceHeight - 1)) / sliceHeight

/-- The rows of a slice inside the image. -/
def Geometry.sliceRows (g : Geometry) (i : Nat) : Nat := min (g.height - i * sliceHeight) sliceHeight

/-! ## Placements -/

structure Placement where
  x : Nat
  y : Nat
  columns : List Nat
  rows : List Nat
  deriving DecidableEq, Repr

/-- A result in a `usize`. -/
def checked (n : Nat) : Option Nat := if n < 2 ^ 64 then some n else none

/-- Some row comes before the one above it. -/
def descends : List Nat → Bool
  | a :: b :: rest => decide (b < a) || descends (b :: rest)
  | _ => false

theorem descends_of_pairwise {l : List Nat} (h : l.Pairwise (· ≤ ·)) : descends l = false := by
  induction l with
  | nil => rfl
  | cons a rest ih =>
    cases rest with
    | nil => rfl
    | cons b rest =>
      obtain ⟨ha, hrest⟩ := List.pairwise_cons.mp h
      rw [descends, ih hrest, decide_eq_false (Nat.not_lt.mpr (ha b List.mem_cons_self)), Bool.false_or]

theorem pairwise_of_descends {l : List Nat} (h : descends l = false) : l.Pairwise (· ≤ ·) := by
  induction l with
  | nil => exact List.Pairwise.nil
  | cons a rest ih =>
    cases rest with
    | nil => exact List.pairwise_singleton _ a
    | cons b rest =>
      rw [descends, Bool.or_eq_false_iff, decide_eq_false_iff_not] at h
      have hrest := ih h.2
      refine List.pairwise_cons.mpr ⟨fun x hx => ?_, hrest⟩
      rcases List.mem_cons.mp hx with rfl | hx
      · exact Nat.not_lt.mp h.1
      · exact Nat.le_trans (Nat.not_lt.mp h.1) ((List.pairwise_cons.mp hrest).1 x hx)

/-- Where the bytes of the last row end. -/
def Placement.extent (p : Placement) (stride : Nat) : Option (Nat × Nat) := do
  let right ← (checked (p.x + p.columns.length)).bind fun r => checked (r * 4)
  let last ← (checked (p.y + (p.rows.length - 1))).bind fun r => checked (r * stride)
  let last ← checked (last + right)
  pure (right, last)

/-- The checks of `prepare_placement`. -/
def Geometry.checkPlacement (g : Geometry) (p : Placement) (outputLen stride : Nat) : Except Status Unit :=
  if p.columns.length = 0 ∨ p.rows.length = 0 ∨ maxPlacedWidth < p.columns.length ∨ maxPlacedHeight < p.rows.length then
    .error .invalidDimensions
  else if p.columns.any (g.width ≤ ·) then .error .invalidDimensions
  else if p.rows.any (g.height ≤ ·) || descends p.rows then .error .invalidDimensions
  else
    match p.extent stride with
    | none => .error .outputSize
    | some (right, last) => if stride < right ∨ outputLen < last then .error .outputSize else .ok ()

/-- What an accepted placement is. -/
structure Accepted (g : Geometry) (p : Placement) (outputLen stride : Nat) : Prop where
  columns : ∀ c ∈ p.columns, c < g.width
  rows : ∀ r ∈ p.rows, r < g.height
  sorted : p.rows.Pairwise (· ≤ ·)
  right : (p.x + p.columns.length) * 4 ≤ stride
  bottom : (p.y + (p.rows.length - 1)) * stride + (p.x + p.columns.length) * 4 ≤ outputLen

theorem extent_inv {p : Placement} {stride right last : Nat} (h : p.extent stride = some (right, last)) :
    right = (p.x + p.columns.length) * 4 ∧ last = (p.y + (p.rows.length - 1)) * stride + (p.x + p.columns.length) * 4 := by
  have hchecked : ∀ {n m}, checked n = some m → m = n := by
    intro n m hm
    unfold checked at hm
    split at hm
    · exact (Option.some.inj hm).symm
    · cases hm
  unfold Placement.extent at h
  obtain ⟨r, hr, h⟩ := Option.bind_eq_some_iff.mp h
  obtain ⟨m, hm, h⟩ := Option.bind_eq_some_iff.mp h
  obtain ⟨n, hn, h⟩ := Option.bind_eq_some_iff.mp h
  obtain ⟨r', hr', hr⟩ := Option.bind_eq_some_iff.mp hr
  obtain ⟨m', hm', hm⟩ := Option.bind_eq_some_iff.mp hm
  obtain ⟨rfl, rfl⟩ := Prod.mk.inj (Option.some.inj h)
  obtain rfl := hchecked hr'
  obtain rfl := hchecked hm'
  obtain rfl := hchecked hr
  obtain rfl := hchecked hm
  exact ⟨rfl, hchecked hn⟩

theorem accepted_of_check {g : Geometry} {p : Placement} {outputLen stride : Nat}
    (h : g.checkPlacement p outputLen stride = .ok ()) : Accepted g p outputLen stride := by
  unfold Geometry.checkPlacement at h
  split at h
  · cases h
  · split at h
    · cases h
    · next hcolumns =>
      split at h
      · cases h
      · next hrows =>
        rw [Bool.not_eq_true, Bool.or_eq_false_iff, List.any_eq_false] at hrows
        rw [Bool.not_eq_true, List.any_eq_false] at hcolumns
        split at h
        · cases h
        · next right last hextent =>
          split at h
          · cases h
          · next hfit =>
            obtain ⟨rfl, rfl⟩ := extent_inv hextent
            refine ⟨fun c hc => ?_, fun r hr => ?_, pairwise_of_descends hrows.2, by omega, by omega⟩
            · exact Nat.not_le.mp fun hle => hcolumns c hc (decide_eq_true hle)
            · exact Nat.not_le.mp fun hle => hrows.1 r hr (decide_eq_true hle)

/-- The destination rows of the slices from `i` on, the first of which starts at `first`. -/
def placedFrom (rows : List Nat) : Nat → Nat → Nat → List (Nat × Nat)
  | 0, _, _ => []
  | n + 1, i, first =>
    let y := first + ((rows.drop first).takeWhile (· < (i + 1) * sliceHeight)).length
    (first, y) :: placedFrom rows n (i + 1) y

/-- `prepare_placement`: the rows of each slice, and the capacity of the workers' row
buffers, which `alloc` says can be grown. -/
def Geometry.preparePlacement (g : Geometry) (p : Placement) (outputLen stride capacity : Nat) (alloc : Bool) :
    Except Status (List (Nat × Nat) × Nat) := do
  g.checkPlacement p outputLen stride
  let rowBytes := p.columns.length * 4
  if capacity < rowBytes ∧ alloc = false then throw .workerFailure
  else pure (placedFrom p.rows g.sliceCount 0 0, max capacity rowBytes)

/-- A placement that passes its checks is prepared, memory permitting. -/
theorem preparePlacement_ok {g : Geometry} {p : Placement} {outputLen stride : Nat} (capacity : Nat)
    (h : g.checkPlacement p outputLen stride = .ok ()) : g.preparePlacement p outputLen stride capacity true =
      .ok (placedFrom p.rows g.sliceCount 0 0, max capacity (p.columns.length * 4)) := by
  unfold Geometry.preparePlacement
  rw [h]
  show (if capacity < p.columns.length * 4 ∧ true = false then _ else _) = _
  rw [if_neg fun hfail => Bool.noConfusion hfail.2]
  rfl

end OmtClient.Vmx
