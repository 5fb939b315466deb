import OmtClient.Common.Buf
import OmtClient.Lib.Text

/-!
# The decode ceiling

`crates/omt-receiver-core/src/ceiling.rs`: the receiver reads its ceiling from the
text the Web frontend saved, `WIDTHxHEIGHT@FPS[,...]`. Texts are their UTF-8
bytes.

1. `shape_eq_ok`: which field is a shape, and of what size.
2. `parse_eq_ok`: which text is a ceiling.
-/

namespace OmtClient.Receiver.Ceiling

open OmtClient.Lib OmtClient.Common

def ceilingMaxShapes : Nat := 4
def ceilingMaxWidth : Nat := 1920
def ceilingMaxHeight : Nat := 1080
def ceilingMaxFps : Nat := 60
def ceilingMinDimension : Nat := 16

structure Shape where
  width : Nat
  height : Nat
  fps : Nat
  deriving DecidableEq, Repr

/-- `number`: digits only, with no leading zero. -/
def number (s : Bytes) : Option Nat :=
  if s = [] ∨ 4 < s.length ∨ s.head? = some 48 then none else parseU64 s 9999

/-- The width, height and rate of a field, cut at the first `@` and then at the first
`x` before it. -/
def cut (field : Bytes) : Option (Bytes × Bytes × Bytes) := do
  let (size, fps) ← splitOnce 64 field
  let (w, h) ← splitOnce 120 size
  some (w, h, fps)

/-- `shape`. -/
def shape (field : Bytes) : Except Bytes Shape :=
  let parsed := do
    let (w, h, fps) ← cut field
    some { width := ← number w, height := ← number h, fps := ← number fps : Shape }
  match parsed with
  | none => .error (utf8 "Invalid video ceiling: " ++ field ++ utf8 ". Expected WIDTHxHEIGHT@FPS.")
  | some s =>
    if ¬ (ceilingMinDimension ≤ s.width ∧ s.width ≤ ceilingMaxWidth) ∨
        ¬ (ceilingMinDimension ≤ s.height ∧ s.height ≤ ceilingMaxHeight) ∨
        ¬ (1 ≤ s.fps ∧ s.fps ≤ ceilingMaxFps) then
      .error (utf8 "Video ceiling " ++ field ++ utf8 " is outside the supported " ++
        numeral 10 ceilingMaxWidth ++ utf8 "x" ++ numeral 10 ceilingMaxHeight ++ utf8 " at " ++
        numeral 10 ceilingMaxFps ++ utf8 " fps maximum.")
    else .ok s

/-- The loop of `VideoCeiling::parse` over the fields that are left. -/
def parseFields (shapes : List Shape) : List Bytes → Except Bytes (List Shape)
  | [] => .ok shapes
  | field :: rest =>
    if shapes.length = ceilingMaxShapes then
      .error (utf8 "A video ceiling may list at most " ++ numeral 10 ceilingMaxShapes ++
        utf8 " resolutions.")
    else do
      let s ← shape field
      parseFields (shapes ++ [s]) rest

/-- `VideoCeiling::parse`: the shapes of a ceiling. -/
def parse (text : Bytes) : Except Bytes (List Shape) := parseFields [] (text.splitOn 44)

/-- `VideoCeiling::describe`. -/
def describe (shapes : List Shape) : Bytes :=
  (utf8 ", or ").intercalate (shapes.map fun s =>
    numeral 10 s.width ++ utf8 "x" ++ numeral 10 s.height ++ utf8 " at " ++ numeral 10 s.fps ++
      utf8 " fps")

namespace CeilingLemmas

theorem number_eq_some {s : Bytes} {v : Nat} :
    number s = some v ↔ s ≠ [] ∧ s.length ≤ 4 ∧ s.head? ≠ some 48 ∧ s.all isAsciiDigit = true ∧
      decimal s = v := by
  rw [number]
  split
  · next h =>
    constructor
    · intro hno
      cases hno
    · rintro ⟨hne, hlen, hzero, -⟩
      rcases h with h | h | h
      · exact absurd h hne
      · exact absurd h (Nat.not_lt.mpr hlen)
      · exact absurd h hzero
  · next h =>
    rw [not_or, not_or, Nat.not_lt] at h
    rw [parseU64_eq_some (by decide)]
    constructor
    · rintro ⟨-, hall, -, heq⟩
      exact ⟨h.1, h.2.1, h.2.2, hall, heq⟩
    · rintro ⟨hne, hlen, -, hall, heq⟩
      have hlt := decimal_lt hall
      have hpow : 10 ^ s.length ≤ 10 ^ 4 := Nat.pow_le_pow_right (by decide) hlen
      exact ⟨hne, hall, by omega, heq⟩

end CeilingLemmas

open CeilingLemmas

/-- Which field is a shape: three numbers with no leading zero, in their ranges. -/
theorem shape_eq_ok {field : Bytes} {s : Shape} :
    shape field = .ok s ↔ ∃ w h fps, cut field = some (w, h, fps) ∧ number w = some s.width ∧
      number h = some s.height ∧ number fps = some s.fps ∧ 16 ≤ s.width ∧ s.width ≤ 1920 ∧
      16 ≤ s.height ∧ s.height ≤ 1080 ∧ 1 ≤ s.fps ∧ s.fps ≤ 60 := by
  unfold shape
  cases hcut : cut field with
  | none => simp
  | some parts =>
    obtain ⟨w, h, fps⟩ := parts
    cases hw : number w with
    | none => simp [hw]
    | some width =>
      cases hh : number h with
      | none => simp [hw, hh]
      | some height =>
        cases hf : number fps with
        | none => simp [hw, hh, hf]
        | some rate =>
          simp only [Option.bind_eq_bind, Option.bind_some, hw, hh, hf]
          constructor
          · intro hok
            by_cases hrange : (16 ≤ width ∧ width ≤ 1920) ∧ (16 ≤ height ∧ height ≤ 1080) ∧
                1 ≤ rate ∧ rate ≤ 60
            · rw [if_neg (by rw [not_or, not_or, not_not, not_not, not_not]; exact hrange)] at hok
              cases hok
              obtain ⟨⟨h1, h2⟩, ⟨h3, h4⟩, h5, h6⟩ := hrange
              exact ⟨w, h, fps, rfl, hw, hh, hf, h1, h2, h3, h4, h5, h6⟩
            · rw [if_pos (by rw [← not_and_or, ← not_and_or]; exact hrange)] at hok
              cases hok
          · rintro ⟨w', h', fps', hparts, hw', hh', hf', h1, h2, h3, h4, h5, h6⟩
            cases hparts
            cases Option.some.inj (hw.symm.trans hw')
            cases Option.some.inj (hh.symm.trans hh')
            cases Option.some.inj (hf.symm.trans hf')
            rw [if_neg]
            rw [not_or, not_or, not_not, not_not, not_not]
            exact ⟨⟨h1, h2⟩, ⟨h3, h4⟩, h5, h6⟩

/-- Which fields are read after some shapes: those that are shapes, and no more than fit. -/
theorem parseFields_eq_ok {fields : List Bytes} {shapes out : List Shape}
    (hfew : shapes.length ≤ ceilingMaxShapes) :
    parseFields shapes fields = .ok out ↔
      ∃ more, out = shapes ++ more ∧ out.length ≤ ceilingMaxShapes ∧
        List.Forall₂ (fun f s => shape f = .ok s) fields more := by
  induction fields generalizing shapes with
  | nil =>
    rw [parseFields]
    constructor
    · intro h
      cases h
      exact ⟨[], (List.append_nil _).symm, hfew, .nil⟩
    · rintro ⟨more, rfl, -, hall⟩
      cases hall
      rw [List.append_nil]
  | cons f fields ih =>
    rw [parseFields]
    split
    · next hfull =>
      constructor
      · intro h
        cases h
      · rintro ⟨more, rfl, hlen, hall⟩
        cases hall with
        | cons _ _ =>
          rw [List.length_append, List.length_cons, hfull] at hlen
          omega
    · next hroom =>
      have hless : shapes.length < ceilingMaxShapes := Nat.lt_of_le_of_ne hfew hroom
      cases hf : shape f with
      | error e =>
        constructor
        · intro h
          cases h
        · rintro ⟨more, -, -, hall⟩
          cases hall with
          | cons hs _ => cases hf.symm.trans hs
      | ok s =>
        show parseFields (shapes ++ [s]) fields = .ok out ↔ _
        rw [ih (by rw [List.length_append]; exact hless)]
        constructor
        · rintro ⟨more, rfl, hlen, hall⟩
          exact ⟨s :: more, by rw [List.append_assoc]; rfl, hlen, .cons hf hall⟩
        · rintro ⟨more, rfl, hlen, hall⟩
          cases hall with
          | @cons _ s' _ more hs hrest =>
            cases hf.symm.trans hs
            exact ⟨more, by rw [List.append_assoc]; rfl, hlen, hrest⟩

/-- Which text is a ceiling: at most four fields, each a shape. -/
theorem parse_eq_ok {text : Bytes} {shapes : List Shape} :
    parse text = .ok shapes ↔ shapes.length ≤ ceilingMaxShapes ∧
      List.Forall₂ (fun f s => shape f = .ok s) (text.splitOn 44) shapes := by
  rw [parse, parseFields_eq_ok (Nat.zero_le _)]
  constructor
  · rintro ⟨more, rfl, hlen, hall⟩
    exact ⟨hlen, hall⟩
  · rintro ⟨hlen, hall⟩
    exact ⟨shapes, rfl, hlen, hall⟩

end OmtClient.Receiver.Ceiling
