import OmtClient.Common.JsonDoc
import OmtClient.Omt.Target
import OmtClient.Web.Playback

/-!
# The saved target

`save_source` and `read_source` of `crates/omt-web/src/state.rs`, and what the receiver
makes of the saved value: `is_valid_target`, then `resolve` of
`crates/omt-receiver/src/discovery.rs`. The Web side keeps the kind of a target beside it,
the receiver tells the kind from the text. Unicode normalisation is a parameter.

1. `readSource_saveSource`: a saved target reads back as itself.
2. `saved_target_kind_iff`: the receiver takes it for the same kind exactly when it is a
   direct one or its name does not start like an address.
-/

namespace OmtClient.Web.Source

open OmtClient.Lib OmtClient.Common OmtClient.Omt

def sourceLimit : Nat := 1024

/-! ## The file -/

section

variable {F : Type} (dec : Json.Decimal F)

/-- `read_record`; the file is absent or has these bytes. -/
def readRecord (file : Option Bytes) (limit : Nat) (what : String) : Except String (Option (Json.Value F)) := do
  match ← readBounded file limit with
  | none => .ok none
  | some raw =>
    match Json.parse dec raw with
    | .ok root => .ok (some root)
    | .error (.refused e) => .error (what ++ " is invalid JSON: " ++ e)
    | .error .stuck => .error (what ++ " is invalid JSON: ")

/-- `schema`: a non-negative integer of at most 255. -/
def schema (root : Json.Value F) : Option Nat :=
  ((root.get "schema").bind Json.Value.asU64).filter (· ≤ 255)

/-- `optional_str`: a string that may be absent or null; none for another type. -/
def optionalStr (root : Json.Value F) (key : String) : Option (Option String) :=
  match root.get key with
  | none => some none
  | some .null => some none
  | some v => v.asStr.map some

variable (isNormalized : String → Nat → Bool)

/-- The target that a record names. -/
def sourceOf (root : Json.Value F) : Except String SourceTarget :=
  let kind := (root.get "kind").bind Json.Value.asStr
  let name := optionalStr root "name"
  let uri := optionalStr root "uri"
  let shaped := root.asObject.isSome && root.onlyKeys ["schema", "kind", "name", "uri"] &&
    (schema root).isSome && kind.isSome && name.isSome && uri.isSome
  if !shaped then .error "saved OMT target is invalid JSON: unexpected record shape"
  else if schema root ≠ some 1 then .error "saved OMT target has an invalid schema"
  else
    match kind, name.join, uri.join with
    | some "discovered", some name, none =>
      if isValidSourceName isNormalized name then .ok ⟨false, name⟩
      else .error "saved OMT target kind or value is invalid"
    | some "direct", none, some uri =>
      if (parseDirectTarget (utf8 uri)).isOk then .ok ⟨true, uri⟩
      else .error "saved OMT target kind or value is invalid"
    | _, _, _ => .error "saved OMT target kind or value is invalid"

/-- `read_source`. -/
def readSource (file : Option Bytes) : Except String (Option SourceTarget) := do
  match ← readRecord dec file sourceLimit "saved OMT target" with
  | none => .ok none
  | some root => (sourceOf isNormalized root).map some

/-- The kind of a target and the field of its value, as the record spells them. -/
def words (direct : Bool) : String × String := if direct then ("direct", "uri") else ("discovered", "name")

/-- The value of a target is of its kind. -/
def valid (target : SourceTarget) : Bool :=
  if target.direct then (parseDirectTarget (utf8 target.value)).isOk
  else isValidSourceName isNormalized target.value

/-- `save_source`: the bytes of the file that it writes. -/
def saveSource (target : SourceTarget) : Except String Bytes :=
  if !valid isNormalized target then .error "invalid OMT target kind or value"
  else
    let out := utf8 ("\x7b\"schema\":1,\"kind\":\"" ++ (words target.direct).1 ++ "\",\"" ++
        (words target.direct).2 ++ "\":") ++
      Json.writeString target.value ++ utf8 "\x7d\n"
    if sourceLimit < out.length then .error "replacement exceeds its size limit" else .ok out

end

/-! ## The receiver -/

/-- How the receiver finds a target: it dials an address, or looks up a name. -/
inductive Lookup
  | dial (t : DirectTarget)
  | discover (name : String)
  deriving DecidableEq, Repr

def Lookup.direct : Lookup → Bool
  | .dial _ => true
  | .discover _ => false

section

variable (isNormalized : String → Nat → Bool)

/-- `resolve`, up to the discovery. -/
def resolve (target : String) : Option Lookup :=
  match parseDirectTarget (utf8 target) with
  | .ok t => some (.dial t)
  | .error _ =>
    if scheme.isPrefixOf (utf8 target) || !isValidSourceName isNormalized target then none
    else some (.discover target)

/-- The receiver accepts the value of a target, and takes it for its kind. -/
def TakenAsSaved (target : SourceTarget) : Prop :=
  isValidTarget isNormalized target.value = true ∧
    ∃ found, resolve isNormalized target.value = some found ∧ found.direct = target.direct

end

/-! ## Saving and reading back -/

namespace SourceLemmas

variable {isNormalized : String → Nat → Bool} {value : String}

theorem nulFree_name (h : isValidSourceName isNormalized value = true) : PlaybackLemmas.nulFree value = true := by
  rw [PlaybackLemmas.nulFree, Bool.not_eq_true']
  unfold isValidSourceName at h
  split at h
  · cases h
  split at h
  · cases h
  split at h
  · cases h
  next hallowed =>
  by_contra hnul
  have hmem : '\x00' ∈ value.toList := by simpa using hnul
  exact hallowed (List.any_eq_true.mpr ⟨_, hmem, by decide⟩)

theorem isOk_iff {α ε : Type} {r : Except ε α} : r.isOk = true ↔ ∃ a, r = .ok a := by
  cases r with
  | error e => exact ⟨fun h => (nomatch h), fun ⟨_, h⟩ => (nomatch h)⟩
  | ok a => exact ⟨fun _ => ⟨a, rfl⟩, fun _ => rfl⟩

theorem nulFree_direct (h : (parseDirectTarget (utf8 value)).isOk = true) : PlaybackLemmas.nulFree value = true := by
  obtain ⟨t, ht⟩ := (isOk_iff).mp h
  obtain ⟨auth, hvalue, hplain⟩ := parseDirectTarget_scheme ht
  rw [PlaybackLemmas.nulFree, Bool.not_eq_true']
  by_contra hnul
  have hmem : '\x00' ∈ value.toList := by simpa using hnul
  have hzero : (0 : Byte) ∈ utf8 value := by
    rw [utf8_eq]
    exact List.mem_flatMap.mpr ⟨_, hmem, by decide⟩
  rw [hvalue, List.mem_append] at hzero
  rcases hzero with hscheme | hauth
  · exact absurd hscheme (by decide)
  · exact absurd (hplain 0 hauth) (by decide)

theorem document_eq (direct : Bool) (value : String) :
    utf8 ("\x7b\"schema\":1,\"kind\":\"" ++ (words direct).1 ++ "\",\"" ++ (words direct).2 ++ "\":") ++
        Json.writeString value ++ utf8 "\x7d\n" =
      Json.recordBytes [("schema", numeral 10 1), ("kind", Json.writeString (words direct).1),
        ((words direct).2, Json.writeString value)] ++ [10] := by
  have hopen : utf8 ("\x7b\"schema\":1,\"kind\":\"" ++ (words direct).1 ++ "\",\"" ++ (words direct).2 ++ "\":") =
      123 :: (Json.writeString "schema" ++ 58 :: (numeral 10 1 ++ 44 :: (Json.writeString "kind" ++
        58 :: (Json.writeString (words direct).1 ++ 44 :: (Json.writeString (words direct).2 ++ [58]))))) := by
    cases direct <;> decide
  have hclose : utf8 "\x7d\n" = [125, 10] := by decide
  rw [hopen, hclose, Json.recordBytes, List.map_cons, List.map_cons, List.map_cons, List.map_nil,
    List.intercalate_cons_cons, List.intercalate_cons_cons, List.intercalate_singleton]
  simp only [List.append_assoc, List.cons_append, List.nil_append]

variable {F : Type} (dec : Json.Decimal F)

theorem parse_document (direct : Bool) (value : String) :
    ∃ one, Json.parse dec (Json.recordBytes [("schema", numeral 10 1), ("kind", Json.writeString (words direct).1),
        ((words direct).2, Json.writeString value)] ++ [10]) =
      .ok (.object [("schema", .number ⟨true, false, some 1, one⟩), ("kind", .string (words direct).1),
        ((words direct).2, .string value)]) := by
  obtain ⟨one, hone⟩ := Json.written_number dec (show 1 < 2 ^ 64 by decide)
  refine ⟨one, (@Json.parse_written _ _ 1) ?_ (by decide)⟩
  refine Json.written_record [⟨"schema", _, _⟩, ⟨"kind", _, .string (words direct).1⟩,
    ⟨(words direct).2, _, .string value⟩] (fun f hf => ?_) ?_
  swap
  · show ["schema", "kind", (words direct).2].Nodup
    cases direct <;> decide
  simp only [List.mem_cons, List.not_mem_nil, or_false] at hf
  rcases hf with rfl | rfl | rfl
  · exact hone
  · exact Json.written_text _
  · exact Json.written_text _

/-- The record of a valid target names it. -/
theorem sourceOf_document {target : SourceTarget} (one : F) (hvalid : valid isNormalized target = true) :
    sourceOf isNormalized (.object [("schema", .number ⟨true, false, some 1, one⟩),
      ("kind", .string (words target.direct).1), ((words target.direct).2, .string target.value)]) = .ok target := by
  obtain ⟨direct, value⟩ := target
  have hstr (hnul : PlaybackLemmas.nulFree value = true) :
      (Json.Value.string value : Json.Value F).asStr = some value := by
    rw [PlaybackLemmas.asStr_string, if_pos hnul]
  cases direct with
  | true =>
    have huri : optionalStr (.object [("schema", .number ⟨true, false, some 1, one⟩), ("kind", .string "direct"),
        ("uri", .string value)]) "uri" = some (some value) :=
      congrArg (Option.map some) (hstr (nulFree_direct hvalid))
    show sourceOf isNormalized (.object [("schema", .number ⟨true, false, some 1, one⟩), ("kind", .string "direct"),
      ("uri", .string value)]) = _
    unfold sourceOf
    dsimp only
    rw [huri]
    exact if_pos hvalid
  | false =>
    have hname : optionalStr (.object [("schema", .number ⟨true, false, some 1, one⟩),
        ("kind", .string "discovered"), ("name", .string value)]) "name" = some (some value) :=
      congrArg (Option.map some) (hstr (nulFree_name hvalid))
    show sourceOf isNormalized (.object [("schema", .number ⟨true, false, some 1, one⟩),
      ("kind", .string "discovered"), ("name", .string value)]) = _
    unfold sourceOf
    dsimp only
    rw [hname]
    exact if_pos hvalid

end SourceLemmas

open SourceLemmas

section

variable {F : Type} (dec : Json.Decimal F) {isNormalized : String → Nat → Bool} {target : SourceTarget} {file : Bytes}

/-- What a saved target is. -/
theorem saveSource_ok (h : saveSource isNormalized target = .ok file) :
    valid isNormalized target = true ∧ file.length ≤ sourceLimit ∧
      file = Json.recordBytes [("schema", numeral 10 1), ("kind", Json.writeString (words target.direct).1),
      ((words target.direct).2, Json.writeString target.value)] ++ [10] := by
  unfold saveSource at h
  dsimp only at h
  split at h
  · cases h
  next hvalid =>
  split at h
  · cases h
  next hsize =>
  cases h
  refine ⟨by simpa using hvalid, Nat.not_lt.mp hsize, ?_⟩
  exact document_eq target.direct target.value

/-- A saved target reads back as itself. -/
theorem readSource_saveSource (h : saveSource isNormalized target = .ok file) :
    readSource dec isNormalized (some file) = .ok (some target) := by
  obtain ⟨hvalid, hsize, hfile⟩ := saveSource_ok h
  obtain ⟨one, hparse⟩ := parse_document dec target.direct target.value
  have hrecord : readRecord dec (some file) sourceLimit "saved OMT target" =
      .ok (some (.object [("schema", .number ⟨true, false, some 1, one⟩), ("kind", .string (words target.direct).1),
        ((words target.direct).2, .string target.value)])) := by
    rw [readRecord, readBounded, if_neg (Nat.not_lt.mpr hsize)]
    dsimp only [bind, Except.bind]
    rw [hfile, hparse]
  have hsource : sourceOf isNormalized (.object [("schema", .number ⟨true, false, some 1, one⟩),
      ("kind", .string (words target.direct).1), ((words target.direct).2, .string target.value)]) = .ok target :=
    sourceOf_document one hvalid
  rw [readSource, hrecord]
  dsimp only [bind, Except.bind]
  rw [hsource]
  rfl

/-- **The kind that is saved is the kind that is played.** For every target that is saved,
the file reads back as the target, and the receiver accepts the value and takes it for the
same kind, exactly when the target is a direct one or its name does not start with the
scheme of an address. -/
theorem saved_target_kind_iff (h : saveSource isNormalized target = .ok file) :
    (readSource dec isNormalized (some file) = .ok (some target) ∧ TakenAsSaved isNormalized target) ↔
      (target.direct = true ∨ scheme.isPrefixOf (utf8 target.value) = false) := by
  have hread := readSource_saveSource dec h
  obtain ⟨hvalid, _, _⟩ := saveSource_ok h
  obtain ⟨direct, value⟩ := target
  unfold TakenAsSaved isValidTarget resolve
  cases direct with
  | true =>
    obtain ⟨t, ht⟩ := isOk_iff.mp hvalid
    obtain ⟨auth, hvalue, _⟩ := parseDirectTarget_scheme ht
    have hstarts : scheme.isPrefixOf (utf8 value) = true := by
      rw [hvalue]
      exact List.isPrefixOf_iff_prefix.mpr (List.prefix_append _ _)
    rw [if_pos hstarts, ht]
    exact ⟨fun _ => .inl rfl, fun _ => ⟨hread, rfl, _, rfl, rfl⟩⟩
  | false =>
    constructor
    · rintro ⟨_, haccepted, found, hfound, hkind⟩
      refine .inr (Bool.eq_false_iff.mpr fun hstarts => ?_)
      -- a name that starts like an address is dialled or refused
      rw [if_pos hstarts] at haccepted
      obtain ⟨t, ht⟩ := isOk_iff.mp haccepted
      dsimp only at hfound
      rw [ht] at hfound
      cases hfound
      cases hkind
    · rintro (hdirect | hname)
      · cases hdirect
      · have hnone : ∃ e, parseDirectTarget (utf8 value) = .error e := by
          cases hparse : parseDirectTarget (utf8 value) with
          | error e => exact ⟨e, rfl⟩
          | ok t =>
            obtain ⟨auth, hvalue, _⟩ := parseDirectTarget_scheme hparse
            rw [hvalue, List.isPrefixOf_iff_prefix.mpr (List.prefix_append _ _)] at hname
            cases hname
        obtain ⟨e, he⟩ := hnone
        dsimp only
        rw [hname, he, if_neg Bool.false_ne_true]
        have hsource : isValidSourceName isNormalized value = true := hvalid
        dsimp only
        rw [hsource]
        exact ⟨hread, rfl, _, rfl, rfl⟩

end

/-! ## Two cameras -/

/-- Normalisation as far as ASCII goes: every such text is normalised. -/
def asciiNormalized (value : String) (limit : Nat) : Bool :=
  (utf8 value).length ≤ limit && (utf8 value).all (· < 128)

theorem camera_kind_kept :
    (readSource wholeDecimal asciiNormalized (some (utf8 "\x7b\"schema\":1,\"kind\":\"discovered\",\"name\":\"Camera\"\x7d\n")) =
        .ok (some ⟨false, "Camera"⟩) ∧ TakenAsSaved asciiNormalized ⟨false, "Camera"⟩) ↔
      ((⟨false, "Camera"⟩ : SourceTarget).direct = true ∨ scheme.isPrefixOf (utf8 "Camera") = false) :=
  (@saved_target_kind_iff _ wholeDecimal _ ⟨false, "Camera"⟩) (by decide +kernel)

/-- A camera whose name starts like an address is saved as discovered; the receiver refuses
it, and one whose name is an address is dialled. -/
theorem scheme_name_not_kept :
    (saveSource asciiNormalized ⟨false, "omt://cam"⟩ =
        .ok (utf8 "\x7b\"schema\":1,\"kind\":\"discovered\",\"name\":\"omt://cam\"\x7d\n") ∧
      isValidTarget asciiNormalized "omt://cam" = false) ∧
    saveSource asciiNormalized ⟨false, "omt://cam:6400"⟩ =
        .ok (utf8 "\x7b\"schema\":1,\"kind\":\"discovered\",\"name\":\"omt://cam:6400\"\x7d\n") ∧
      resolve asciiNormalized "omt://cam:6400" = some (.dial ⟨utf8 "cam", 6400⟩) := by
  decide +kernel

end OmtClient.Web.Source
