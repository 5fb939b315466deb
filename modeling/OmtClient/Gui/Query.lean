import OmtClient.Lib.Numeral
import OmtClient.Lib.Utf8

/-!
# Percent-decoding of the deployer

`percent_decode` of `crates/rpi-omt-deploy-gui/src/http.rs`. The two digits of an escape are read by
the number parser of the standard library, which also takes a sign.

1. `percent_agrees`: which texts are decoded by the rules, and that encoded paths are.
2. `sign_accepted`: an escape with a sign.
-/

namespace OmtClient.Gui.Http

open OmtClient.Lib

/-- `u8::from_str_radix` on hexadecimal digits. -/
def fromStrRadix16 (src : Bytes) : Option Byte :=
  if src = [] ∨ src = [43] ∨ src = [45] then none
  else
    let digits := if src.head? = some 43 then src.tail else src
    (valueFrom 16 0 digits).bind fun v => if v < 256 then some (UInt8.ofNat v) else none

/-- The loop of `percent_decode`. -/
def percentBytes : Bytes → Option Bytes
  | [] => some []
  | 37 :: a :: b :: rest =>
    (ofUtf8 [a, b]).bind fun hex => (fromStrRadix16 (utf8 hex)).bind fun v => (percentBytes rest).map (v :: ·)
  | 37 :: _ => none
  | 43 :: rest => (percentBytes rest).map (32 :: ·)
  | c :: rest => (percentBytes rest).map (c :: ·)

def percentDecode (text : String) : Option String := (percentBytes (utf8 text)).bind ofUtf8

/-! ## The rules -/

/-- What a text stands for: an escape is two hexadecimal digits, and a plus sign is a space. -/
inductive Decodes : Bytes → Bytes → Prop
  | nil : Decodes [] []
  | escape (hi lo : Byte) (h l : Nat) {rest out : Bytes} (hhi : toDigit 16 hi = some h) (hlo : toDigit 16 lo = some l)
      (hrest : Decodes rest out) : Decodes (37 :: hi :: lo :: rest) (UInt8.ofNat (h * 16 + l) :: out)
  | space {rest out : Bytes} (hrest : Decodes rest out) : Decodes (43 :: rest) (32 :: out)
  | plain (c : Byte) {rest out : Bytes} (hpercent : c ≠ 37) (hplus : c ≠ 43) (hrest : Decodes rest out) :
      Decodes (c :: rest) (c :: out)

/-- The text with the sign of an escape taken for a zero. -/
def unsigned : Bytes → Bytes
  | 37 :: a :: b :: rest =>
    37 :: (if a = 43 ∧ (toDigit 16 b).isSome then 48 else a) :: b :: unsigned rest
  | c :: rest => c :: unsigned rest
  | [] => []

/-- The digit that escapes are written with. -/
def hexChar (d : Nat) : Char := d.digitChar.toUpper

/-- A character as it is written: itself if it may stay, or the escapes of its bytes. -/
def percentChar (keep : Char → Bool) (c : Char) : List Char :=
  if keep c ∧ c ≠ '%' ∧ c ≠ '+' then [c]
  else (encode c).flatMap fun b => ['%', hexChar (b.toNat / 16), hexChar (b.toNat % 16)]

/-- The percent-encoding of a text that leaves some characters as they are. -/
def percentEncode (keep : Char → Bool) (text : String) : String :=
  String.ofList (text.toList.flatMap (percentChar keep))

namespace QueryLemmas

variable {a b out out' t : Bytes} {hi lo : Byte}

/-! ### The number parser -/

theorem toDigit_sign : toDigit 16 43 = none ∧ toDigit 16 45 = none ∧ toDigit 16 48 = some 0 := by decide

/-- Digits are ASCII characters, and those that escapes are written with are read as what they stand for. -/
theorem digit_tables : (∀ n, n < 256 → ¬ (UInt8.ofNat n).toNat < 128 → toDigit 16 (UInt8.ofNat n) = none) ∧
    ∀ d, d < 16 → (hexChar d).toNat < 128 ∧ toDigit 16 (UInt8.ofNat (hexChar d).toNat) = some d := by
  decide +kernel

theorem toDigit_ascii {d : Nat} (h : toDigit 16 hi = some d) : hi.toNat < 128 := by
  revert d
  refine forall_byte (P := fun hi => ∀ {d : Nat}, toDigit 16 hi = some d → hi.toNat < 128) (fun n hn d h => ?_) hi
  by_contra hhigh
  rw [digit_tables.1 n hn hhigh] at h
  cases h

/-- Two bytes are a number when they are two digits, or a plus sign and a digit. -/
theorem fromStrRadix16_two (hi lo : Byte) :
    fromStrRadix16 [hi, lo] = if hi = 43 then (toDigit 16 lo).map UInt8.ofNat
      else (toDigit 16 hi).bind fun h => (toDigit 16 lo).map fun l => UInt8.ofNat (h * 16 + l) := by
  rw [fromStrRadix16, if_neg (by simp)]
  have hsmall : ∀ h l, h < 16 → l < 16 → h * 16 + l < 256 := fun h l hh hl => by omega
  by_cases hsign : hi = 43
  · subst hsign
    dsimp only
    rw [List.head?_cons, List.tail_cons, if_pos rfl, if_pos rfl, valueFrom_cons]
    cases hlo : toDigit 16 lo with
    | none => rfl
    | some l =>
      rw [Option.bind_some, valueFrom_nil, Option.bind_some, if_pos (by have := toDigit_lt hlo; omega), Nat.zero_mul,
        Nat.zero_add]
      rfl
  · dsimp only
    rw [if_neg (by simpa using hsign), if_neg hsign, valueFrom_cons]
    cases hhi : toDigit 16 hi with
    | none => rfl
    | some h =>
      rw [Option.bind_some, Option.bind_some, valueFrom_cons]
      cases hlo : toDigit 16 lo with
      | none => rfl
      | some l =>
        rw [Option.bind_some, valueFrom_nil, Option.bind_some, Nat.zero_mul, Nat.zero_add,
          if_pos (hsmall h l (toDigit_lt hhi) (toDigit_lt hlo))]
        rfl

/-- A plus sign before a digit is read as a zero. -/
theorem fromStrRadix16_unsigned (hi lo : Byte) :
    fromStrRadix16 [hi, lo] =
      (toDigit 16 (if hi = 43 ∧ (toDigit 16 lo).isSome then 48 else hi)).bind fun h =>
        (toDigit 16 lo).map fun l => UInt8.ofNat (h * 16 + l) := by
  obtain ⟨hplus, _, hzero⟩ := toDigit_sign
  rw [fromStrRadix16_two]
  split
  next hsign =>
    cases hlo : toDigit 16 lo with
    | none => exact (Option.bind_none _).symm.trans (by cases toDigit 16 _ <;> rfl)
    | some l =>
      rw [if_pos ⟨hsign, rfl⟩, hzero, Option.bind_some, Option.map_some, Option.map_some, Nat.zero_mul, Nat.zero_add]
  next hsign => rw [if_neg fun h => hsign h.1]

/-- What the parser takes are ASCII characters. -/
theorem escape_read (hi lo : Byte) :
    ((ofUtf8 [hi, lo]).bind fun hex => fromStrRadix16 (utf8 hex)) = fromStrRadix16 [hi, lo] := by
  cases hread : fromStrRadix16 [hi, lo] with
  | none =>
    cases hhex : ofUtf8 [hi, lo] with
    | none => rfl
    | some hex =>
      rw [Option.bind_some, utf8_of_ofUtf8 hhex, hread]
  | some v =>
    have hascii : ∀ b ∈ [hi, lo], b.toNat < 128 := by
      rw [fromStrRadix16_two] at hread
      have hlo : ∀ {l}, toDigit 16 lo = some l → lo.toNat < 128 := toDigit_ascii
      simp only [List.mem_cons, List.not_mem_nil, or_false, forall_eq_or_imp, forall_eq]
      split at hread
      next hsign =>
        obtain ⟨l, hl, _⟩ := Option.map_eq_some_iff.mp hread
        exact ⟨hsign ▸ (by decide), toDigit_ascii hl⟩
      · obtain ⟨h, hh, hread⟩ := Option.bind_eq_some_iff.mp hread
        obtain ⟨l, hl, _⟩ := Option.map_eq_some_iff.mp hread
        exact ⟨toDigit_ascii hh, toDigit_ascii hl⟩
    obtain ⟨hex, hhex⟩ := Option.isSome_iff_exists.mp (isSome_ofUtf8 (valid_ascii hascii))
    rw [hhex, Option.bind_some, utf8_of_ofUtf8 hhex, hread]

/-! ### The loop -/

theorem percentBytes_escape (hi lo : Byte) (rest : Bytes) :
    percentBytes (37 :: hi :: lo :: rest) =
      (fromStrRadix16 [hi, lo]).bind fun v => (percentBytes rest).map (v :: ·) := by
  rw [← escape_read, Option.bind_assoc]
  rfl

theorem percentBytes_cut (h : t.length < 2) : percentBytes (37 :: t) = none := by
  match t, h with
  | [], _ => rfl
  | [_], _ => rfl

theorem percentBytes_plain {c : Byte} (hpercent : c ≠ 37) (hplus : c ≠ 43) (rest : Bytes) :
    percentBytes (c :: rest) = (percentBytes rest).map (c :: ·) := by
  rw [percentBytes]
  · exact fun _ _ _ h => absurd h hpercent
  · exact hpercent
  · exact hplus

theorem percentBytes_plus (rest : Bytes) : percentBytes (43 :: rest) = (percentBytes rest).map (32 :: ·) := rfl

theorem unsigned_escape (hi lo : Byte) (rest : Bytes) : unsigned (37 :: hi :: lo :: rest) =
    37 :: (if hi = 43 ∧ (toDigit 16 lo).isSome then 48 else hi) :: lo :: unsigned rest := rfl

theorem unsigned_plain {c : Byte} (hpercent : c ≠ 37) (rest : Bytes) : unsigned (c :: rest) = c :: unsigned rest := by
  rw [unsigned]
  exact fun _ _ _ h => absurd h hpercent

theorem unsigned_cut (h : t.length < 2) : unsigned (37 :: t) = 37 :: unsigned t ∧ (unsigned t).length = t.length := by
  match t, h with
  | [], _ => exact ⟨rfl, rfl⟩
  | [c], _ =>
    refine ⟨rfl, ?_⟩
    by_cases hpercent : c = 37
    · rw [hpercent]
      rfl
    · rw [unsigned_plain hpercent]
      rfl

theorem Decodes.cut (h : t.length < 2) : ¬ Decodes (37 :: t) out := by
  intro hd
  cases hd with
  | escape hi lo => exact absurd h (by simp)
  | plain c hpercent => exact hpercent rfl

theorem Decodes.nil_iff : Decodes [] out ↔ out = [] := by
  constructor
  · intro h
    cases h
    rfl
  · rintro rfl
    exact .nil

theorem Decodes.escape_iff : Decodes (37 :: hi :: lo :: t) out ↔
    ∃ h l out', toDigit 16 hi = some h ∧ toDigit 16 lo = some l ∧ UInt8.ofNat (h * 16 + l) :: out' = out ∧
      Decodes t out' := by
  constructor
  · intro hd
    cases hd with
    | escape _ _ h l hhi hlo hrest => exact ⟨h, l, _, hhi, hlo, rfl, hrest⟩
    | plain _ hpercent => exact absurd rfl hpercent
  · rintro ⟨h, l, out', hhi, hlo, rfl, hrest⟩
    exact .escape hi lo h l hhi hlo hrest

theorem Decodes.plus_iff : Decodes (43 :: t) out ↔ ∃ out', 32 :: out' = out ∧ Decodes t out' := by
  constructor
  · intro hd
    cases hd with
    | space hrest => exact ⟨_, rfl, hrest⟩
    | plain _ _ hplus => exact absurd rfl hplus
  · rintro ⟨out', rfl, hrest⟩
    exact .space hrest

theorem Decodes.plain_iff {c : Byte} (hpercent : c ≠ 37) (hplus : c ≠ 43) :
    Decodes (c :: t) out ↔ ∃ out', c :: out' = out ∧ Decodes t out' := by
  constructor
  · intro hd
    cases hd with
    | escape => exact absurd rfl hpercent
    | space => exact absurd rfl hplus
    | plain _ _ _ hrest => exact ⟨_, rfl, hrest⟩
  · rintro ⟨out', rfl, hrest⟩
    exact .plain c hpercent hplus hrest

/-- The loop decodes by the rules, but for the signs. -/
theorem percentBytes_iff (t out : Bytes) : percentBytes t = some out ↔ Decodes (unsigned t) out := by
  induction t using percentBytes.induct generalizing out with
  | case1 => exact ((Decodes.nil_iff).trans ⟨fun h => congrArg some h.symm, fun h => (Option.some.inj h).symm⟩).symm
  | case2 a b rest ih =>
    rw [percentBytes_escape, fromStrRadix16_unsigned, unsigned_escape, Decodes.escape_iff]
    simp only [Option.bind_eq_some_iff, Option.map_eq_some_iff, ih]
    constructor
    · rintro ⟨v, ⟨h, hhi, l, hlo, rfl⟩, out', hrest, rfl⟩
      exact ⟨h, l, out', hhi, hlo, rfl, hrest⟩
    · rintro ⟨h, l, out', hhi, hlo, rfl, hrest⟩
      exact ⟨_, ⟨h, hhi, l, hlo, rfl⟩, out', hrest, rfl⟩
  | case3 rest hshort =>
    have hlen : rest.length < 2 := by
      match rest, hshort with
      | [], _ => exact Nat.zero_lt_two
      | [_], _ => exact Nat.one_lt_two
      | a :: b :: rest, h => exact (h a b rest rfl).elim
    obtain ⟨hcut, hlength⟩ := unsigned_cut hlen
    rw [percentBytes_cut hlen, hcut]
    exact ⟨fun h => (by cases h), fun h => (Decodes.cut (hlength ▸ hlen) h).elim⟩
  | case4 rest ih =>
    rw [unsigned_plain (by decide), Decodes.plus_iff, percentBytes_plus]
    simp only [Option.map_eq_some_iff, ih]
    constructor
    · rintro ⟨out', hrest, rfl⟩
      exact ⟨out', rfl, hrest⟩
    · rintro ⟨out', rfl, hrest⟩
      exact ⟨out', hrest, rfl⟩
  | case5 c rest _ hpercent hplus ih =>
    rw [unsigned_plain hpercent, Decodes.plain_iff hpercent hplus, percentBytes_plain hpercent hplus]
    simp only [Option.map_eq_some_iff, ih]
    constructor
    · rintro ⟨out', hrest, rfl⟩
      exact ⟨out', rfl, hrest⟩
    · rintro ⟨out', rfl, hrest⟩
      exact ⟨out', hrest, rfl⟩

/-- A text that is decoded by the rules has no signs. -/
theorem unsigned_of_decodes (h : Decodes t out) : unsigned t = t := by
  obtain ⟨hplus, _, _⟩ := toDigit_sign
  induction h with
  | nil => rfl
  | escape hi lo h l hhi hlo _ ih =>
    have hsign : hi ≠ 43 := by
      rintro rfl
      rw [hplus] at hhi
      cases hhi
    rw [unsigned_escape, if_neg fun h => hsign h.1, ih]
  | space _ ih => rw [unsigned_plain (by decide), ih]
  | plain c hpercent _ _ ih => rw [unsigned_plain hpercent, ih]

theorem percentDecode_iff (text s : String) : percentDecode text = some s ↔ Decodes (unsigned (utf8 text)) (utf8 s) := by
  rw [percentDecode, ← percentBytes_iff, Option.bind_eq_some_iff]
  constructor
  · rintro ⟨out, hout, hs⟩
    rw [hout, utf8_of_ofUtf8 hs]
  · intro hout
    exact ⟨utf8 s, hout, ofUtf8_utf8 s⟩

/-! ### The encoding -/

theorem Decodes.append (ha : Decodes a out) (hb : Decodes b out') : Decodes (a ++ b) (out ++ out') := by
  induction ha with
  | nil => exact hb
  | escape hi lo h l hhi hlo _ ih => exact .escape hi lo h l hhi hlo ih
  | space _ ih => exact .space ih
  | plain c hpercent hplus _ ih => exact .plain c hpercent hplus ih

theorem decodes_plain (h : ∀ c ∈ a, c ≠ 37 ∧ c ≠ 43) : Decodes a a := by
  induction a with
  | nil => exact .nil
  | cons c a ih =>
    obtain ⟨⟨hpercent, hplus⟩, ha⟩ := List.forall_mem_cons.mp h
    exact .plain c hpercent hplus (ih ha)

theorem encode_hexChar {d : Nat} (h : d < 16) : ∃ c, encode (hexChar d) = [c] ∧ toDigit 16 c = some d := by
  obtain ⟨hlow, hdigit⟩ := digit_tables.2 d h
  obtain ⟨_, hbyte⟩ | ⟨hhigh, _⟩ := encode_cases (hexChar d)
  · exact ⟨_, hbyte, hdigit⟩
  · exact absurd hlow (Nat.not_lt.mpr hhigh)

/-- The escapes of some bytes stand for them. -/
theorem decodes_escapes (bs : Bytes) :
    Decodes ((bs.flatMap fun b => ['%', hexChar (b.toNat / 16), hexChar (b.toNat % 16)]).flatMap encode) bs := by
  induction bs with
  | nil => exact .nil
  | cons b bs ih =>
    have hb := b.toNat_lt
    have hhigh : b.toNat / 16 < 16 := by omega
    have hlow : b.toNat % 16 < 16 := Nat.mod_lt _ (by decide)
    obtain ⟨hi, hencode, hhi⟩ := encode_hexChar hhigh
    obtain ⟨lo, hencode', hlo⟩ := encode_hexChar hlow
    have hvalue : UInt8.ofNat (b.toNat / 16 * 16 + b.toNat % 16) = b := by
      rw [Nat.div_add_mod', UInt8.ofNat_toNat]
    have hdecodes := Decodes.escape hi lo _ _ hhi hlo ih
    rw [hvalue] at hdecodes
    simp only [List.flatMap_cons, List.cons_append, List.nil_append, hencode, hencode']
    exact hdecodes

theorem decodes_char (keep : Char → Bool) (c : Char) : Decodes ((percentChar keep c).flatMap encode) (encode c) := by
  rw [percentChar]
  split
  next hkept =>
    obtain ⟨_, hpercent, hplus⟩ := hkept
    rw [List.flatMap_cons, List.flatMap_nil, List.append_nil]
    refine decodes_plain fun b hb => ?_
    obtain ⟨hlow, hbyte⟩ | ⟨_, hhigh⟩ := encode_cases c
    · rw [hbyte, List.mem_singleton] at hb
      have hchar : ∀ n, n < 128 → c.toNat ≠ n → b ≠ UInt8.ofNat n := by
        rintro n hn hne rfl
        have heq := congrArg UInt8.toNat hb
        rw [UInt8.toNat_ofNat_of_lt' (by show n < 256; omega), UInt8.toNat_ofNat_of_lt' (by show c.toNat < 256; omega)] at heq
        exact hne heq.symm
      exact ⟨hchar 37 (by decide) fun h => hpercent (Char.toNat_inj.mp h),
        hchar 43 (by decide) fun h => hplus (Char.toNat_inj.mp h)⟩
    · have := hhigh b hb
      exact ⟨by rintro rfl; exact absurd this (by decide), by rintro rfl; exact absurd this (by decide)⟩
  next => exact decodes_escapes _

theorem decodes_encode (keep : Char → Bool) (path : String) : Decodes (utf8 (percentEncode keep path)) (utf8 path) := by
  rw [percentEncode, utf8_ofList, utf8_eq, List.flatMap_assoc]
  induction path.toList with
  | nil => exact .nil
  | cons c cs ih =>
    rw [List.flatMap_cons, List.flatMap_cons]
    exact Decodes.append (decodes_char keep c) ih

end QueryLemmas

open QueryLemmas

/-- A text is decoded by the rules, unless an escape of it is a sign and a digit and nothing else is
wrong with it; and every path is read back from its encoding. -/
theorem percent_agrees (text : String) :
    ((∀ s, percentDecode text = some s ↔ Decodes (utf8 text) (utf8 s)) ↔
        unsigned (utf8 text) = utf8 text ∨ ∀ s, ¬ Decodes (unsigned (utf8 text)) (utf8 s)) ∧
      ∀ keep path, percentDecode (percentEncode keep path) = some path := by
  refine ⟨⟨fun h => ?_, fun h s => ?_⟩, fun keep path => ?_⟩
  · refine or_iff_not_imp_right.mpr fun hdecodes => ?_
    obtain ⟨s, hs⟩ := not_forall_not.mp hdecodes
    exact unsigned_of_decodes ((h s).mp ((percentDecode_iff text s).mpr hs))
  · rw [percentDecode_iff]
    rcases h with hplain | hnone
    · rw [hplain]
    · exact ⟨fun hs => (hnone s hs).elim, fun hs => (hnone s (by rwa [unsigned_of_decodes hs])).elim⟩
  · have hdecodes := decodes_encode keep path
    rw [percentDecode_iff, unsigned_of_decodes hdecodes]
    exact hdecodes

/-- A sign and a digit pass for two digits. -/
theorem sign_accepted : percentDecode "%+a" = some "\n" ∧ ∀ s, ¬ Decodes (utf8 "%+a") (utf8 s) := by
  have hbytes : utf8 "%+a" = [37, 43, 97] := by decide +kernel
  have hout : utf8 "\n" = [10] := by decide +kernel
  constructor
  · rw [percentDecode_iff, hbytes, hout]
    exact .escape 48 97 0 10 (by decide) (by decide) .nil
  · intro s hs
    rw [hbytes] at hs
    obtain ⟨h, _, _, hdigit, _⟩ := Decodes.escape_iff.mp hs
    rw [toDigit_sign.1] at hdigit
    cases hdigit

end OmtClient.Gui.Http
