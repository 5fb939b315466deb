import OmtClient.Lib.Utf8

/-!
# The paths of the mount table

`unescape_mount_path` of `crates/rpi-omt-deploy-gui/src/fs.rs`. The kernel writes a space, a tab, a
newline and a backslash of a path as a backslash and three octal digits, which go up to 511 while a
byte does not; the sums of the code are checked.

1. `unescape_agrees`: the paths that are read without an overflow, those of the kernel among them.
2. `unescape_aborts`: one that is not.
-/

namespace OmtClient.Gui.Fs

open OmtClient.Lib

/-- A number as a `u8`, if it is one: the program ends otherwise. -/
def checkedU8 (n : Nat) : Option Byte := if n < 256 then some (UInt8.ofNat n) else none

def checkedSub (a b : Byte) : Option Byte := if b ≤ a then some (a - b) else none

def isOctal (c : Byte) : Bool := 48 ≤ c && c ≤ 55

/-- The byte of three digits. -/
def octalByte (a b c : Byte) : Option Byte :=
  (checkedSub a 48).bind fun x =>
  (checkedU8 (x.toNat * 64)).bind fun x =>
  (checkedSub b 48).bind fun y =>
  (checkedU8 (y.toNat * 8)).bind fun y =>
  (checkedU8 (x.toNat + y.toNat)).bind fun xy =>
  (checkedSub c 48).bind fun z => checkedU8 (xy.toNat + z.toNat)

/-- The loop of `unescape_mount_path`. -/
def unescapeBytes : Bytes → Option Bytes
  | [] => some []
  | 92 :: a :: b :: c :: rest =>
    if isOctal a ∧ isOctal b ∧ isOctal c then
      (octalByte a b c).bind fun v => (unescapeBytes rest).map (v :: ·)
    else (unescapeBytes (a :: b :: c :: rest)).map (92 :: ·)
  | c :: rest => (unescapeBytes rest).map (c :: ·)

def unescapeMountPath (field : String) : Option String := (unescapeBytes (utf8 field)).map fromUtf8Lossy

/-! ## What a field says -/

/-- The number of three octal digits. -/
def octalNumber (a b c : Byte) : Nat := (a.toNat - 48) * 64 + (b.toNat - 48) * 8 + (c.toNat - 48)

/-- A text that begins with a backslash and three octal digits. -/
def Escaped (t : Bytes) : Prop :=
  ∃ a b c rest, t = 92 :: a :: b :: c :: rest ∧ isOctal a ∧ isOctal b ∧ isOctal c

/-- The numbers that a field stands for: those of its escapes, and its other bytes. -/
inductive Reads : Bytes → List Nat → Prop
  | nil : Reads [] []
  | escape (a b c : Byte) {rest : Bytes} {values : List Nat} (ha : isOctal a) (hb : isOctal b) (hc : isOctal c)
      (hrest : Reads rest values) : Reads (92 :: a :: b :: c :: rest) (octalNumber a b c :: values)
  | plain (c : Byte) {rest : Bytes} {values : List Nat} (hplain : ¬ Escaped (c :: rest)) (hrest : Reads rest values) :
      Reads (c :: rest) (c.toNat :: values)

/-- The digit of a number below eight. -/
def octalDigit (d : Nat) : Char := Char.ofNat (48 + d)

/-- A character of a path as the kernel writes it. -/
def mangleChar (c : Char) : List Char :=
  if c ∈ [' ', '\t', '\n', '\\'] then
    ['\\', octalDigit (c.toNat / 64), octalDigit (c.toNat / 8 % 8), octalDigit (c.toNat % 8)]
  else [c]

/-- A path in the table of the kernel. -/
def mangle (path : String) : String := String.ofList (path.toList.flatMap mangleChar)

namespace MountsLemmas

variable {t rest : Bytes} {values values' : List Nat} {a b c : Byte}

theorem isOctal_iff : isOctal c = true ↔ 48 ≤ c.toNat ∧ c.toNat ≤ 55 := by
  rw [isOctal, Bool.and_eq_true, decide_eq_true_eq, decide_eq_true_eq, UInt8.le_iff_toNat_le, UInt8.le_iff_toNat_le]
  exact Iff.rfl

theorem toNat_checkedU8 {n : Nat} (h : n < 256) : checkedU8 n = some (UInt8.ofNat n) ∧ (UInt8.ofNat n).toNat = n :=
  ⟨if_pos h, UInt8.toNat_ofNat_of_lt' h⟩

theorem checkedSub_octal (h : isOctal c) : ∃ d, checkedSub c 48 = some d ∧ d.toNat = c.toNat - 48 ∧ d.toNat < 8 := by
  obtain ⟨hlow, hhigh⟩ := (isOctal_iff).mp h
  have hle : (48 : Byte) ≤ c := UInt8.le_iff_toNat_le.mpr hlow
  have hsub : (c - 48).toNat = c.toNat - 48 := UInt8.toNat_sub_of_le c 48 hle
  refine ⟨c - 48, if_pos hle, hsub, ?_⟩
  omega

/-- The sum overflows just when the number is no byte. -/
theorem octalByte_eq (ha : isOctal a) (hb : isOctal b) (hc : isOctal c) :
    octalByte a b c = checkedU8 (octalNumber a b c) := by
  obtain ⟨x, hx, hxval, hxlt⟩ := checkedSub_octal ha
  obtain ⟨y, hy, hyval, hylt⟩ := checkedSub_octal hb
  obtain ⟨z, hz, hzval, hzlt⟩ := checkedSub_octal hc
  rw [octalByte, octalNumber, ← hxval, ← hyval, ← hzval, hx, Option.bind_some]
  by_cases hlarge : x.toNat < 4
  · obtain ⟨hmul, hmulval⟩ := toNat_checkedU8 (n := x.toNat * 64) (by omega)
    obtain ⟨hmul', hmulval'⟩ := toNat_checkedU8 (n := y.toNat * 8) (by omega)
    rw [hmul, Option.bind_some, hy, Option.bind_some, hmul', Option.bind_some, hmulval, hmulval']
    obtain ⟨hadd, haddval⟩ := toNat_checkedU8 (n := x.toNat * 64 + y.toNat * 8) (by omega)
    rw [hadd, Option.bind_some, hz, Option.bind_some, haddval]
  · rw [checkedU8, if_neg (by omega), Option.bind_none, checkedU8, if_neg (by omega)]

theorem unescapeBytes_plain (h : ¬ Escaped (c :: rest)) : unescapeBytes (c :: rest) = (unescapeBytes rest).map (c :: ·) := by
  rw [unescapeBytes.eq_def]
  split
  next heq => cases heq
  next x y z more heq =>
    obtain ⟨rfl, rfl⟩ := List.cons.inj heq
    exact if_neg fun hoctal => h ⟨x, y, z, more, rfl, hoctal⟩
  next heq =>
    obtain ⟨rfl, rfl⟩ := List.cons.inj heq
    rfl

theorem bytes_cons {v : Nat} : (∀ x ∈ v :: values, x < 256) ↔ v < 256 ∧ ∀ x ∈ values, x < 256 := List.forall_mem_cons

/-- The bytes that are pushed are the numbers, each checked. -/
theorem unescapeBytes_of_reads (h : Reads t values) :
    unescapeBytes t = if ∀ v ∈ values, v < 256 then some (values.map UInt8.ofNat) else none := by
  induction h with
  | nil => rfl
  | @escape a b c rest values ha hb hc _ ih =>
    rw [unescapeBytes, if_pos ⟨ha, hb, hc⟩, octalByte_eq ha hb hc, ih]
    by_cases hv : octalNumber a b c < 256
    · rw [checkedU8, if_pos hv, Option.bind_some]
      by_cases hvalues : ∀ v ∈ values, v < 256
      · rw [if_pos hvalues, if_pos ((bytes_cons).mpr ⟨hv, hvalues⟩)]
        rfl
      · rw [if_neg hvalues, if_neg fun h => hvalues ((bytes_cons).mp h).2]
        rfl
    · rw [checkedU8, if_neg hv, Option.bind_none, if_neg fun h => hv ((bytes_cons).mp h).1]
  | @plain c rest values hplain _ ih =>
    rw [unescapeBytes_plain hplain, ih]
    by_cases hvalues : ∀ v ∈ values, v < 256
    · rw [if_pos hvalues, if_pos ((bytes_cons).mpr ⟨c.toNat_lt, hvalues⟩), List.map_cons, UInt8.ofNat_toNat]
      rfl
    · rw [if_neg hvalues, if_neg fun h => hvalues ((bytes_cons).mp h).2]
      rfl

theorem reads_total (t : Bytes) : ∃ values, Reads t values := by
  induction hn : t.length using Nat.strong_induction_on generalizing t with
  | _ n ih =>
    cases t with
    | nil => exact ⟨[], .nil⟩
    | cons c rest =>
      by_cases h : Escaped (c :: rest)
      · obtain ⟨x, y, z, more, heq, hx, hy, hz⟩ := h
        have hlen := congrArg List.length heq
        simp only [List.length_cons] at hlen hn
        obtain ⟨values, hvalues⟩ := ih more.length (by omega) more rfl
        refine ⟨octalNumber x y z :: values, ?_⟩
        rw [heq]
        exact .escape x y z hx hy hz hvalues
      · obtain ⟨values, hvalues⟩ := ih rest.length (by rw [← hn]; exact Nat.lt_succ_self _) rest rfl
        exact ⟨_, .plain c h hvalues⟩

theorem reads_unique (h : Reads t values) (h' : Reads t values') : values' = values := by
  induction h generalizing values' with
  | nil =>
    cases h'
    rfl
  | escape a b c ha hb hc _ ih =>
    cases h' with
    | escape _ _ _ _ _ _ hrest => rw [ih hrest]
    | plain _ hplain => exact (hplain ⟨a, b, c, _, rfl, ha, hb, hc⟩).elim
  | plain c hplain _ ih =>
    cases h' with
    | escape a b c ha hb hc => exact (hplain ⟨a, b, c, _, rfl, ha, hb, hc⟩).elim
    | plain _ _ hrest => rw [ih hrest]

/-! ### The table of the kernel -/

theorem reads_plain (hplain : ∀ b ∈ t, b ≠ 92) (h : Reads rest values) : Reads (t ++ rest) (t.map UInt8.toNat ++ values) := by
  induction t with
  | nil => exact h
  | cons b t ih =>
    obtain ⟨hb, ht⟩ := List.forall_mem_cons.mp hplain
    refine .plain b ?_ (ih ht)
    rintro ⟨_, _, _, _, heq, _⟩
    exact hb (List.cons.inj heq).1

/-- An escape of the kernel. -/
theorem mangled_bytes : ∀ c ∈ [' ', '\t', '\n', '\\'], ∃ x y z b, (mangleChar c).flatMap encode = [92, x, y, z] ∧
    (isOctal x ∧ isOctal y ∧ isOctal z) ∧ encode c = [b] ∧ octalNumber x y z = b.toNat := by
  simp only [List.mem_cons, List.not_mem_nil, or_false, forall_eq_or_imp, forall_eq]
  exact ⟨⟨48, 52, 48, 32, by decide +kernel⟩, ⟨48, 49, 49, 9, by decide +kernel⟩, ⟨48, 49, 50, 10, by decide +kernel⟩,
    ⟨49, 51, 52, 92, by decide +kernel⟩⟩

theorem reads_char (ch : Char) (h : Reads rest values) :
    Reads ((mangleChar ch).flatMap encode ++ rest) ((encode ch).map UInt8.toNat ++ values) := by
  by_cases hmangled : ch ∈ [' ', '\t', '\n', '\\']
  · obtain ⟨x, y, z, b, hbytes, ⟨hx, hy, hz⟩, hb, hnumber⟩ := mangled_bytes ch hmangled
    rw [hbytes, hb, List.map_singleton, ← hnumber]
    exact .escape x y z hx hy hz h
  · rw [mangleChar, if_neg hmangled, List.flatMap_cons, List.flatMap_nil, List.append_nil]
    refine reads_plain (fun b hb => ?_) h
    rintro rfl
    obtain ⟨hlow, hbyte⟩ | ⟨_, hhigh⟩ := encode_cases ch
    · rw [hbyte, List.mem_singleton] at hb
      have heq := congrArg UInt8.toNat hb
      rw [UInt8.toNat_ofNat_of_lt' (by show ch.toNat < 256; omega)] at heq
      have hslash : ch = '\\' := Char.toNat_inj.mp heq.symm
      exact hmangled (by rw [hslash]; decide)
    · exact absurd (hhigh _ hb) (by decide)

theorem reads_mangle (path : String) : Reads (utf8 (mangle path)) ((utf8 path).map UInt8.toNat) := by
  rw [mangle, utf8_ofList, utf8_eq, List.flatMap_assoc]
  induction path.toList with
  | nil => exact .nil
  | cons ch chars ih =>
    rw [List.flatMap_cons, List.flatMap_cons, List.map_append]
    exact reads_char ch ih

end MountsLemmas

open MountsLemmas

/-- A field is read as its numbers just when they are bytes, and what the kernel wrote is read as the
path that it was. -/
theorem unescape_agrees (field : String) :
    (∃ values, Reads (utf8 field) values ∧ (∀ values', Reads (utf8 field) values' → values' = values) ∧
        (unescapeMountPath field = some (fromUtf8Lossy (values.map UInt8.ofNat)) ↔ ∀ v ∈ values, v < 256)) ∧
      ∀ path, unescapeMountPath (mangle path) = some path := by
  constructor
  · obtain ⟨values, hvalues⟩ := reads_total (utf8 field)
    refine ⟨values, hvalues, fun values' h => reads_unique hvalues h, ?_⟩
    rw [unescapeMountPath, unescapeBytes_of_reads hvalues]
    constructor
    · intro h
      by_contra hlarge
      rw [if_neg hlarge] at h
      cases h
    · intro hsmall
      rw [if_pos hsmall]
      rfl
  · intro path
    have hsmall : ∀ v ∈ (utf8 path).map UInt8.toNat, v < 256 := by
      intro v hv
      obtain ⟨b, _, rfl⟩ := List.mem_map.mp hv
      exact b.toNat_lt
    have hback : ((utf8 path).map UInt8.toNat).map UInt8.ofNat = utf8 path := by
      rw [List.map_map]
      exact List.map_congr_left (fun b _ => UInt8.ofNat_toNat) |>.trans (List.map_id _)
    rw [unescapeMountPath, unescapeBytes_of_reads (reads_mangle path), if_pos hsmall, hback, Option.map_some,
      fromUtf8Lossy_utf8]

/-- Three octal digits that are too large for a byte. -/
theorem unescape_aborts : unescapeMountPath "\\400" = none := by
  decide +kernel

end OmtClient.Gui.Fs
