import OmtClient.Lib.Bytes

/-!
# Text and its bytes

Texts are Lean strings, which like Rust's are sequences of Unicode scalar values;
`utf8` gives their bytes and `ofUtf8` reads bytes that are valid UTF-8. Code that
works on bytes but cares for ASCII characters only meets a character as one of
two cases (`encode_cases`): a single byte below 128, or bytes that are all at
least 128.
-/

namespace OmtClient.Lib

/-- `str::from_utf8`. -/
def ofUtf8 (b : Bytes) : Option String := String.fromUTF8? ⟨b.toArray⟩

/-- `char::encode_utf8`. -/
def encode (c : Char) : Bytes := String.utf8EncodeChar c

theorem utf8_ofList (cs : List Char) : utf8 (String.ofList cs) = cs.flatMap encode := by
  rw [utf8, String.toUTF8_eq_toByteArray, String.toByteArray_ofList, List.utf8Encode]
  exact List.data_toByteArray ▸ List.toList_toArray

theorem utf8_eq (s : String) : utf8 s = s.toList.flatMap encode := by
  rw [← utf8_ofList, String.ofList_toList]

theorem utf8_append (s t : String) : utf8 (s ++ t) = utf8 s ++ utf8 t := by
  rw [utf8_eq, String.toList_append, List.flatMap_append, ← utf8_eq, ← utf8_eq]

theorem ofUtf8_utf8 (s : String) : ofUtf8 (utf8 s) = some s := by
  have hbytes : (⟨(utf8 s).toArray⟩ : ByteArray) = s.toByteArray := rfl
  rw [ofUtf8, hbytes, String.fromUTF8?, dif_pos s.isValidUTF8]
  rfl

theorem utf8_of_ofUtf8 {b : Bytes} {s : String} (h : ofUtf8 b = some s) : utf8 s = b := by
  rw [ofUtf8, String.fromUTF8?] at h
  split at h
  · cases h
    exact List.toList_toArray
  · cases h

theorem utf8_injective {s t : String} (h : utf8 s = utf8 t) : s = t := by
  have hs := ofUtf8_utf8 s
  rw [h, ofUtf8_utf8] at hs
  exact (Option.some.inj hs).symm

/-- The bytes of a character's encoding past ASCII. -/
theorem high_of_lt {n : Nat} (low : 128 ≤ n) (high : n < 256) : (128 : Byte) ≤ UInt8.ofNat n := by
  rw [UInt8.le_iff_toNat_le, UInt8.toNat_ofNat_of_lt' high]
  exact low

/-- A character is one ASCII byte, or bytes that are not ASCII. -/
theorem encode_cases (c : Char) :
    (c.toNat < 128 ∧ encode c = [UInt8.ofNat c.toNat]) ∨
      (128 ≤ c.toNat ∧ ∀ b ∈ encode c, (128 : Byte) ≤ b) := by
  by_cases hascii : c.toNat < 128
  · refine .inl ⟨hascii, ?_⟩
    rw [encode, String.utf8EncodeChar]
    exact if_pos (Nat.le_of_lt_succ hascii)
  · refine .inr ⟨Nat.not_lt.mp hascii, fun b hb => ?_⟩
    rw [encode, String.utf8EncodeChar] at hb
    rw [if_neg (by show ¬ c.toNat ≤ 127; omega)] at hb
    -- every byte is a remainder plus the mark of its place
    split at hb
    · simp only [List.mem_cons, List.not_mem_nil, or_false] at hb
      rcases hb with rfl | rfl <;> exact high_of_lt (by omega) (by omega)
    · split at hb
      · simp only [List.mem_cons, List.not_mem_nil, or_false] at hb
        rcases hb with rfl | rfl | rfl <;> exact high_of_lt (by omega) (by omega)
      · simp only [List.mem_cons, List.not_mem_nil, or_false] at hb
        rcases hb with rfl | rfl | rfl | rfl <;> exact high_of_lt (by omega) (by omega)

/-! ## Lossy decoding -/

/-- The ranges of the bytes that may follow the first byte of an encoded character. -/
def continuations (first : Byte) : Option (List (Byte × Byte)) :=
  let tail : Byte × Byte := (0x80, 0xBF)
  if first < 0x80 then some []
  else if 0xC2 ≤ first ∧ first ≤ 0xDF then some [tail]
  else if first = 0xE0 then some [(0xA0, 0xBF), tail]
  else if first = 0xED then some [(0x80, 0x9F), tail]
  else if 0xE1 ≤ first ∧ first ≤ 0xEF then some [tail, tail]
  else if first = 0xF0 then some [(0x90, 0xBF), tail, tail]
  else if 0xF1 ≤ first ∧ first ≤ 0xF3 then some [tail, tail, tail]
  else if first = 0xF4 then some [(0x80, 0x8F), tail, tail]
  else none

/-- How many of the bytes fit their ranges. -/
def continued : List (Byte × Byte) → Bytes → Nat
  | (low, high) :: ranges, b :: bs => if low ≤ b ∧ b ≤ high then continued ranges bs + 1 else 0
  | _, _ => 0

/-- The bytes with the replacement character for each broken sequence, in a number of turns. -/
def replaceInvalid : Nat → Bytes → Bytes
  | 0, _ => []
  | _, [] => []
  | n + 1, b :: bs =>
    match continuations b with
    | none => encode '\uFFFD' ++ replaceInvalid n bs
    | some ranges =>
      let k := continued ranges bs
      (if k = ranges.length then b :: bs.take k else encode '\uFFFD') ++ replaceInvalid n (bs.drop k)

/-- `String::from_utf8_lossy`. -/
def fromUtf8Lossy (b : Bytes) : String :=
  match ofUtf8 b with
  | some s => s
  | none => (ofUtf8 (replaceInvalid b.length b)).getD ""

theorem fromUtf8Lossy_utf8 (s : String) : fromUtf8Lossy (utf8 s) = s := by
  rw [fromUtf8Lossy, ofUtf8_utf8]

/-! ## Valid bytes -/

/-- The bytes of some text. -/
def Valid (b : Bytes) : Prop := ∃ s, utf8 s = b

theorem isSome_ofUtf8 {b : Bytes} (h : Valid b) : (ofUtf8 b).isSome = true := by
  obtain ⟨s, rfl⟩ := h
  rw [ofUtf8_utf8]
  rfl

theorem valid_append {a b : Bytes} (ha : Valid a) (hb : Valid b) : Valid (a ++ b) := by
  obtain ⟨s, rfl⟩ := ha
  obtain ⟨t, rfl⟩ := hb
  exact ⟨s ++ t, utf8_append s t⟩

theorem valid_encode (c : Char) : Valid (encode c) := by
  refine ⟨String.ofList [c], ?_⟩
  rw [utf8_ofList, List.flatMap_cons, List.flatMap_nil, List.append_nil]

/-- What follows the bytes of a character is text when the whole is. -/
theorem valid_encode_append {c : Char} {b : Bytes} (h : Valid (encode c ++ b)) : Valid b := by
  obtain ⟨s, hs⟩ := h
  have hbytes : [c].utf8Encode ++ (⟨b.toArray⟩ : ByteArray) = s.toByteArray := by
    apply ByteArray.ext
    apply Array.toList_inj.mp
    have hdata : s.toByteArray.data.toList = encode c ++ b := hs
    rw [hdata]
    simp [List.utf8Encode, encode]
  have hvalid : (⟨b.toArray⟩ : ByteArray).IsValidUTF8 :=
    ByteArray.isValidUTF8_utf8Encode_singleton_append_iff.mp (hbytes ▸ s.isValidUTF8)
  exact ⟨⟨_, hvalid⟩, by simp [utf8]⟩

theorem valid_of_append {a b : Bytes} (ha : Valid a) (h : Valid (a ++ b)) : Valid b := by
  obtain ⟨s, rfl⟩ := ha
  rw [utf8_eq] at h
  generalize s.toList = cs at h
  induction cs with
  | nil => exact h
  | cons c cs ih =>
    rw [List.flatMap_cons, List.append_assoc] at h
    exact ih (valid_encode_append h)

theorem encode_ascii : ∀ n, n < 128 → encode (Char.ofNat n) = [UInt8.ofNat n] := by
  decide

theorem valid_ascii {bs : Bytes} (h : ∀ b ∈ bs, b.toNat < 128) : Valid bs := by
  induction bs with
  | nil => exact ⟨"", rfl⟩
  | cons b bs ih =>
    have hb : encode (Char.ofNat b.toNat) = [b] := by
      rw [encode_ascii _ (h b List.mem_cons_self), UInt8.ofNat_toNat]
    have hcons := valid_append (valid_encode (Char.ofNat b.toNat))
      (ih fun c hc => h c (List.mem_cons_of_mem _ hc))
    rw [hb] at hcons
    exact hcons

theorem valid_plain {bs : Bytes} (h : bs.all (·.toNat < 128) = true) : Valid bs :=
  valid_ascii fun b hb => of_decide_eq_true (List.all_eq_true.mp h b hb)

/-- Text can be cut on both sides of an ASCII byte. -/
theorem valid_around {a c : Bytes} {b : Byte} (hb : b < 128) (h : Valid (a ++ b :: c)) : Valid a ∧ Valid c := by
  obtain ⟨s, hs⟩ := h
  rw [utf8_eq] at hs
  generalize s.toList = cs at hs
  induction cs generalizing a with
  | nil => exact absurd hs.symm (by simp)
  | cons x cs ih =>
    rw [List.flatMap_cons] at hs
    have hrest : Valid (cs.flatMap encode) := ⟨String.ofList cs, utf8_ofList cs⟩
    rcases encode_cases x with ⟨hascii, hencode⟩ | ⟨_, hhigh⟩
    · rw [hencode, List.singleton_append] at hs
      cases a with
      | nil =>
        cases hs
        exact ⟨⟨"", rfl⟩, hrest⟩
      | cons d a =>
        obtain ⟨hd, hs⟩ := List.cons.inj hs
        obtain ⟨ha, hc⟩ := ih hs
        have hone : Valid [d] := by
          rw [← hd, ← hencode]
          exact valid_encode x
        exact ⟨valid_append hone ha, hc⟩
    · -- the byte is not one of this character's
      have hlong : (encode x).length ≤ a.length := by
        by_contra hshort
        have hmem : b ∈ encode x := by
          have htake := congrArg (fun l => l[a.length]?) hs
          rw [List.getElem?_append_left (Nat.not_le.mp hshort), List.getElem?_append_right (Nat.le_refl _),
            Nat.sub_self] at htake
          exact List.mem_of_getElem? htake
        exact absurd hb (UInt8.not_lt.mpr (hhigh b hmem))
      obtain ⟨a', ha'⟩ : encode x <+: a := by
        refine @List.prefix_of_prefix_length_le _ _ _ (a ++ b :: c) ?_ (List.prefix_append _ _) hlong
        rw [← hs]
        exact List.prefix_append _ _
      subst ha'
      rw [List.append_assoc] at hs
      obtain ⟨ha, hc⟩ := ih (List.append_cancel_left hs)
      exact ⟨valid_append (valid_encode x) ha, hc⟩

/-! ## ASCII text -/

/-- ASCII text has one byte for each character. -/
theorem utf8_of_ascii {cs : List Char} (h : ∀ c ∈ cs, c.toNat < 128) :
    utf8 (String.ofList cs) = cs.map fun c => UInt8.ofNat c.toNat := by
  rw [utf8_ofList]
  induction cs with
  | nil => rfl
  | cons c cs ih =>
    obtain ⟨hc, hcs⟩ := List.forall_mem_cons.mp h
    rw [List.flatMap_cons, ih hcs, List.map_cons]
    obtain ⟨_, hbyte⟩ | ⟨hhigh, _⟩ := encode_cases c
    · rw [hbyte]
      rfl
    · exact absurd hc (Nat.not_lt.mpr hhigh)

/-- Text of ASCII bytes has only ASCII characters. -/
theorem ascii_of_utf8 {s : String} (h : ∀ b ∈ utf8 s, b < 128) : ∀ c ∈ s.toList, c.toNat < 128 := by
  intro c hc
  obtain ⟨hlow, _⟩ | ⟨_, hbytes⟩ := encode_cases c
  · exact hlow
  · exfalso
    -- an encoding is never empty, and its bytes are among those of the text
    have hne : encode c ≠ [] := by
      intro hnil
      have := String.length_utf8EncodeChar c
      rw [← encode, hnil] at this
      exact absurd this.symm (Nat.ne_of_gt (Char.utf8Size_pos c))
    obtain ⟨b, hb⟩ := List.exists_mem_of_ne_nil _ hne
    have hmem : b ∈ utf8 s := by
      rw [utf8_eq]
      exact List.mem_flatMap.mpr ⟨c, hc, hb⟩
    exact absurd (h b hmem) (UInt8.not_lt.mpr (hbytes b hb))

end OmtClient.Lib
