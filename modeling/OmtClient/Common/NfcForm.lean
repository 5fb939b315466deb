import Mathlib.Data.List.Forall2
import OmtClient.Common.Nfc

/-!
# Normalization Form C

What `crates/omt-common/src/nfc.rs` computes, in the terms of UAX #15 over its tables: full
canonical decomposition by the mappings of the characters, reordering of combining marks by
their classes, composition with primary composites. Nothing here searches, counts levels or
writes in place.

1. `Form`: normalization form C.
2. `NfcFormLemmas`: what the tables have in common, checked entry by entry, and what the
   searches of the source find in them.
-/

namespace OmtClient.Common.Nfc

open OmtClient.Lib OmtClient.Lib.Combining

/-! ## The form -/

/-- The canonical mapping of a Hangul syllable: to its first two letters, or to the syllable
without its last letter, and that letter. -/
def syllableMapping (c : ℕ) : ℕ × ℕ :=
  let index := c - sBase
  if index % tCount = 0 then (lBase + index / nCount, vBase + index % nCount / tCount)
  else (sBase + index / tCount * tCount, tBase + index % tCount)

/-- The canonical mapping of a character, to one character or two. -/
def mapping (c : ℕ) : Option (ℕ × Option ℕ) :=
  if isSyllable c then some ((syllableMapping c).1, some (syllableMapping c).2)
  else (decomp.find? fun e => e.1 = c).map fun e => (e.2.1, if e.2.2 = 0 then none else some e.2.2)

/-- Full canonical decomposition: mappings are applied until none is left. -/
inductive Decomposes : ℕ → List ℕ → Prop
  | plain {c : ℕ} (h : mapping c = none) : Decomposes c [c]
  | one {c a : ℕ} {l : List ℕ} (h : mapping c = some (a, none)) (ha : Decomposes a l) : Decomposes c l
  | two {c a b : ℕ} {l m : List ℕ} (h : mapping c = some (a, some b)) (ha : Decomposes a l) (hb : Decomposes b m) :
      Decomposes c (l ++ m)

/-- The canonical combining class. -/
def classOf (c : ℕ) : ℕ := (ccc.find? fun e => e.1 = c).elim 0 Prod.snd

/-- A primary composite, with the pair it is composed of. -/
def IsComposite (a b p : ℕ) : Prop := (isSyllable p = true ∧ syllableMapping p = (a, b)) ∨ (a, b, p) ∈ comp

/-- Normalization form C of a sequence of characters. -/
def Form (cs w : List ℕ) : Prop :=
  ∃ ds o, List.Forall₂ Decomposes cs ds ∧ Reorders classOf ds.flatten o ∧ Composes classOf IsComposite [] o w

/-! ## The tables -/

def isScalar (c : ℕ) : Bool := Nat.blt c 0xD800 || (Nat.blt 0xDFFF c && Nat.blt c 0x110000)

/-- The characters with a mapping in the table. -/
def keys : ℕ := bitset (decomp.map Prod.fst)

/-- Those whose mapping starts with a character that has none. -/
def keys₁ : ℕ := bitset ((decomp.filter fun e => !keys.testBit e.2.1).map Prod.fst)

/-- Those whose mapping starts with one of these. -/
def keys₂ : ℕ := bitset ((decomp.filter fun e => keys₁.testBit e.2.1).map Prod.fst)

def classKeys : ℕ := bitset (ccc.map Prod.fst)

def composites : ℕ := bitset (comp.map fun e => e.2.2)

namespace NfcFormLemmas

section Checked

set_option maxRecDepth 20000

/-- `keys₁` and `keys₂`, by whatever reads a bit. -/
def firstKeys (bit : ℕ → ℕ → Bool) : ℕ := bitset ((decomp.filter fun e => !bit keys e.2.1).map Prod.fst)

def secondKeys (bit : ℕ → ℕ → Bool) : ℕ := bitset ((decomp.filter fun e => bit (firstKeys bit) e.2.1).map Prod.fst)

/-- What is checked of the tables, in one run over them. -/
def Checked (bit : ℕ → ℕ → Bool) : Prop :=
  ascends Prod.fst decomp = true ∧ ascends Prod.fst ccc = true ∧ ascends pairOf comp = true ∧
    ((decomp.all fun e =>
        (Nat.blt e.1 lBase || Nat.ble 0x1200 e.1) &&
            (!isSyllable e.1 && (!isSyllable e.2.1 && !isSyllable e.2.2)) &&
          (isScalar e.2.1 && isScalar e.2.2)) = true ∧
      (decomp.all fun e => !bit keys e.2.2) = true ∧
      (decomp.all fun e =>
        !bit keys e.2.1 || (bit (firstKeys bit) e.2.1 || bit (secondKeys bit) e.2.1)) = true) ∧
    sortBy (fun x y => Nat.blt x.1 y.1) 10 (comp.map fun e => (e.2.2, e.1, e.2.1)) =
      decomp.filter (fun e => bit composites e.1) ∧
    (comp.all fun e =>
      !bit classKeys e.2.2 &&
        ((Nat.blt 0 e.2.1 && isScalar e.2.2) && (Nat.blt e.1 lBase || Nat.ble 0x1200 e.1))) = true ∧
    (ccc.all fun e => !isSyllable e.1) = true

theorem tables_checked : Checked Nat.testBit := by
  have h : Checked hasBit := by
    unfold Checked
    decide +kernel
  rw [hasBit_eq] at h
  exact h

theorem decomp_ascends : ascends Prod.fst decomp = true := tables_checked.1

theorem ccc_ascends : ascends Prod.fst ccc = true := tables_checked.2.1

theorem comp_ascends : ascends pairOf comp = true := tables_checked.2.2.1

/-- No entry is about a letter of a syllable, none has a syllable in it, all have characters. -/
theorem decomp_apart : (decomp.all fun e =>
    (Nat.blt e.1 lBase || Nat.ble 0x1200 e.1) && (!isSyllable e.1 && (!isSyllable e.2.1 && !isSyllable e.2.2)) &&
      (isScalar e.2.1 && isScalar e.2.2)) = true := tables_checked.2.2.2.1.1

/-- What a mapping ends with has none. -/
theorem seconds_plain : (decomp.all fun e => !keys.testBit e.2.2) = true := tables_checked.2.2.2.1.2.1

/-- What a mapping starts with has none, or one of at most two levels. -/
theorem firsts_deep : (decomp.all fun e =>
    !keys.testBit e.2.1 || (keys₁.testBit e.2.1 || keys₂.testBit e.2.1)) = true := tables_checked.2.2.2.1.2.2

/-- The composites are entries of the other table. -/
theorem comp_sorted : sortBy (fun x y => Nat.blt x.1 y.1) 10 (comp.map fun e => (e.2.2, e.1, e.2.1)) =
    decomp.filter fun e => composites.testBit e.1 := tables_checked.2.2.2.2.1

/-- Composites are starters, and composed of two characters of which the first is no letter. -/
theorem comp_starters : (comp.all fun e =>
    !classKeys.testBit e.2.2 && ((Nat.blt 0 e.2.1 && isScalar e.2.2) && (Nat.blt e.1 lBase || Nat.ble 0x1200 e.1))) =
      true := tables_checked.2.2.2.2.2.1

theorem syllables_starters : (ccc.all fun e => !isSyllable e.1) = true := tables_checked.2.2.2.2.2.2

end Checked

variable {a b c p : ℕ} {l m : List ℕ}

/-! ## Lookups -/

/-- A search by key that then reads the entry. -/
theorem search_get {κ β : Type} [LinearOrder κ] {key : β → κ} {t : List β} (h : Ascends key t) (k : κ) (d : β) :
    (binarySearchByKey key t k).map (t.getD · d) = t.find? fun e => key e = k := by
  rw [← binarySearch_get key h k]
  cases hsearch : binarySearchByKey key t k with
  | none => rfl
  | some i =>
    have hget : (t[i]?).isSome = true := by
      unfold binarySearchByKey at hsearch
      split at hsearch
      · cases hsearch
      dsimp only at hsearch
      split at hsearch
      next hany =>
        cases hsearch
        obtain ⟨x, hx, -⟩ := (Option.any_eq_true _ _).mp hany
        rw [hx]
        rfl
      · cases hsearch
    obtain ⟨x, hx⟩ := Option.isSome_iff_exists.mp hget
    rw [Option.map_some, Option.bind_some, List.getD_eq_getElem?_getD, hx]
    rfl

theorem combiningClass_eq : combiningClass = classOf := by
  funext c
  have hsearch := search_get (SearchLemmas.ascends_of ccc_ascends) c (0, 0)
  unfold combiningClass classOf
  rw [← hsearch]
  generalize binarySearchByKey Prod.fst ccc c = found
  generalize ccc = table
  cases found with
  | none => rfl
  | some i => rfl

theorem keys_iff : keys.testBit c = true ↔ ∃ e ∈ decomp, e.1 = c := by
  rw [keys, testBit_bitset, List.mem_map]

theorem not_key (h : keys.testBit c = false) : decomp.find? (fun e => decide (e.1 = c)) = none := by
  refine List.find?_eq_none.mpr fun e he heq => ?_
  rw [(keys_iff).mpr ⟨e, he, of_decide_eq_true heq⟩] at h
  cases h

theorem entry_found {e : ℕ × ℕ × ℕ} (he : e ∈ decomp) : decomp.find? (fun x => decide (x.1 = e.1)) = some e :=
  SearchLemmas.find?_key (SearchLemmas.ascends_of decomp_ascends) he

theorem apart {e : ℕ × ℕ × ℕ} (he : e ∈ decomp) :
    (e.1 < lBase ∨ 0x1200 ≤ e.1) ∧ isSyllable e.1 = false ∧ isSyllable e.2.1 = false ∧ isSyllable e.2.2 = false ∧
      isScalar e.2.1 = true ∧ isScalar e.2.2 = true := by
  have h := List.all_eq_true.mp decomp_apart e he
  simp only [Bool.and_eq_true, Bool.or_eq_true, Bool.not_eq_true', Nat.blt_eq, Nat.ble_eq] at h
  exact ⟨h.1.1, h.1.2.1, h.1.2.2.1, h.1.2.2.2, h.2.1, h.2.2⟩

theorem plain_of (hsyllable : isSyllable c = false) (hkey : keys.testBit c = false) : mapping c = none := by
  unfold mapping
  rw [hsyllable, if_neg Bool.false_ne_true, not_key hkey]
  rfl

/-- A mapping is that of a syllable or an entry of the table. -/
theorem mapping_cases {x : ℕ × Option ℕ} (h : mapping c = some x) :
    (isSyllable c = true ∧ x = ((syllableMapping c).1, some (syllableMapping c).2)) ∨
      ∃ e ∈ decomp, e.1 = c ∧ isSyllable c = false ∧ decomp.find? (fun e => decide (e.1 = c)) = some e ∧
        x = (e.2.1, if e.2.2 = 0 then none else some e.2.2) := by
  unfold mapping at h
  split at h
  next hsyllable => exact .inl ⟨hsyllable, (Option.some.inj h).symm⟩
  next hsyllable =>
    obtain ⟨e, hfind, rfl⟩ := Option.map_eq_some_iff.mp h
    have hkey := List.find?_some hfind
    exact .inr ⟨e, List.mem_of_find?_eq_some hfind, of_decide_eq_true hkey, Bool.eq_false_iff.mpr hsyllable, hfind, rfl⟩

theorem entry_mapping {e : ℕ × ℕ × ℕ} (he : e ∈ decomp) :
    mapping e.1 = some (e.2.1, if e.2.2 = 0 then none else some e.2.2) := by
  unfold mapping
  rw [(apart he).2.1, if_neg Bool.false_ne_true, entry_found he]
  rfl

/-! ## Letters and syllables -/

theorem isSyllable_iff : isSyllable c = true ↔ sBase ≤ c ∧ c < sBase + sCount := by
  unfold isSyllable
  rw [Bool.and_eq_true, decide_eq_true_iff, decide_eq_true_iff]

/-- A letter has no mapping. -/
theorem letter_plain (hlow : 0x1100 ≤ c) (hhigh : c < 0x1200) : mapping c = none := by
  refine plain_of (Bool.eq_false_iff.mpr fun h => ?_) (Bool.eq_false_iff.mpr fun h => ?_)
  · have hle := ((isSyllable_iff).mp h).1
    have hbase : sBase = 0xAC00 := rfl
    omega
  · obtain ⟨e, he, rfl⟩ := (keys_iff).mp h
    have hbase : lBase = 0x1100 := rfl
    rcases (apart he).1 with hlt | hge
    · omega
    · omega

/-- The numbers of a syllable. -/
theorem syllable_bounds (h : isSyllable c = true) :
    (c - sBase) / nCount < 19 ∧ (c - sBase) % nCount / tCount < 21 ∧ (c - sBase) % tCount < 28 := by
  obtain ⟨hle, hlt⟩ := (isSyllable_iff).mp h
  have hs : sBase + sCount = 55204 := rfl
  have hb : sBase = 44032 := rfl
  have hn : nCount = 588 := rfl
  have ht : tCount = 28 := rfl
  rw [hs] at hlt
  rw [hb] at hle ⊢
  rw [hn, ht]
  refine ⟨by omega, by omega, by omega⟩

end NfcFormLemmas

end OmtClient.Common.Nfc
