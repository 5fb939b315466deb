import OmtClient.Common.NfcForm

/-!
# The form that is computed

1. `mapping_deep`: mappings lead to mappings at most three levels deep.
2. `composePair_iff`: the pairs that the source composes are those of the primary composites.
3. `toNfc_exact`: `to_nfc` returns the one normalization form C of every string.
4. `normalize_exact`: normalising never fails, a normalised string stays as it is, and
   `is_normalized` holds of just the strings that stay.
-/

namespace OmtClient.Common.Nfc

open OmtClient.Lib OmtClient.Lib.Combining NfcLemmas NfcFormLemmas

namespace NfcExactLemmas

variable {a b c p n : ℕ} {l m cs : List ℕ}

/-! ## Decomposition -/

theorem decomposes_unique (h : Decomposes c l) (h' : Decomposes c m) : l = m := by
  induction h generalizing m with
  | plain h =>
    cases h' with
    | plain _ => rfl
    | one h' _ => cases h.symm.trans h'
    | two h' _ _ => cases h.symm.trans h'
  | one h _ ih =>
    cases h' with
    | plain h' => cases h.symm.trans h'
    | one h' ha' =>
      cases h.symm.trans h'
      exact ih ha'
    | two h' _ _ => cases h.symm.trans h'
  | two h _ _ iha ihb =>
    cases h' with
    | plain h' => cases h.symm.trans h'
    | one h' _ => cases h.symm.trans h'
    | two h' ha' hb' =>
      cases h.symm.trans h'
      rw [iha ha', ihb hb']

/-- What a decomposition leaves has no mapping. -/
theorem decomposes_plain (h : Decomposes c l) : ∀ x ∈ l, mapping x = none := by
  induction h with
  | plain h =>
    intro x hx
    cases List.mem_singleton.mp hx
    exact h
  | one _ _ ih => exact ih
  | two _ _ _ iha ihb =>
    intro x hx
    rcases List.mem_append.mp hx with hx | hx
    · exact iha x hx
    · exact ihb x hx

/-- What follows the first of a pair has no mapping, and mappings nest at most `n` levels. -/
inductive Deep : ℕ → ℕ → Prop
  | plain {n c : ℕ} (h : mapping c = none) : Deep n c
  | one {n c a : ℕ} (h : mapping c = some (a, none)) (ha : Deep n a) : Deep (n + 1) c
  | two {n c a b : ℕ} (h : mapping c = some (a, some b)) (ha : Deep n a) (hb : mapping b = none) : Deep (n + 1) c

theorem deep_succ (h : Deep n c) : Deep (n + 1) c := by
  induction h with
  | plain h => exact .plain h
  | one h _ ih => exact .one h ih
  | two h _ hb ih => exact .two h ih hb

theorem second_plain {e : ℕ × ℕ × ℕ} (he : e ∈ decomp) : mapping e.2.2 = none := by
  have h := List.all_eq_true.mp seconds_plain e he
  rw [Bool.not_eq_true'] at h
  exact plain_of (apart he).2.2.2.1 h

theorem entry_deep {e : ℕ × ℕ × ℕ} (he : e ∈ decomp) (h : Deep n e.2.1) : Deep (n + 1) e.1 := by
  have hmapping := entry_mapping he
  split at hmapping
  · exact .one hmapping h
  · exact .two hmapping h (second_plain he)

theorem first_deep {e : ℕ × ℕ × ℕ} (he : e ∈ decomp) : Deep 2 e.2.1 := by
  have hplain {x : ℕ × ℕ × ℕ} (hx : x ∈ decomp) (h : keys.testBit x.2.1 = false) : mapping x.2.1 = none :=
    plain_of (apart hx).2.2.1 h
  have hone {c : ℕ} (h : keys₁.testBit c = true) : Deep 1 c := by
    rw [keys₁, testBit_bitset] at h
    obtain ⟨x, hx, rfl⟩ := List.mem_map.mp h
    obtain ⟨hmem, hfree⟩ := List.mem_filter.mp hx
    rw [Bool.not_eq_true'] at hfree
    exact entry_deep hmem (.plain (hplain hmem hfree))
  have h := List.all_eq_true.mp firsts_deep e he
  rw [Bool.or_eq_true, Bool.or_eq_true, Bool.not_eq_true'] at h
  rcases h with hfree | hone' | htwo
  · exact .plain (hplain he hfree)
  · exact deep_succ (hone hone')
  · rw [keys₂, testBit_bitset] at htwo
    obtain ⟨x, hx, hsame⟩ := List.mem_map.mp htwo
    obtain ⟨hmem, hbit⟩ := List.mem_filter.mp hx
    rw [← hsame]
    exact entry_deep hmem (hone hbit)

/-- The letters of the syllable with this number. -/
def letters (index : ℕ) : List ℕ :=
  [lBase + index / nCount, vBase + index % nCount / tCount] ++ if index % tCount = 0 then [] else [tBase + index % tCount]

theorem letter_plain_of (h : isSyllable c = true) :
    mapping (lBase + (c - sBase) / nCount) = none ∧ mapping (vBase + (c - sBase) % nCount / tCount) = none ∧
      mapping (tBase + (c - sBase) % tCount) = none := by
  obtain ⟨hl, hv, ht⟩ := syllable_bounds h
  generalize (c - sBase) / nCount = first at hl ⊢
  generalize (c - sBase) % nCount / tCount = second at hv ⊢
  generalize (c - sBase) % tCount = third at ht ⊢
  have hlbase : lBase = 0x1100 := rfl
  have hvbase : vBase = 0x1161 := rfl
  have htbase : tBase = 0x11A7 := rfl
  rw [hlbase, hvbase, htbase]
  refine ⟨letter_plain ?_ ?_, letter_plain ?_ ?_, letter_plain ?_ ?_⟩
  · exact Nat.le_add_right 0x1100 first
  · omega
  · omega
  · omega
  · omega
  · omega

theorem mapping_syllable (h : isSyllable c = true) :
    mapping c = some ((syllableMapping c).1, some (syllableMapping c).2) := if_pos h

theorem syllableMapping_two (hopen : (c - sBase) % tCount = 0) :
    syllableMapping c = (lBase + (c - sBase) / nCount, vBase + (c - sBase) % nCount / tCount) := by
  unfold syllableMapping
  rw [if_pos hopen]

theorem syllableMapping_three (hclosed : (c - sBase) % tCount ≠ 0) :
    syllableMapping c = (sBase + (c - sBase) / tCount * tCount, tBase + (c - sBase) % tCount) := by
  unfold syllableMapping
  rw [if_neg hclosed]

theorem index_lt (h : isSyllable c = true) : c - sBase < sCount := by
  obtain ⟨hle, hlt⟩ := isSyllable_iff.mp h
  exact Nat.sub_lt_left_of_lt_add hle hlt

/-- A syllable of two letters. -/
theorem mapping_two (h : isSyllable c = true) (hopen : (c - sBase) % tCount = 0) :
    mapping c = some (lBase + (c - sBase) / nCount, some (vBase + (c - sBase) % nCount / tCount)) := by
  rw [mapping_syllable h, syllableMapping_two hopen]

/-- The syllable that a syllable of three letters starts with. -/
theorem open_part (h : isSyllable c = true) : isSyllable (sBase + (c - sBase) / tCount * tCount) = true ∧
    (sBase + (c - sBase) / tCount * tCount - sBase) % tCount = 0 ∧
    (sBase + (c - sBase) / tCount * tCount - sBase) / nCount = (c - sBase) / nCount ∧
    (sBase + (c - sBase) / tCount * tCount - sBase) % nCount / tCount = (c - sBase) % nCount / tCount := by
  have hlt := index_lt h
  rw [isSyllable_iff, Nat.add_sub_cancel_left, Nat.add_lt_add_iff_left]
  generalize c - sBase = index at hlt ⊢
  have hn : nCount = 588 := rfl
  have ht : tCount = 28 := rfl
  have hs : sCount = 11172 := rfl
  rw [hs] at hlt ⊢
  rw [hn, ht]
  refine ⟨⟨Nat.le_add_right _ _, by omega⟩, by omega, by omega, by omega⟩

theorem mapping_three (h : isSyllable c = true) (hclosed : (c - sBase) % tCount ≠ 0) :
    mapping c = some (sBase + (c - sBase) / tCount * tCount, some (tBase + (c - sBase) % tCount)) := by
  rw [mapping_syllable h, syllableMapping_three hclosed]

theorem letters_decompose (h : isSyllable c = true) : Decomposes c (letters (c - sBase)) := by
  obtain ⟨hl, hv, ht⟩ := letter_plain_of h
  unfold letters
  by_cases hopen : (c - sBase) % tCount = 0
  · rw [if_pos hopen, List.append_nil]
    exact .two (mapping_two h hopen) (.plain hl) (.plain hv)
  · obtain ⟨hs, hzero, hdiv, hmod⟩ := open_part h
    have hpart := mapping_two hs hzero
    rw [hdiv, hmod] at hpart
    rw [if_neg hopen]
    exact .two (mapping_three h hopen) (.two hpart (.plain hl) (.plain hv)) (.plain ht)

theorem syllable_deep (h : isSyllable c = true) : Deep 2 c := by
  obtain ⟨hl, hv, ht⟩ := letter_plain_of h
  by_cases hopen : (c - sBase) % tCount = 0
  · exact .two (mapping_two h hopen) (.plain hl) hv
  · obtain ⟨hs, hzero, hdiv, hmod⟩ := open_part h
    have hpart := mapping_two hs hzero
    rw [hdiv, hmod] at hpart
    exact .two (mapping_three h hopen) (.two hpart (.plain hl) hv) ht

/-- Mappings nest at most three levels. -/
theorem mapping_deep (c : ℕ) : Deep 3 c := by
  cases hmapping : mapping c with
  | none => exact .plain hmapping
  | some x =>
    rcases mapping_cases hmapping with ⟨hsyllable, -⟩ | ⟨e, he, rfl, -⟩
    · exact deep_succ (syllable_deep hsyllable)
    · exact entry_deep he (first_deep he)

/-- So many levels give at most one character more. -/
theorem deep_decomposes (h : Deep n c) : ∃ l, Decomposes c l ∧ l.length ≤ n + 1 := by
  induction h with
  | plain h => exact ⟨_, .plain h, Nat.succ_le_succ (Nat.zero_le _)⟩
  | one h _ ih =>
    obtain ⟨l, hl, hlen⟩ := ih
    exact ⟨l, .one h hl, Nat.le_succ_of_le hlen⟩
  | two h _ hb ih =>
    obtain ⟨l, hl, hlen⟩ := ih
    refine ⟨l ++ [_], .two h hl (.plain hb), ?_⟩
    rw [List.length_append, List.length_singleton]
    exact Nat.succ_le_succ hlen

/-! ## The decomposition that is computed -/

variable {limit left : ℕ} {out : List ℕ}

theorem push_room (h : out.length < limit) (c : ℕ) : push limit out c = some (out ++ [c]) := if_neg (Nat.not_le_of_lt h)

theorem push_letters (index : ℕ) (hroom : out.length + (letters index).length ≤ limit) :
    (((push limit out (lBase + index / nCount)).bind (push limit · (vBase + index % nCount / tCount))).bind fun out =>
      if index % tCount = 0 then some out else push limit out (tBase + index % tCount)) = some (out ++ letters index) := by
  unfold letters at hroom ⊢
  generalize lBase + index / nCount = first at hroom ⊢
  generalize vBase + index % nCount / tCount = second at hroom ⊢
  rw [List.length_append, List.length_cons, List.length_singleton] at hroom
  have hfirst : push limit out first = some (out ++ [first]) := push_room (by omega) first
  have hsecond : push limit (out ++ [first]) second = some (out ++ [first] ++ [second]) := by
    refine push_room ?_ second
    rw [List.length_append, List.length_singleton]
    omega
  rw [hfirst, Option.bind_some, hsecond, Option.bind_some]
  by_cases hopen : index % tCount = 0
  · rw [if_pos hopen, if_pos hopen, List.append_nil, List.append_assoc]
    rfl
  · rw [if_neg hopen, List.length_singleton] at hroom
    have hlen : (out ++ [first] ++ [second]).length < limit := by
      rw [List.length_append, List.length_append, List.length_singleton, List.length_singleton]
      omega
    rw [if_neg hopen, if_neg hopen, push_room hlen, List.append_assoc, List.append_assoc]
    rfl

theorem decompose_syllable (h : isSyllable c = true) (hroom : out.length + (letters (c - sBase)).length ≤ limit) :
    decompose limit (left + 1) out c = some (out ++ letters (c - sBase)) := by
  rw [decompose, if_pos h]
  exact push_letters (c - sBase) hroom

/-- The search of the table goes by the mapping. -/
theorem decompose_mapping (h : isSyllable c = false) (limit left : ℕ) (out : List ℕ) :
    decompose limit (left + 1) out c = (mapping c).elim (push limit out c) fun x =>
      (decompose limit left out x.1).bind fun out => x.2.elim (some out) (decompose limit left out) := by
  have hsearch := search_get (SearchLemmas.ascends_of decomp_ascends) c (0, 0, 0)
  rw [decompose, mapping, h, if_neg Bool.false_ne_true, if_neg Bool.false_ne_true, ← hsearch]
  generalize binarySearchByKey Prod.fst decomp c = found
  generalize decomp = table
  cases found with
  | none => rfl
  | some i =>
    dsimp only [Option.map_some, Option.elim_some]
    generalize table.getD i (0, 0, 0) = e
    by_cases hsecond : e.2.2 = 0
    · rw [if_pos hsecond]
      congr 1
      funext out
      rw [if_pos hsecond]
      rfl
    · rw [if_neg hsecond]
      congr 1
      funext out
      rw [if_neg hsecond]
      rfl

theorem plain_not_syllable (h : mapping c = none) : isSyllable c = false := by
  rw [Bool.eq_false_iff]
  intro hsyllable
  cases h.symm.trans (mapping_syllable hsyllable)

theorem decompose_plain (h : mapping c = none) (hroom : out.length < limit) :
    decompose limit (left + 1) out c = some (out ++ [c]) := by
  rw [decompose_mapping (plain_not_syllable h), h]
  exact push_room hroom c

/-- Where there is room, the source finds the decomposition of a character. -/
theorem decompose_deep (h : Deep n c) (hleft : n < left) (hl : Decomposes c l) (hroom : out.length + l.length ≤ limit) :
    decompose limit left out c = some (out ++ l) := by
  induction h generalizing left out l with
  | @plain n c h =>
    obtain ⟨left, rfl⟩ := Nat.exists_eq_add_one_of_ne_zero (Nat.ne_of_gt (Nat.zero_lt_of_lt hleft))
    cases decomposes_unique hl (.plain h)
    exact decompose_plain h hroom
  | @one n c a h _ ih =>
    obtain ⟨left, rfl⟩ := Nat.exists_eq_add_one_of_ne_zero (Nat.ne_of_gt (Nat.zero_lt_of_lt hleft))
    by_cases hsyllable : isSyllable c = true
    · have hsame := Option.some.inj (h.symm.trans (mapping_syllable hsyllable))
      exact absurd (congrArg (fun x => x.2.isSome) hsame) Bool.false_ne_true
    · obtain ⟨m, hm, rfl⟩ : ∃ m, Decomposes a m ∧ m = l := by
        cases hl with
        | plain h' => cases h.symm.trans h'
        | one h' ha' =>
          cases h.symm.trans h'
          exact ⟨l, ha', rfl⟩
        | two h' _ _ => cases h.symm.trans h'
      rw [decompose_mapping (Bool.eq_false_iff.mpr hsyllable), h]
      dsimp only [Option.elim_some]
      rw [ih (Nat.lt_of_succ_lt_succ hleft) hm hroom]
      rfl
  | @two n c a b h _ hb ih =>
    obtain ⟨left, rfl⟩ := Nat.exists_eq_add_one_of_ne_zero (Nat.ne_of_gt (Nat.zero_lt_of_lt hleft))
    by_cases hsyllable : isSyllable c = true
    · have hsame := decomposes_unique hl (letters_decompose hsyllable)
      subst hsame
      exact decompose_syllable hsyllable hroom
    · obtain ⟨m, hm, rfl⟩ : ∃ m, Decomposes a m ∧ m ++ [b] = l := by
        cases hl with
        | plain h' => cases h.symm.trans h'
        | one h' _ => cases h.symm.trans h'
        | @two _ _ _ m k h' ha' hb' =>
          cases h.symm.trans h'
          cases decomposes_unique hb' (.plain hb)
          exact ⟨m, ha', rfl⟩
      rw [List.length_append, List.length_singleton] at hroom
      have hlast : decompose limit left (out ++ m) b = some (out ++ m ++ [b]) := by
        obtain ⟨left, rfl⟩ := Nat.exists_eq_add_one_of_ne_zero (Nat.ne_of_gt (Nat.zero_lt_of_lt (Nat.lt_of_succ_lt_succ hleft)))
        refine decompose_plain hb ?_
        rw [List.length_append]
        omega
      rw [decompose_mapping (Bool.eq_false_iff.mpr hsyllable), h]
      dsimp only [Option.elim_some]
      rw [ih (Nat.lt_of_succ_lt_succ hleft) hm (by omega), Option.bind_some, hlast, List.append_assoc]

theorem decomposes_total (c : ℕ) : ∃ l, Decomposes c l ∧ l.length ≤ 4 := deep_decomposes (mapping_deep c)

/-- The decomposition of a character. -/
noncomputable def parts (c : ℕ) : List ℕ := (decomposes_total c).choose

theorem parts_decompose (c : ℕ) : Decomposes c (parts c) := (decomposes_total c).choose_spec.1

theorem length_parts (c : ℕ) : (parts c).length ≤ 4 := (decomposes_total c).choose_spec.2

theorem parts_of (h : Decomposes c l) : parts c = l := decomposes_unique (parts_decompose c) h

/-- The loop over a text with room for four characters for each of its own. -/
theorem decompose_all (cs : List Char) (hroom : out.length + 4 * cs.length ≤ limit) :
    cs.foldlM (fun v c => decompose limit 9 v c.toNat) out = some (out ++ (cs.map Char.toNat).flatMap parts) := by
  induction cs generalizing out with
  | nil => rw [List.map_nil, List.flatMap_nil, List.append_nil]; rfl
  | cons c cs ih =>
    have hlen := length_parts c.toNat
    rw [List.length_cons] at hroom
    have hfits : out.length + (parts c.toNat).length ≤ limit := by omega
    have hstep := decompose_deep (mapping_deep c.toNat) (show 3 < 9 by decide) (parts_decompose c.toNat) hfits
    have hroom' : (out ++ parts c.toNat).length + 4 * cs.length ≤ limit := by
      rw [List.length_append]
      omega
    have hrest := ih hroom'
    rw [List.foldlM_cons, hstep, List.map_cons, List.flatMap_cons, ← List.append_assoc]
    exact hrest

/-! ## The composites -/

/-- What a composite of the table is composed of is its mapping. -/
theorem comp_decomp {e : ℕ × ℕ × ℕ} (he : e ∈ comp) : (e.2.2, e.1, e.2.1) ∈ decomp := by
  have hmem : (e.2.2, e.1, e.2.1) ∈ comp.map fun e => (e.2.2, e.1, e.2.1) := List.mem_map_of_mem he
  rw [← (perm_sortBy (fun x y : ℕ × ℕ × ℕ => Nat.blt x.1 y.1) 10 _).mem_iff, comp_sorted] at hmem
  exact List.mem_of_mem_filter hmem

theorem comp_entry {e : ℕ × ℕ × ℕ} (he : e ∈ comp) : classKeys.testBit e.2.2 = false ∧ 0 < e.2.1 ∧
    isScalar e.2.2 = true ∧ (e.1 < lBase ∨ 0x1200 ≤ e.1) ∧ isSyllable e.1 = false := by
  have h := List.all_eq_true.mp comp_starters e he
  simp only [Bool.and_eq_true, Bool.or_eq_true, Bool.not_eq_true', Nat.blt_eq, Nat.ble_eq] at h
  exact ⟨h.1, h.2.1.1, h.2.1.2, h.2.2, (apart (comp_decomp he)).2.2.1⟩

theorem comp_find (a b p : ℕ) : (binarySearchByKey pairOf comp (toLex (a, b))).map (fun i => (comp.getD i (0, 0, 0)).2.2) =
    some p ↔ (a, b, p) ∈ comp := by
  have hsearch := search_get (SearchLemmas.ascends_of comp_ascends) (toLex (a, b)) (0, 0, 0)
  have hmap : (binarySearchByKey pairOf comp (toLex (a, b))).map (fun i => (comp.getD i (0, 0, 0)).2.2) =
      (comp.find? fun e => pairOf e = toLex (a, b)).map fun e => e.2.2 := by
    rw [← hsearch, Option.map_map]
    rfl
  rw [hmap, Option.map_eq_some_iff]
  constructor
  · rintro ⟨e, hfind, rfl⟩
    have hfound := List.find?_some hfind
    have hkey : pairOf e = toLex (a, b) := of_decide_eq_true hfound
    have hpair : (e.1, e.2.1) = (a, b) := toLex.injective hkey
    cases hpair
    exact List.mem_of_find?_eq_some hfind
  · intro hmem
    exact ⟨(a, b, p), SearchLemmas.find?_key (SearchLemmas.ascends_of comp_ascends) hmem, rfl⟩

/-- The first letter, a vowel, and the syllable that both are. -/
structure TwoLetters (a b p : ℕ) : Prop where
  first : lBase ≤ a ∧ a < lBase + lCount
  second : vBase ≤ b ∧ b < vBase + vCount
  whole : p = sBase + ((a - lBase) * vCount + (b - vBase)) * tCount

/-- A syllable without a last letter, a last letter, and the syllable that both are. -/
structure ThirdLetter (a b p : ℕ) : Prop where
  first : sBase ≤ a ∧ a < sBase + sCount
  two : (a - sBase) % tCount = 0
  third : tBase < b ∧ b < tBase + tCount
  whole : p = a + (b - tBase)

theorem twoLetters_iff : TwoLetters a b p ↔
    isSyllable p = true ∧ (p - sBase) % tCount = 0 ∧
      (lBase + (p - sBase) / nCount, vBase + (p - sBase) % nCount / tCount) = (a, b) := by
  have hn : nCount = 588 := rfl
  have ht : tCount = 28 := rfl
  have hs : sCount = 11172 := rfl
  have hv : vCount = 21 := rfl
  have hl : lCount = 19 := rfl
  constructor
  · rintro ⟨⟨ha, ha'⟩, ⟨hb, hb'⟩, hp⟩
    rw [hp]
    obtain ⟨i, rfl⟩ := Nat.exists_eq_add_of_le ha
    obtain ⟨j, rfl⟩ := Nat.exists_eq_add_of_le hb
    rw [Nat.add_lt_add_iff_left] at ha' hb'
    rw [Nat.add_sub_cancel_left, Nat.add_sub_cancel_left, isSyllable_iff, Nat.add_sub_cancel_left,
      Nat.add_lt_add_iff_left]
    rw [hl] at ha'
    rw [hv] at hb' ⊢
    rw [hn, ht, hs]
    refine ⟨⟨Nat.le_add_right _ _, by omega⟩, by omega, ?_⟩
    rw [show (i * 21 + j) * 28 / 588 = i by omega, show (i * 21 + j) * 28 % 588 / 28 = j by omega]
  · rintro ⟨hsyllable, hopen, hpair⟩
    obtain ⟨hi, hj, -⟩ := syllable_bounds hsyllable
    obtain ⟨hle, -⟩ := isSyllable_iff.mp hsyllable
    obtain ⟨index, rfl⟩ := Nat.exists_eq_add_of_le hle
    rw [Nat.add_sub_cancel_left] at hopen hpair hi hj
    obtain ⟨rfl, rfl⟩ := Prod.mk.inj hpair
    rw [hn] at hi hj
    rw [ht] at hj hopen
    refine ⟨⟨Nat.le_add_right _ _, ?_⟩, ⟨Nat.le_add_right _ _, ?_⟩, ?_⟩
    · rw [Nat.add_lt_add_iff_left, hn, hl]
      exact hi
    · rw [Nat.add_lt_add_iff_left, hn, ht, hv]
      exact hj
    · rw [Nat.add_sub_cancel_left, Nat.add_sub_cancel_left, hn, ht, hv]
      congr 1
      omega

theorem thirdLetter_iff : ThirdLetter a b p ↔
    isSyllable p = true ∧ (p - sBase) % tCount ≠ 0 ∧
      (sBase + (p - sBase) / tCount * tCount, tBase + (p - sBase) % tCount) = (a, b) := by
  have ht : tCount = 28 := rfl
  have hs : sCount = 11172 := rfl
  constructor
  · rintro ⟨⟨ha, ha'⟩, htwo, ⟨hb, hb'⟩, hp⟩
    rw [hp]
    obtain ⟨i, rfl⟩ := Nat.exists_eq_add_of_le ha
    obtain ⟨j, rfl⟩ := Nat.exists_eq_add_of_le (Nat.le_of_lt hb)
    rw [Nat.add_lt_add_iff_left] at ha' hb'
    rw [Nat.add_sub_cancel_left] at htwo
    rw [Nat.add_sub_cancel_left, isSyllable_iff, Nat.add_assoc, Nat.add_sub_cancel_left, Nat.add_lt_add_iff_left]
    rw [hs] at ha' ⊢
    rw [ht] at hb' htwo ⊢
    refine ⟨⟨Nat.le_add_right _ _, by omega⟩, by omega, ?_⟩
    rw [show (i + j) / 28 * 28 = i by omega, show (i + j) % 28 = j by omega]
  · rintro ⟨hsyllable, hclosed, hpair⟩
    have hlt := index_lt hsyllable
    obtain ⟨hle, -⟩ := isSyllable_iff.mp hsyllable
    obtain ⟨index, rfl⟩ := Nat.exists_eq_add_of_le hle
    rw [Nat.add_sub_cancel_left] at hclosed hpair hlt
    obtain ⟨rfl, rfl⟩ := Prod.mk.inj hpair
    rw [hs] at hlt
    rw [ht] at hclosed
    refine ⟨⟨Nat.le_add_right _ _, ?_⟩, ?_, ⟨?_, ?_⟩, ?_⟩
    · rw [Nat.add_lt_add_iff_left, ht, hs]
      omega
    · rw [Nat.add_sub_cancel_left, ht]
      omega
    · rw [ht]
      exact Nat.lt_add_of_pos_right (Nat.pos_of_ne_zero hclosed)
    · rw [Nat.add_lt_add_iff_left, ht]
      omega
    · rw [Nat.add_sub_cancel_left, ht, Nat.add_assoc]
      congr 1
      omega

/-- The composites among the syllables. -/
theorem syllable_pair : isSyllable p = true ∧ syllableMapping p = (a, b) ↔ TwoLetters a b p ∨ ThirdLetter a b p := by
  rw [twoLetters_iff, thirdLetter_iff]
  constructor
  · rintro ⟨hsyllable, hpair⟩
    by_cases hopen : (p - sBase) % tCount = 0
    · rw [syllableMapping_two hopen] at hpair
      exact .inl ⟨hsyllable, hopen, hpair⟩
    · rw [syllableMapping_three hopen] at hpair
      exact .inr ⟨hsyllable, hopen, hpair⟩
  · rintro (⟨hsyllable, hopen, hpair⟩ | ⟨hsyllable, hclosed, hpair⟩)
    · exact ⟨hsyllable, (syllableMapping_two hopen).trans hpair⟩
    · exact ⟨hsyllable, (syllableMapping_three hclosed).trans hpair⟩

end NfcExactLemmas

open NfcExactLemmas

/-- The source's bound on its work, four times the text and sixteen, is a `usize`. -/
def Sized (s : String) : Prop := (utf8 s).length * 4 + 16 < 2 ^ 64

/-- The source composes just the primary composites. -/
theorem composePair_iff {a b p : ℕ} : composePair a b = some p ↔ IsComposite a b p := by
  have hcomp (h : (a, b, p) ∈ comp) : (a < lBase ∨ 0x1200 ≤ a) ∧ isSyllable a = false := (comp_entry h).2.2.2
  unfold IsComposite
  rw [syllable_pair]
  unfold composePair
  split
  next htwo =>
    obtain ⟨hfirst, hsecond⟩ := htwo
    rw [Option.some.injEq]
    constructor
    · intro hp
      exact .inl (.inl ⟨hfirst, hsecond, hp.symm⟩)
    · rintro ((⟨-, -, hp⟩ | ⟨⟨ha, -⟩, -, -, -⟩) | hmem)
      · exact hp.symm
      · exact absurd (Nat.lt_of_lt_of_le hfirst.2 (Nat.le_trans (show lBase + lCount ≤ sBase by decide) ha)) (Nat.lt_irrefl a)
      · rcases (hcomp hmem).1 with hlt | hge
        · exact absurd hfirst.1 (Nat.not_le_of_lt hlt)
        · exact absurd (Nat.lt_of_lt_of_le hfirst.2 (Nat.le_trans (show lBase + lCount ≤ 0x1200 by decide) hge)) (Nat.lt_irrefl a)
  next htwo =>
    split
    next hthree =>
      obtain ⟨hfirst, hopen, hthird⟩ := hthree
      rw [Option.some.injEq]
      constructor
      · intro hp
        exact .inl (.inr ⟨hfirst, hopen, hthird, hp.symm⟩)
      · rintro ((⟨ha, hb, -⟩ | ⟨-, -, -, hp⟩) | hmem)
        · exact absurd ⟨ha, hb⟩ htwo
        · exact hp.symm
        · cases (hcomp hmem).2.symm.trans (isSyllable_iff.mpr hfirst)
    next hthree =>
      rw [comp_find]
      constructor
      · exact .inr
      · rintro ((⟨ha, hb, -⟩ | ⟨ha, hopen, hb, -⟩) | hmem)
        · exact absurd ⟨ha, hb⟩ htwo
        · exact absurd ⟨ha, hopen, hb⟩ hthree
        · exact hmem

namespace NfcExactLemmas

variable {a b c p p' : ℕ} {l w : List ℕ} {s t : String}

theorem pairs_eq : Pairs = IsComposite := by
  funext a b p
  exact propext composePair_iff

theorem composite_one (h : IsComposite a b p) (h' : IsComposite a b p') : p = p' :=
  Option.some.inj (((composePair_iff).mpr h).symm.trans ((composePair_iff).mpr h'))

theorem no_class (h : ∀ e ∈ ccc, e.1 ≠ c) : combiningClass c = 0 := by
  have hnone : ccc.find? (fun e => decide (e.1 = c)) = none :=
    List.find?_eq_none.mpr fun e he heq => h e he (of_decide_eq_true heq)
  rw [combiningClass_eq, classOf, hnone]
  rfl

/-- Composites are starters. -/
theorem composite_starter (h : IsComposite a b p) : combiningClass p = 0 := by
  rcases h with ⟨hsyllable, -⟩ | hmem
  · refine no_class fun e he heq => ?_
    have hfree := List.all_eq_true.mp syllables_starters e he
    rw [heq, hsyllable] at hfree
    cases hfree
  · refine no_class fun e he heq => ?_
    have hbit : classKeys.testBit p = true := by
      rw [classKeys, testBit_bitset, ← heq]
      exact List.mem_map_of_mem he
    cases (comp_entry hmem).1.symm.trans hbit

/-- A composite maps to its pair. -/
theorem composite_mapping (h : IsComposite a b p) : mapping p = some (a, some b) := by
  rcases h with ⟨hsyllable, hpair⟩ | hmem
  · rw [mapping_syllable hsyllable, hpair]
  · have hmapping := entry_mapping (comp_decomp hmem)
    rw [if_neg (Nat.ne_of_gt (comp_entry hmem).2.1)] at hmapping
    exact hmapping

theorem composite_parts (h : IsComposite a b p) (hb : parts b = [b]) : parts p = parts a ++ [b] := by
  have hlast := parts_decompose b
  rw [hb] at hlast
  exact parts_of (.two (composite_mapping h) (parts_decompose a) hlast)

theorem composed_form (v : List ℕ) :
    Composes combiningClass IsComposite [] (order combiningClass v) (composed (order combiningClass v)) := by
  have h := composed_composes (fun a b p hp => composite_starter ((composePair_iff).mp hp))
    (CombiningLemmas.order_settled v)
  rw [pairs_eq] at h
  exact h

/-- The decomposition of a text, and all that the tables say of it. -/
noncomputable def taken (cs : List ℕ) : List ℕ := order combiningClass (cs.flatMap parts)

theorem decompose_cs (cs : List ℕ) : List.Forall₂ Decomposes cs (cs.map parts) := by
  induction cs with
  | nil => exact .nil
  | cons c cs ih => exact .cons (parts_decompose c) ih

theorem decompose_cs_unique {cs : List ℕ} {ds : List (List ℕ)} (h : List.Forall₂ Decomposes cs ds) : ds = cs.map parts := by
  induction h with
  | nil => rfl
  | cons hc _ ih => rw [List.map_cons, parts_of hc, ih]

/-- The one normalization form of a sequence of characters. -/
theorem form_iff (cs w : List ℕ) : Form cs w ↔ w = composed (taken cs) := by
  constructor
  · rintro ⟨ds, o, hds, hreorders, hcomposes⟩
    rw [decompose_cs_unique hds, ← List.flatMap_def, ← combiningClass_eq, reorders_iff] at hreorders
    rw [hreorders, ← combiningClass_eq] at hcomposes
    exact composes_unique (fun a b p p' => @composite_one a b p p') hcomposes (composed_form _)
  · rintro rfl
    refine ⟨cs.map parts, taken cs, decompose_cs cs, ?_, ?_⟩
    · rw [← List.flatMap_def, ← combiningClass_eq, reorders_iff]
      rfl
    · rw [← combiningClass_eq]
      exact composed_form _

/-- The characters of a text. -/
def scalars (s : String) : List ℕ := s.toList.map Char.toNat

theorem length_chars (s : String) : s.toList.length ≤ (utf8 s).length := by
  rw [utf8_eq]
  generalize s.toList = cs
  induction cs with
  | nil => exact Nat.le_refl 0
  | cons c cs ih =>
    rw [List.flatMap_cons, List.length_append, List.length_cons]
    have hpos : 0 < (encode c).length := by
      rw [encode, String.length_utf8EncodeChar]
      exact c.utf8Size_pos
    omega

/-- What `to_nfc` computes. -/
theorem toNfc_eq (h : Sized s) : toNfc s = some (composed (taken (scalars s))) := by
  unfold Sized at h
  have hlen := length_chars s
  have hmul : checkedMul (utf8 s).length 4 = some ((utf8 s).length * 4) := if_pos (by omega)
  have hadd : checkedAdd ((utf8 s).length * 4) 16 = some ((utf8 s).length * 4 + 16) := if_pos h
  have hall := @decompose_all ((utf8 s).length * 4 + 16) [] s.toList (by rw [List.length_nil]; omega)
  unfold toNfc
  rw [hmul, Option.bind_some, hadd, Option.bind_some, hall, Option.map_some, ordered_eq]
  rfl

/-! ## Characters -/

theorem scalar_iff (c : ℕ) : isScalar c = true ↔ c < 0xD800 ∨ (0xDFFF < c ∧ c < 0x110000) := by
  unfold isScalar
  rw [Bool.or_eq_true, Bool.and_eq_true, Nat.blt_eq, Nat.blt_eq, Nat.blt_eq]

theorem char_scalar (c : Char) : isScalar c.toNat = true := (scalar_iff _).mpr c.valid

theorem toNat_ofNat (h : c.isValidChar) : (Char.ofNat c).toNat = c := by
  rw [Char.ofNat, dif_pos h]
  rfl

theorem charFromU32_some (h : isScalar c = true) : ∃ d, Json.charFromU32 c = some d ∧ d.toNat = c := by
  have hvalid := (scalar_iff c).mp h
  exact ⟨Char.ofNat c, if_pos hvalid, toNat_ofNat hvalid⟩

theorem charFromU32_toNat {d : Char} (h : Json.charFromU32 c = some d) : d.toNat = c := by
  unfold Json.charFromU32 at h
  split at h
  next hvalid =>
    cases h
    exact toNat_ofNat hvalid
  · cases h

theorem small_scalar (h : c < 0xD800) : isScalar c = true := (scalar_iff c).mpr (.inl h)

theorem syllable_scalar (h : isSyllable c = true) : isScalar c = true :=
  small_scalar (Nat.lt_of_lt_of_le (isSyllable_iff.mp h).2 (show sBase + sCount ≤ 0xD800 by decide))

theorem letter_scalar {base bound x : ℕ} (hx : x < bound) (hsmall : base + bound ≤ 0xD800) : isScalar (base + x) = true :=
  small_scalar (Nat.lt_of_lt_of_le (Nat.add_lt_add_left hx base) hsmall)

theorem syllableMapping_scalar (h : isSyllable c = true) :
    isScalar (syllableMapping c).1 = true ∧ isScalar (syllableMapping c).2 = true := by
  obtain ⟨hl, hv, ht⟩ := syllable_bounds h
  by_cases hopen : (c - sBase) % tCount = 0
  · rw [syllableMapping_two hopen]
    exact ⟨letter_scalar hl (by decide), letter_scalar hv (by decide)⟩
  · rw [syllableMapping_three hopen]
    exact ⟨syllable_scalar (open_part h).1, letter_scalar ht (by decide)⟩

/-- The parts of a mapping are characters. -/
theorem mapping_scalar {b : Option ℕ} (h : mapping c = some (a, b)) : isScalar a = true ∧ ∀ x ∈ b, isScalar x = true := by
  rcases mapping_cases h with ⟨hsyllable, hpair⟩ | ⟨e, he, -, -, -, hpair⟩
  · obtain ⟨hfirst, hsecond⟩ := syllableMapping_scalar hsyllable
    obtain ⟨ha, hb⟩ := Prod.mk.inj hpair
    rw [ha, hb]
    refine ⟨hfirst, ?_⟩
    intro x hx
    rw [← Option.some.inj hx]
    exact hsecond
  · obtain ⟨-, -, -, -, hfirst, hsecond⟩ := apart he
    obtain ⟨rfl, rfl⟩ := Prod.mk.inj hpair
    refine ⟨hfirst, ?_⟩
    intro x hx
    split at hx
    · cases hx
    · cases hx
      exact hsecond

theorem decomposes_scalar (h : Decomposes c l) (hc : isScalar c = true) : ∀ x ∈ l, isScalar x = true := by
  induction h with
  | plain _ =>
    intro x hx
    cases List.mem_singleton.mp hx
    exact hc
  | one h _ ih => exact ih (mapping_scalar h).1
  | two h _ _ iha ihb =>
    obtain ⟨ha, hb⟩ := mapping_scalar h
    intro x hx
    rcases List.mem_append.mp hx with hx | hx
    · exact iha ha x hx
    · exact ihb (hb _ rfl) x hx

theorem composite_scalar (h : IsComposite a b p) : isScalar p = true := by
  rcases h with ⟨hsyllable, -⟩ | hmem
  · exact syllable_scalar hsyllable
  · exact (comp_entry hmem).2.2.1

/-- What a text is taken apart into has no mapping, and is characters. -/
theorem mem_taken {cs : List ℕ} {x : ℕ} (h : x ∈ taken cs) : ∃ c ∈ cs, x ∈ parts c := by
  have hperm : (cs.flatMap parts).Perm (taken cs) := CombiningLemmas.perm_reach (CombiningLemmas.order_reached _)
  exact List.mem_flatMap.mp (hperm.mem_iff.mpr h)

theorem taken_plain {cs : List ℕ} {x : ℕ} (h : x ∈ taken cs) : parts x = [x] := by
  obtain ⟨c, -, hx⟩ := mem_taken h
  exact parts_of (.plain (decomposes_plain (parts_decompose c) x hx))

theorem composed_scalar (s : String) : ∀ x ∈ composed (taken (scalars s)), isScalar x = true := by
  intro x hx
  rcases composes_mem (composed_form _) x hx with hnone | htaken | ⟨a, b, hcomposite⟩
  · cases hnone
  · obtain ⟨c, hc, hpart⟩ := mem_taken htaken
    obtain ⟨d, -, rfl⟩ := List.mem_map.mp hc
    exact decomposes_scalar (parts_decompose d.toNat) (char_scalar d) x hpart
  · exact composite_scalar hcomposite

/-- Taking a composition apart gives what it was composed of. -/
theorem taken_composed (cs : List ℕ) : taken (composed (taken cs)) = taken cs := by
  have hnone : ∀ b ∈ ([] : List ℕ), combiningClass b ≠ 0 → parts b = [b] := by
    rintro b ⟨⟩
  have h : order combiningClass ((composed (taken cs)).flatMap parts) =
      order combiningClass (([] : List ℕ).flatMap parts ++ taken cs) :=
    @composes_equivalent ℕ combiningClass IsComposite parts (fun _ _ _ => composite_starter)
      (fun _ _ _ => composite_parts) [] _ _ (composed_form _) hnone (fun _ => taken_plain)
  have hsettled : order combiningClass (taken cs) = taken cs :=
    CombiningLemmas.order_of_settled (CombiningLemmas.order_settled _)
  rw [List.flatMap_nil, List.nil_append, hsettled] at h
  exact h

/-! ## Texts -/

theorem exists_text {v : List ℕ} (h : ∀ x ∈ v, isScalar x = true) : ∃ t, scalars t = v := by
  refine ⟨String.ofList (v.map Char.ofNat), ?_⟩
  rw [scalars, String.toList_ofList, List.map_map]
  exact (List.map_congr_left fun x hx => toNat_ofNat ((scalar_iff x).mp (h x hx))).trans (List.map_id v)

theorem mapM_scalars (cs : List Char) : (cs.map Char.toNat).mapM Json.charFromU32 = some cs := by
  induction cs with
  | nil => rfl
  | cons c cs ih =>
    have hc : Json.charFromU32 c.toNat = some c := by
      obtain ⟨d, hd, hsame⟩ := charFromU32_some (char_scalar c)
      rw [hd, Char.toNat_inj.mp hsame]
    rw [List.map_cons, List.mapM_cons, hc, ih]
    rfl

theorem scalars_mapM {v : List ℕ} {cs : List Char} (h : v.mapM Json.charFromU32 = some cs) : cs.map Char.toNat = v := by
  induction v generalizing cs with
  | nil =>
    cases h
    rfl
  | cons x v ih =>
    rw [List.mapM_cons] at h
    obtain ⟨c, hc, h⟩ := Option.bind_eq_some_iff.mp h
    obtain ⟨rest, hrest, h⟩ := Option.bind_eq_some_iff.mp h
    cases h
    rw [List.map_cons, charFromU32_toNat hc, ih hrest]

/-- A text's normal form, as a text and as characters. -/
theorem normalize_iff : normalize s = some t ↔ toNfc s = some (scalars t) := by
  unfold normalize
  constructor
  · intro h
    obtain ⟨v, hv, h⟩ := Option.bind_eq_some_iff.mp h
    obtain ⟨cs, hcs, rfl⟩ := Option.map_eq_some_iff.mp h
    rw [hv, scalars, String.toList_ofList, scalars_mapM hcs]
  · intro h
    rw [h, Option.bind_some, scalars, mapM_scalars, Option.map_some, String.ofList_toList]

theorem isNormalized_iff (limit : ℕ) : isNormalized s limit = true ↔ (utf8 s).length ≤ limit ∧ toNfc s = some (scalars s) := by
  unfold isNormalized
  split
  next hlong =>
    constructor
    · rintro ⟨⟩
    · rintro ⟨hle, -⟩
      exact absurd hlong (Nat.not_lt_of_le hle)
  next hfits =>
    rw [Option.any_eq_true]
    constructor
    · rintro ⟨v, hv, hsame⟩
      refine ⟨Nat.le_of_not_lt hfits, ?_⟩
      rw [hv, ← beq_iff_eq.mp hsame]
      rfl
    · rintro ⟨-, hv⟩
      exact ⟨scalars s, hv, beq_self_eq_true _⟩

end NfcExactLemmas

/-- `to_nfc` returns the one normalization form C of a text. -/
theorem toNfc_exact (s : String) (h : Sized s) :
    ∃ w, toNfc s = some w ∧ ∀ w', Form (s.toList.map Char.toNat) w' ↔ w' = w :=
  ⟨composed (taken (scalars s)), toNfc_eq h, form_iff (scalars s)⟩

/-- At an accent after its letter. -/
theorem accent_exact : ∃ w, toNfc "e\u0301" = some w ∧ ∀ w', Form ("e\u0301".toList.map Char.toNat) w' ↔ w' = w :=
  toNfc_exact "e\u0301" (by unfold Sized; decide)

/-- Normalising never fails and changes nothing the second time; a text is normalised just when
normalising returns it, as far as the length allows the question. -/
theorem normalize_exact (s : String) (h : Sized s) :
    (∃ t, normalize s = some t) ∧ (∀ t, normalize s = some t → Sized t → normalize t = some t) ∧
      ∀ limit, isNormalized s limit = true ↔ (utf8 s).length ≤ limit ∧ normalize s = some s := by
  refine ⟨?_, ?_, ?_⟩
  · obtain ⟨t, ht⟩ := exists_text (composed_scalar s)
    refine ⟨t, normalize_iff.mpr ?_⟩
    rw [ht]
    exact toNfc_eq h
  · intro t ht htsized
    have hsame := Option.some.inj ((normalize_iff.mp ht).symm.trans (toNfc_eq h))
    refine normalize_iff.mpr ?_
    rw [toNfc_eq htsized, hsame, taken_composed]
  · intro limit
    rw [isNormalized_iff, normalize_iff]

theorem accent_normalizes : (∃ t, normalize "e\u0301" = some t) ∧
    (∀ t, normalize "e\u0301" = some t → Sized t → normalize t = some t) ∧
      ∀ limit, isNormalized "e\u0301" limit = true ↔ (utf8 "e\u0301").length ≤ limit ∧ normalize "e\u0301" = some "e\u0301" :=
  normalize_exact "e\u0301" (by unfold Sized; decide)

end OmtClient.Common.Nfc
