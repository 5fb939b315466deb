import Mathlib.Algebra.Order.Ring.Int
import Mathlib.Data.List.Basic

/-!
# Cutting a text

Texts are lists of characters or bytes. `splitOnce` and `rsplitOnce` cut at the
first and the last separator, `stripPrefix` removes a text from the front, `findSub`
looks for a text, and `List.splitOn` cuts at every separator.

1. `splitOnce_eq_some`, `rsplitOnce_eq_some`: where the cut is.
2. `findSub_append`: what follows does not move the first occurrence of a text.
3. `length_splitOn`: one more piece than separators.
-/

namespace OmtClient.Lib

variable {α : Type} [DecidableEq α]

/-- `str::split_once`, at one character. -/
def splitOnce (c : α) : List α → Option (List α × List α)
  | [] => none
  | x :: xs => if x = c then some ([], xs) else (splitOnce c xs).map fun p => (x :: p.1, p.2)

/-- `str::rsplit_once`, at one character. -/
def rsplitOnce (c : α) (l : List α) : Option (List α × List α) :=
  (splitOnce c l.reverse).map fun p => (p.2.reverse, p.1.reverse)

/-- `str::strip_prefix`. -/
def stripPrefix (p l : List α) : Option (List α) := if p.isPrefixOf l then some (l.drop p.length) else none

/-- Where a text first occurs in another. -/
def findSub (p : List α) : List α → Option Nat
  | [] => if p = [] then some 0 else none
  | x :: xs => if p.isPrefixOf (x :: xs) then some 0 else (findSub p xs).map (· + 1)

variable {c : α} {l as bs : List α}

theorem splitOnce_cons (x : α) (xs : List α) :
    splitOnce c (x :: xs) = if x = c then some ([], xs) else (splitOnce c xs).map fun p => (x :: p.1, p.2) := rfl

theorem findSub_nil (p : List α) : findSub p [] = if p = [] then some 0 else none := rfl

theorem findSub_cons (p : List α) (x : α) (xs : List α) :
    findSub p (x :: xs) = if p.isPrefixOf (x :: xs) then some 0 else (findSub p xs).map (· + 1) := rfl

theorem splitOnce_append (h : c ∉ as) : splitOnce c (as ++ c :: bs) = some (as, bs) := by
  induction as with
  | nil => exact if_pos rfl
  | cons a as ih =>
    rw [List.mem_cons, not_or] at h
    rw [List.cons_append, splitOnce_cons, if_neg (Ne.symm h.1), ih h.2]
    rfl

/-- The cut is at the first separator. -/
theorem splitOnce_eq_some : splitOnce c l = some (as, bs) ↔ l = as ++ c :: bs ∧ c ∉ as := by
  constructor
  · intro h
    induction l generalizing as with
    | nil => cases h
    | cons x xs ih =>
      rw [splitOnce_cons] at h
      split at h
      · next hx =>
        cases h
        exact ⟨by rw [hx]; rfl, List.not_mem_nil⟩
      · next hx =>
        obtain ⟨⟨as', bs'⟩, hcut, heq⟩ := Option.map_eq_some_iff.mp h
        cases heq
        obtain ⟨rfl, hnot⟩ := ih hcut
        exact ⟨rfl, by rw [List.mem_cons, not_or]; exact ⟨Ne.symm hx, hnot⟩⟩
  · rintro ⟨rfl, hnot⟩
    exact splitOnce_append hnot

theorem splitOnce_eq_none : splitOnce c l = none ↔ c ∉ l := by
  induction l with
  | nil => exact ⟨fun _ => List.not_mem_nil, fun _ => rfl⟩
  | cons x xs ih =>
    rw [splitOnce_cons, List.mem_cons, not_or]
    split
    · next hx => exact ⟨fun h => (nomatch h), fun h => absurd hx.symm h.1⟩
    · next hx =>
      rw [Option.map_eq_none_iff, ih]
      exact ⟨fun h => ⟨Ne.symm hx, h⟩, fun h => h.2⟩

/-- The cut is at the last separator. -/
theorem rsplitOnce_eq_some : rsplitOnce c l = some (as, bs) ↔ l = as ++ c :: bs ∧ c ∉ bs := by
  have hrev : rsplitOnce c l = some (as, bs) ↔ splitOnce c l.reverse = some (bs.reverse, as.reverse) := by
    rw [rsplitOnce, Option.map_eq_some_iff]
    constructor
    · rintro ⟨⟨x, y⟩, hcut, heq⟩
      cases heq
      rw [List.reverse_reverse, List.reverse_reverse]
      exact hcut
    · intro h
      exact ⟨_, h, by rw [List.reverse_reverse, List.reverse_reverse]⟩
  rw [hrev, splitOnce_eq_some, List.mem_reverse]
  have hl : l.reverse = bs.reverse ++ c :: as.reverse ↔ l = as ++ c :: bs := by
    rw [← List.reverse_inj, List.reverse_reverse, List.reverse_append, List.reverse_reverse,
      List.reverse_cons, List.reverse_reverse, List.append_assoc]
    rfl
  rw [hl]

theorem stripPrefix_eq_some {p rest : List α} : stripPrefix p l = some rest ↔ l = p ++ rest := by
  rw [stripPrefix]
  split
  · next h =>
    obtain ⟨tail, rfl⟩ := List.isPrefixOf_iff_prefix.mp h
    rw [List.drop_left, Option.some.injEq]
    exact ⟨fun h => by rw [h], List.append_cancel_left⟩
  · next h =>
    constructor
    · intro hno
      cases hno
    · rintro rfl
      exact absurd (List.isPrefixOf_iff_prefix.mpr (List.prefix_append _ _)) h

theorem stripPrefix_append (p rest : List α) : stripPrefix p (p ++ rest) = some rest :=
  (stripPrefix_eq_some).mpr rfl

/-- A text is found at the end of another. -/
theorem findSub_suffix (as p : List α) : (findSub p (as ++ p)).isSome = true := by
  induction as with
  | nil =>
    cases p with
    | nil => rfl
    | cons x p =>
      rw [List.nil_append, findSub_cons, if_pos (List.isPrefixOf_iff_prefix.mpr (List.prefix_refl _))]
      rfl
  | cons a as ih =>
    rw [List.cons_append, findSub_cons]
    split
    · rfl
    · rw [Option.isSome_map, ih]

/-- Where a text is found, it stands. -/
theorem findSub_eq_some {p : List α} {k : Nat} (h : findSub p l = some k) :
    p <+: l.drop k ∧ k + p.length ≤ l.length := by
  induction l generalizing k with
  | nil =>
    rw [findSub_nil] at h
    split at h
    · next hp =>
      cases h
      rw [hp]
      exact ⟨List.nil_prefix, Nat.le_refl _⟩
    · cases h
  | cons x xs ih =>
    rw [findSub_cons] at h
    split at h
    · next hp =>
      cases h
      have hstarts := List.isPrefixOf_iff_prefix.mp hp
      exact ⟨hstarts, by rw [Nat.zero_add]; exact hstarts.length_le⟩
    · obtain ⟨j, hj, rfl⟩ := Option.map_eq_some_iff.mp h
      obtain ⟨hstarts, hlen⟩ := ih hj
      exact ⟨hstarts, by rw [List.length_cons]; omega⟩

/-- Where a text is found, it has not stood before. -/
theorem findSub_first {p : List α} {k : Nat} (h : findSub p l = some k) : ∀ j < k, ¬ p <+: l.drop j := by
  induction l generalizing k with
  | nil =>
    rw [findSub_nil] at h
    split at h
    · cases h
      exact fun j hj => absurd hj (Nat.not_lt_zero j)
    · cases h
  | cons x xs ih =>
    rw [findSub_cons] at h
    split at h
    · cases h
      exact fun j hj => absurd hj (Nat.not_lt_zero j)
    next hp =>
      obtain ⟨i, hi, rfl⟩ := Option.map_eq_some_iff.mp h
      intro j hj
      cases j with
      | zero => exact fun hstarts => hp (List.isPrefixOf_iff_prefix.mpr hstarts)
      | succ j => exact ih hi j (Nat.lt_of_succ_lt_succ hj)

/-- What follows does not move an occurrence. -/
theorem findSub_append {p : List α} {k : Nat} (more : List α) (h : findSub p l = some k) :
    findSub p (l ++ more) = some k := by
  induction l generalizing k with
  | nil =>
    rw [findSub_nil] at h
    split at h
    · next hp =>
      cases h
      cases more with
      | nil => exact if_pos hp
      | cons x xs => exact if_pos (by rw [hp]; rfl)
    · cases h
  | cons x xs ih =>
    rw [findSub_cons] at h
    rw [List.cons_append, findSub_cons]
    split at h
    · next hp =>
      cases h
      have hstarts := (List.isPrefixOf_iff_prefix.mp hp).trans (List.prefix_append _ more)
      exact if_pos (List.isPrefixOf_iff_prefix.mpr hstarts)
    · next hp =>
      obtain ⟨j, hj, rfl⟩ := Option.map_eq_some_iff.mp h
      have hlen := (findSub_eq_some hj).2
      rw [if_neg, ih hj]
      · rfl
      · -- the text is no longer than what was searched, so a longer one does not help
        intro hlong
        refine hp (List.isPrefixOf_iff_prefix.mpr ?_)
        have hstarts := List.isPrefixOf_iff_prefix.mp hlong
        rw [← List.cons_append] at hstarts
        exact List.prefix_of_prefix_length_le hstarts (List.prefix_append _ _)
          (by rw [List.length_cons]; omega)

/-- A text whose first letter has not stood before. -/
theorem findSub_after {p : List α} (h : c ∉ as) (rest : List α) :
    findSub (c :: p) (as ++ (c :: p ++ rest)) = some as.length := by
  induction as with
  | nil => exact if_pos (List.isPrefixOf_iff_prefix.mpr (List.prefix_append _ _))
  | cons x xs ih =>
    rw [List.mem_cons, not_or] at h
    have hnot : ¬ (c :: p).isPrefixOf (x :: (xs ++ (c :: p ++ rest))) = true := by
      rw [List.isPrefixOf_iff_prefix, List.cons_prefix_cons]
      exact fun hstarts => h.1 hstarts.1
    rw [List.cons_append, findSub_cons, if_neg hnot, ih h.2]
    rfl

/-- The end of the first occurrence is where it was when nothing follows it. -/
theorem findSub_cut {p : List α} {k : Nat} (h : findSub p l = some k) :
    l = l.take k ++ (p ++ l.drop (k + p.length)) ∧ findSub p (l.take k ++ p) = some (l.take k).length := by
  obtain ⟨⟨rest, hrest⟩, hlen⟩ := findSub_eq_some h
  have htake : (l.take k).length = k := List.length_take_of_le (by omega)
  have hdrop : l.drop (k + p.length) = rest := by
    rw [← List.drop_drop, ← hrest, List.drop_left]
  refine ⟨by rw [hdrop, hrest, List.take_append_drop], ?_⟩
  rw [htake]
  clear hdrop htake hlen
  induction l generalizing k with
  | nil =>
    rw [findSub_nil] at h
    split at h
    · next hp =>
      cases h
      rw [hp]
      rfl
    · cases h
  | cons x xs ih =>
    rw [findSub_cons] at h
    split at h
    · cases h
      rw [List.take_zero, List.nil_append]
      cases p with
      | nil => rfl
      | cons c p => exact if_pos (List.isPrefixOf_iff_prefix.mpr (List.prefix_refl _))
    · next hp =>
      obtain ⟨j, hj, rfl⟩ := Option.map_eq_some_iff.mp h
      have hnot : ¬ p.isPrefixOf (x :: (xs.take j ++ p)) = true := by
        intro hshort
        refine hp (List.isPrefixOf_iff_prefix.mpr ((List.isPrefixOf_iff_prefix.mp hshort).trans ?_))
        refine List.cons_prefix_cons.mpr ⟨rfl, ?_⟩
        rw [List.drop_succ_cons] at hrest
        exact ⟨rest, by rw [List.append_assoc, hrest, List.take_append_drop]⟩
      rw [List.take_succ_cons, List.cons_append, findSub_cons, if_neg hnot, ih hj hrest]
      rfl

/-- A text is found as soon as it is there. -/
theorem findSub_within {p more : List α} {k : Nat} (h : findSub p (l ++ more) = some k) :
    (∀ j, findSub p l = some j → j = k) ∧ (findSub p l = some k ↔ k + p.length ≤ l.length) := by
  have hsame : ∀ j, findSub p l = some j → j = k := by
    intro j hj
    have hlonger := findSub_append more hj
    rw [h] at hlonger
    exact (Option.some.inj hlonger).symm
  refine ⟨hsame, fun hfound => (findSub_eq_some hfound).2, fun hlen => ?_⟩
  obtain ⟨hcut, hat⟩ := findSub_cut h
  have htake : ((l ++ more).take k).length = k := List.length_take_of_le (by
    have := (findSub_eq_some h).2
    omega)
  have hprefix : (l ++ more).take k ++ p <+: l := by
    refine @List.prefix_of_prefix_length_le _ _ _ (l ++ more) ?_ (List.prefix_append _ _) ?_
    · conv_rhs => rw [hcut]
      rw [← List.append_assoc]
      exact List.prefix_append _ _
    · rw [List.length_append, htake]
      exact hlen
  obtain ⟨rest, hrest⟩ := hprefix
  rw [htake] at hat
  rw [← hrest]
  exact findSub_append rest hat

/-- One more piece than separators. -/
theorem length_splitOn (c : α) (l : List α) : (l.splitOn c).length = l.count c + 1 := by
  induction l with
  | nil => rfl
  | cons x xs ih =>
    rw [List.splitOn_cons_eq_if_modifyHead, List.count_cons]
    split
    · rw [List.length_cons, ih]
    · rw [List.length_modifyHead, ih, Nat.add_zero]

/-- Every letter is a separator or stands in a piece. -/
theorem mem_splitOn {x : α} (h : x ∈ l) : x = c ∨ ∃ piece ∈ l.splitOn c, x ∈ piece := by
  induction l with
  | nil => cases h
  | cons y ys ih =>
    rw [List.splitOn_cons_eq_if_modifyHead]
    by_cases hy : y = c
    · rw [if_pos (beq_iff_eq.mpr hy)]
      rcases List.mem_cons.mp h with rfl | h
      · exact .inl hy
      · exact (ih h).imp_right fun ⟨piece, hpiece, hx⟩ => ⟨piece, List.mem_cons_of_mem _ hpiece, hx⟩
    · rw [if_neg fun heq => hy (beq_iff_eq.mp heq)]
      cases hpieces : ys.splitOn c with
      | nil => exact absurd hpieces (List.splitOn_ne_nil _ _)
      | cons first others =>
        rw [hpieces] at ih
        rw [List.modifyHead_cons]
        rcases List.mem_cons.mp h with rfl | h
        · exact .inr ⟨x :: first, List.mem_cons_self, List.mem_cons_self⟩
        · refine (ih h).imp_right fun ⟨piece, hpiece, hx⟩ => ?_
          rcases List.mem_cons.mp hpiece with rfl | hpiece
          · exact ⟨y :: piece, List.mem_cons_self, List.mem_cons_of_mem _ hx⟩
          · exact ⟨piece, List.mem_cons_of_mem _ hpiece, hx⟩

end OmtClient.Lib
