import Mathlib.Algebra.Order.Ring.Int
import Mathlib.Data.List.Basic
import Mathlib.Data.List.Nodup

/-!
# Writes into a buffer

A write puts some data at an offset of a buffer, if there is room for it. The module
says what a sequence of writes leaves in each place:

1. `getElem?_apply`: what one write leaves.
2. `applyAll_untouched`: a place that no write covers keeps what it held.
3. `applyAll_agree`: two buffers agree wherever they agreed before or some write covers them;
   `applyAll_eq` is the case in which the writes cover everything.
4. `applyAll_covered`: what a place holds that one write alone covers.
5. `applyAll_rows`: rows that follow each other without a gap, written one by one.
6. `applyAll_owned`: when the writers of a family each keep to places of their own, what
   becomes of a place is what its owner made of it, whatever the order of the writers.
-/

namespace OmtClient.Lib

universe u

variable {α : Type u}

structure Write (α : Type u) where
  offset : Nat
  data : List α
  deriving DecidableEq, Repr

def Write.fits (w : Write α) (n : Nat) : Bool := w.offset + w.data.length ≤ n

def Write.covers (w : Write α) (i : Nat) : Prop := w.offset ≤ i ∧ i < w.offset + w.data.length

def Write.apply (buffer : List α) (w : Write α) : List α :=
  if w.fits buffer.length then buffer.take w.offset ++ w.data ++ buffer.drop (w.offset + w.data.length) else buffer

def applyAll (buffer : List α) (ws : List (Write α)) : List α := ws.foldl Write.apply buffer

variable {a b : List α} {w : Write α} {ws : List (Write α)} {i : Nat}

@[simp] theorem length_apply (a : List α) (w : Write α) : (w.apply a).length = a.length := by
  unfold Write.apply
  split
  · next h =>
    have hfits : w.offset + w.data.length ≤ a.length := of_decide_eq_true h
    rw [List.length_append, List.length_append, List.length_take, List.length_drop]
    omega
  · rfl

@[simp] theorem length_applyAll (a : List α) (ws : List (Write α)) : (applyAll a ws).length = a.length := by
  induction ws generalizing a with
  | nil => rfl
  | cons w ws ih => exact (ih (w.apply a)).trans (length_apply a w)

theorem applyAll_append (a : List α) (ws vs : List (Write α)) : applyAll a (ws ++ vs) = applyAll (applyAll a ws) vs :=
  List.foldl_append

/-- A place that a write covers holds its data. -/
theorem getElem?_apply (hfits : w.fits a.length = true) (hcovers : w.covers i) : (w.apply a)[i]? = w.data[i - w.offset]? := by
  have hroom : w.offset + w.data.length ≤ a.length := of_decide_eq_true hfits
  have hoffset : (a.take w.offset).length = w.offset := by
    rw [List.length_take]
    omega
  unfold Write.apply
  rw [if_pos hfits, List.append_assoc, List.getElem?_append_right (by rw [hoffset]; exact hcovers.1), hoffset,
    List.getElem?_append_left]
  have := hcovers.1
  have := hcovers.2
  omega

theorem apply_untouched (h : ¬ w.covers i) : (w.apply a)[i]? = a[i]? := by
  unfold Write.apply
  split
  · next hfits =>
    have hroom : w.offset + w.data.length ≤ a.length := of_decide_eq_true hfits
    have hoffset : (a.take w.offset).length = w.offset := by
      rw [List.length_take]
      omega
    rcases Nat.lt_or_ge i w.offset with hlt | hge
    · rw [List.append_assoc, List.getElem?_append_left (by rw [hoffset]; exact hlt), List.getElem?_take, if_pos hlt]
    · have hpast : w.offset + w.data.length ≤ i := by
        by_contra hnot
        exact h ⟨hge, Nat.not_le.mp hnot⟩
      have hlength : (a.take w.offset ++ w.data).length = w.offset + w.data.length := by
        rw [List.length_append, hoffset]
      rw [List.getElem?_append_right (by rw [hlength]; exact hpast), hlength, List.getElem?_drop]
      congr 1
      omega
  · rfl

theorem applyAll_untouched (h : ∀ w ∈ ws, ¬ w.covers i) : (applyAll a ws)[i]? = a[i]? := by
  induction ws generalizing a with
  | nil => rfl
  | cons w ws ih =>
    exact (ih fun v hv => h v (List.mem_cons_of_mem w hv)).trans (apply_untouched (h w List.mem_cons_self))

/-- One write makes two buffers agree on what it covers and keeps them agreed elsewhere. -/
theorem apply_agree (hlength : a.length = b.length)
    (h : (w.fits a.length = true ∧ w.covers i) ∨ a[i]? = b[i]?) : (w.apply a)[i]? = (w.apply b)[i]? := by
  by_cases hcovers : w.covers i
  · by_cases hfits : w.fits a.length = true
    · rw [getElem?_apply hfits hcovers, getElem?_apply (hlength ▸ hfits) hcovers]
    · have hsame : a[i]? = b[i]? := h.resolve_left fun h => hfits h.1
      unfold Write.apply
      rw [if_neg hfits, if_neg (hlength ▸ hfits)]
      exact hsame
  · have hsame : a[i]? = b[i]? := h.resolve_left fun h => hcovers h.2
    rw [apply_untouched hcovers, apply_untouched hcovers, hsame]

theorem applyAll_agree (hlength : a.length = b.length)
    (h : (∃ w ∈ ws, w.fits a.length = true ∧ w.covers i) ∨ a[i]? = b[i]?) :
    (applyAll a ws)[i]? = (applyAll b ws)[i]? := by
  induction ws generalizing a b with
  | nil => exact h.resolve_left fun ⟨w, hw, _⟩ => nomatch hw
  | cons w ws ih =>
    have hnext : (w.apply a).length = (w.apply b).length := by rw [length_apply, length_apply, hlength]
    refine ih hnext ?_
    rcases h with ⟨v, hv, hfits, hcovers⟩ | hsame
    · rcases List.mem_cons.mp hv with rfl | hv
      · exact .inr (apply_agree hlength (.inl ⟨hfits, hcovers⟩))
      · exact .inl ⟨v, hv, (length_apply a w).symm ▸ hfits, hcovers⟩
    · exact .inr (apply_agree hlength (.inr hsame))

/-- Writes that cover a whole buffer leave nothing of what it held. -/
theorem applyAll_eq (hlength : a.length = b.length)
    (h : ∀ i < a.length, ∃ w ∈ ws, w.fits a.length = true ∧ w.covers i) : applyAll a ws = applyAll b ws := by
  refine List.ext_getElem? fun i => ?_
  by_cases hi : i < a.length
  · exact applyAll_agree hlength (.inl (h i hi))
  · rw [List.getElem?_eq_none (by rw [length_applyAll]; omega), List.getElem?_eq_none (by rw [length_applyAll]; omega)]

/-- A place that one of the writes alone covers holds its data. -/
theorem applyAll_covered (hmem : w ∈ ws) (hfits : w.fits a.length = true) (hcovers : w.covers i)
    (honly : ∀ v ∈ ws, v.covers i → v = w) : (applyAll a ws)[i]? = w.data[i - w.offset]? := by
  induction ws generalizing a with
  | nil => cases hmem
  | cons v ws ih =>
    have hrest : ∀ u ∈ ws, u.covers i → u = w := fun u hu => honly u (List.mem_cons_of_mem v hu)
    by_cases hin : w ∈ ws
    · exact ih hin ((length_apply a v).symm ▸ hfits) hrest
    · obtain rfl : w = v := (List.mem_cons.mp hmem).resolve_right hin
      refine (applyAll_untouched fun u hu hcover => hin (hrest u hu hcover ▸ hu)).trans ?_
      exact getElem?_apply hfits hcovers

/-- Data in two pieces, the second where the first ends. -/
theorem apply_append {offset : Nat} {xs ys : List α} (hfits : offset + (xs ++ ys).length ≤ a.length) :
    Write.apply a ⟨offset, xs ++ ys⟩ = Write.apply (Write.apply a ⟨offset, xs⟩) ⟨offset + xs.length, ys⟩ := by
  have hlength : (xs ++ ys).length = xs.length + ys.length := List.length_append
  have hwhole : (⟨offset, xs ++ ys⟩ : Write α).fits a.length = true := decide_eq_true hfits
  have hleft : (⟨offset, xs⟩ : Write α).fits a.length = true := decide_eq_true (by dsimp only; omega)
  have hright : (⟨offset + xs.length, ys⟩ : Write α).fits (Write.apply a ⟨offset, xs⟩).length = true := by
    rw [length_apply]
    exact decide_eq_true (by dsimp only; omega)
  refine List.ext_getElem? fun i => ?_
  by_cases hsecond : (⟨offset + xs.length, ys⟩ : Write α).covers i
  · have hfrom : offset + xs.length ≤ i := hsecond.1
    have hto : i < offset + xs.length + ys.length := hsecond.2
    have hcovers : (⟨offset, xs ++ ys⟩ : Write α).covers i := ⟨by dsimp only; omega, by dsimp only; omega⟩
    rw [getElem?_apply hwhole hcovers, getElem?_apply hright hsecond, List.getElem?_append_right (by dsimp only; omega),
      Nat.sub_sub]
  · rw [apply_untouched hsecond]
    by_cases hfirst : (⟨offset, xs⟩ : Write α).covers i
    · have hfrom : offset ≤ i := hfirst.1
      have hto : i < offset + xs.length := hfirst.2
      have hcovers : (⟨offset, xs ++ ys⟩ : Write α).covers i := ⟨hfrom, by dsimp only; omega⟩
      rw [getElem?_apply hwhole hcovers, getElem?_apply hleft hfirst]
      exact List.getElem?_append_left (by dsimp only; omega)
    · rw [apply_untouched hfirst, apply_untouched]
      rintro ⟨hfrom, hto⟩
      dsimp only at hfrom hto
      by_cases hi : i < offset + xs.length
      · exact hfirst ⟨hfrom, hi⟩
      · exact hsecond ⟨Nat.not_lt.mp hi, by dsimp only; omega⟩

/-- Rows written one by one, without a gap, are one piece. -/
theorem applyAll_rows {n width first : Nat} {data : List α} (hdata : n * width ≤ data.length)
    (hfits : (first + n) * width ≤ a.length) :
    applyAll a ((List.range n).map fun row => ⟨(first + row) * width, (data.drop (row * width)).take width⟩) =
      Write.apply a ⟨first * width, data.take (n * width)⟩ := by
  induction n with
  | zero =>
    refine List.ext_getElem? fun i => (apply_untouched ?_).symm
    rintro ⟨hfrom, hto⟩
    rw [Nat.zero_mul, List.take_zero] at hto
    exact absurd hto (Nat.not_lt.mpr hfrom)
  | succ n ih =>
    have hnext : (n + 1) * width = n * width + width := Nat.succ_mul n width
    have hroom : (first + n) * width + width ≤ a.length := by
      rwa [← Nat.add_assoc, Nat.succ_mul] at hfits
    have htaken : (data.take (n * width)).length = n * width := by
      rw [List.length_take]
      omega
    have hsplit : data.take ((n + 1) * width) = data.take (n * width) ++ (data.drop (n * width)).take width := by
      rw [hnext, List.take_add]
    have hlast : ((data.drop (n * width)).take width).length ≤ width := List.length_take_le _ _
    rw [List.range_succ, List.map_append, applyAll_append, ih (by omega) (by omega), hsplit, apply_append, htaken,
      ← Nat.add_mul]
    · rfl
    · rw [List.length_append, htaken, ← Nat.add_assoc, ← Nat.add_mul]
      omega

/-! ## Writers with places of their own -/

/-- Each writer covers only places that it owns, and a place has one owner at most. -/
structure Owned (writes : Nat → List (Write α)) (owns : Nat → Nat → Prop) : Prop where
  keeps : ∀ j, ∀ w ∈ writes j, ∀ i, w.covers i → owns j i
  apart : ∀ j k i, owns j i → owns k i → j = k

variable {writes : Nat → List (Write α)} {owns : Nat → Nat → Prop} {js : List Nat} {j : Nat}

/-- The other writers leave a place alone. -/
theorem applyAll_others (h : Owned writes owns) (hj : owns j i) (hnot : j ∉ js) :
    (applyAll a (js.flatMap writes))[i]? = a[i]? := by
  refine applyAll_untouched fun w hw hcovers => ?_
  obtain ⟨k, hk, hw⟩ := List.mem_flatMap.mp hw
  exact hnot (h.apart k j i (h.keeps k w hw i hcovers) hj ▸ hk)

theorem applyAll_owned (h : Owned writes owns) (hj : owns j i) (hmem : j ∈ js) (hnodup : js.Nodup) :
    (applyAll a (js.flatMap writes))[i]? = (applyAll a (writes j))[i]? := by
  obtain ⟨before, after, rfl⟩ := List.append_of_mem hmem
  have hmiddle := List.nodup_middle.mp hnodup
  have hout : j ∉ before ++ after := (List.nodup_cons.mp hmiddle).1
  rw [List.flatMap_append, applyAll_append, List.flatMap_cons, applyAll_append,
    applyAll_others h hj fun hin => hout (List.mem_append_right before hin)]
  refine applyAll_agree (length_applyAll _ _) (.inr ?_)
  exact applyAll_others h hj fun hin => hout (List.mem_append_left after hin)

end OmtClient.Lib
