import Mathlib.Algebra.Order.Ring.Int
import Mathlib.Data.List.Induction
import Mathlib.Data.List.Perm.Basic
import Mathlib.Order.Basic

/-!
# Keeping the highest

A vector over its capacity gives up its lowest item, by some rank, again and again:
`lowest` finds it, `swapRemove` takes it out by moving the last item in its place, and
`evict` repeats that until the capacity is met.

1. `perm_swapRemove`: what is left is what was there, less one item.
2. `mem_evict`: with distinct ranks an item stays exactly when fewer items than the
   capacity rank above it.
-/

namespace OmtClient.Lib

variable {α β : Type} [LinearOrder β] (rank : α → β)

/-- `Iterator::min_by` over the positions: the first item of the lowest rank. -/
def lowest (l : List α) : Option (α × Nat) :=
  l.zipIdx.foldl (fun best x =>
    match best with
    | none => some x
    | some b => if rank x.1 < rank b.1 then some x else some b) none

/-- `Vec::swap_remove`: the last item takes the place of the one at `i`. -/
def swapRemove (l : List α) (i : Nat) : List α :=
  match l.getLast? with
  | none => l
  | some x => (l.set i x).dropLast

/-- Turns of the loop that removes the lowest item while there are more than `cap`. -/
def evictLoop (cap : Nat) : Nat → List α → List α
  | 0, l => l
  | n + 1, l =>
    if cap < l.length then evictLoop cap n (swapRemove l ((lowest rank l).elim 0 Prod.snd)) else l

theorem evictLoop_succ (cap n : Nat) (l : List α) : evictLoop rank cap (n + 1) l =
    if cap < l.length then evictLoop rank cap n (swapRemove l ((lowest rank l).elim 0 Prod.snd)) else l := rfl

def evict (cap : Nat) (l : List α) : List α := evictLoop rank cap l.length l

namespace EvictLemmas

variable {rank}

theorem perm_swapRemove_append (as bs : List α) (x : α) :
    (swapRemove (as ++ x :: bs) as.length).Perm (as ++ bs) := by
  cases bs using List.reverseRecOn with
  | nil =>
    have hlast : (as ++ [x]).getLast? = some x := List.getLast?_concat
    rw [swapRemove, hlast]
    simp
  | append_singleton bs y =>
    have hlast : (as ++ x :: (bs ++ [y])).getLast? = some y := by
      rw [← List.cons_append, ← List.append_assoc, List.getLast?_concat]
    have hset : (as ++ x :: (bs ++ [y])).set as.length y = as ++ y :: (bs ++ [y]) := by
      simp
    rw [swapRemove, hlast]
    dsimp only
    rw [hset, ← List.cons_append, ← List.append_assoc, List.dropLast_concat]
    refine List.Perm.append_left as ?_
    exact (List.perm_append_singleton y bs).symm

/-- The loop over the items from one on keeps the lowest seen. -/
theorem lowest_fold (l : List α) (k : Nat) (b : α × Nat) :
    ∃ m, (l.zipIdx k).foldl (fun best x =>
        match best with
        | none => some x
        | some b => if rank x.1 < rank b.1 then some x else some b) (some b) = some m ∧
      rank m.1 ≤ rank b.1 ∧ (∀ x ∈ l, rank m.1 ≤ rank x) ∧ (m = b ∨ m ∈ l.zipIdx k) := by
  induction l generalizing k b with
  | nil => exact ⟨b, rfl, le_refl _, fun _ hx => (nomatch hx), .inl rfl⟩
  | cons x xs ih =>
    rw [List.zipIdx_cons, List.foldl_cons]
    dsimp only
    by_cases hlt : rank x < rank b.1
    · obtain ⟨m, hm, hle, hall, hmem⟩ := ih (k + 1) (x, k)
      rw [if_pos hlt]
      refine ⟨m, hm, le_of_lt (lt_of_le_of_lt hle hlt), fun y hy => ?_, .inr ?_⟩
      · rcases List.mem_cons.mp hy with rfl | hy
        · exact hle
        · exact hall y hy
      · rcases hmem with rfl | hmem
        · exact List.mem_cons_self
        · exact List.mem_cons_of_mem _ hmem
    · obtain ⟨m, hm, hle, hall, hmem⟩ := ih (k + 1) b
      rw [if_neg hlt]
      refine ⟨m, hm, hle, fun y hy => ?_, ?_⟩
      · rcases List.mem_cons.mp hy with rfl | hy
        · exact le_trans hle (not_lt.mp hlt)
        · exact hall y hy
      · rcases hmem with rfl | hmem
        · exact .inl rfl
        · exact .inr (List.mem_cons_of_mem _ hmem)

/-- The lowest item, with what stands before and after it. -/
theorem lowest_spec (l : List α) (h : l ≠ []) :
    ∃ as x bs, l = as ++ x :: bs ∧ lowest rank l = some (x, as.length) ∧ ∀ y ∈ l, rank x ≤ rank y := by
  obtain ⟨a, l, rfl⟩ := List.exists_cons_of_ne_nil h
  obtain ⟨⟨x, i⟩, hm, hle, hall, hmem⟩ := (@lowest_fold _ _ _ rank) l 1 (a, 0)
  have hlowest : lowest rank (a :: l) = some (x, i) := hm
  have hin : (x, i) ∈ (a :: l).zipIdx := by
    rcases hmem with heq | hmem
    · rw [heq]
      exact List.mem_cons_self
    · exact List.mem_cons_of_mem _ hmem
  have hget := List.mem_zipIdx_iff_getElem?.mp hin
  obtain ⟨hi, hx⟩ := List.getElem?_eq_some_iff.mp hget
  dsimp only at hi hx hle hall
  refine ⟨(a :: l).take i, x, (a :: l).drop (i + 1), ?_, ?_, ?_⟩
  · rw [← hx, List.getElem_cons_drop, List.take_append_drop]
  · rw [hlowest, List.length_take_of_le (Nat.le_of_lt hi)]
  · intro y hy
    rcases List.mem_cons.mp hy with rfl | hy
    · exact hle
    · exact hall y hy

end EvictLemmas

open EvictLemmas

/-- What is left is what was there, less the item at `i`. -/
theorem perm_swapRemove (l : List α) {i : Nat} (h : i < l.length) :
    (swapRemove l i).Perm (l.eraseIdx i) := by
  have hsplit : l = l.take i ++ l[i] :: l.drop (i + 1) := by rw [List.getElem_cons_drop, List.take_append_drop]
  have hlen : (l.take i).length = i := List.length_take_of_le (Nat.le_of_lt h)
  have hperm := perm_swapRemove_append (l.take i) (l.drop (i + 1)) l[i]
  rw [← hsplit, hlen] at hperm
  rw [List.eraseIdx_eq_take_drop_succ]
  exact hperm

variable {rank}

namespace EvictLemmas

/-- A turn removes an item that none ranks below. -/
theorem evict_turn {l : List α} (h : l ≠ []) :
    ∃ m, (∀ y ∈ l, rank m ≤ rank y) ∧
      (m :: swapRemove l ((lowest rank l).elim 0 Prod.snd)).Perm l := by
  obtain ⟨as, m, bs, rfl, hlowest, hall⟩ := (@lowest_spec _ _ _ rank) l h
  refine ⟨m, hall, ?_⟩
  rw [hlowest]
  exact ((perm_swapRemove_append as bs m).cons m).trans List.perm_middle.symm

/-- In a list within the capacity, less than that many items rank above one of them. -/
theorem countP_above_lt {cap : Nat} {l : List α} {x : α} (hl : l.length ≤ cap) (hx : x ∈ l) :
    l.countP (fun y => rank x < rank y) < cap := by
  refine Nat.lt_of_lt_of_le (Nat.lt_of_le_of_ne List.countP_le_length fun hall => ?_) hl
  rw [List.countP_eq_length] at hall
  exact lt_irrefl _ (of_decide_eq_true (hall x hx))

theorem mem_evictLoop {cap : Nat} {x : α} (n : Nat) (l : List α) (hn : l.length ≤ n + cap)
    (hinj : (l.map rank).Nodup) :
    x ∈ evictLoop rank cap n l ↔ x ∈ l ∧ l.countP (fun y => rank x < rank y) < cap := by
  induction n generalizing l with
  | zero => exact ⟨fun hx => ⟨hx, countP_above_lt (Nat.zero_add cap ▸ hn) hx⟩, And.left⟩
  | succ n ih =>
    rw [evictLoop_succ]
    split
    · next hmany =>
      obtain ⟨m, hlow, hperm⟩ := (@evict_turn _ _ _ rank l) (by
        rintro rfl
        exact absurd hmany (Nat.not_lt_zero _))
      generalize swapRemove l ((lowest rank l).elim 0 Prod.snd) = l' at hperm ⊢
      have hlen : l'.length + 1 = l.length := hperm.length_eq
      have hranks : ((m :: l').map rank).Nodup := (hperm.map rank).nodup_iff.mpr hinj
      rw [List.map_cons, List.nodup_cons] at hranks
      have hcount := hperm.countP_eq (fun y => rank x < rank y)
      rw [ih l' (by omega) hranks.2, ← hperm.mem_iff, ← hcount, List.mem_cons]
      constructor
      · rintro ⟨hx, hfew⟩
        refine ⟨.inr hx, ?_⟩
        have hge := hlow x (hperm.mem_iff.mp (List.mem_cons_of_mem _ hx))
        rw [List.countP_cons_of_neg (by simpa using hge)]
        exact hfew
      · rintro ⟨rfl | hx, hfew⟩
        · -- all of the others rank above the lowest
          have hall : l'.countP (fun y => rank x < rank y) = l'.length := by
            rw [List.countP_eq_length]
            intro y hy
            refine decide_eq_true (lt_of_le_of_ne (hlow y (hperm.mem_iff.mp (List.mem_cons_of_mem _ hy))) ?_)
            exact fun heq => hranks.1 (List.mem_map.mpr ⟨y, hy, heq.symm⟩)
          rw [List.countP_cons_of_neg (by simp), hall] at hfew
          omega
        · have hge := hlow x (hperm.mem_iff.mp (List.mem_cons_of_mem _ hx))
          rw [List.countP_cons_of_neg (by simpa using hge)] at hfew
          exact ⟨hx, hfew⟩
    · next hfew => exact ⟨fun hx => ⟨hx, countP_above_lt (Nat.not_lt.mp hfew) hx⟩, And.left⟩

theorem length_evictLoop {cap : Nat} (n : Nat) (l : List α) (hn : l.length ≤ n + cap) :
    (evictLoop rank cap n l).length ≤ cap := by
  induction n generalizing l with
  | zero => exact Nat.zero_add cap ▸ hn
  | succ n ih =>
    rw [evictLoop_succ]
    split
    · next hmany =>
      obtain ⟨m, _, hperm⟩ := (@evict_turn _ _ _ rank l) (by
        rintro rfl
        exact absurd hmany (Nat.not_lt_zero _))
      have hlen := hperm.length_eq
      rw [List.length_cons] at hlen
      exact ih _ (by omega)
    · next hfew => exact Nat.not_lt.mp hfew

theorem subperm_evictLoop {cap : Nat} (n : Nat) (l : List α) : (evictLoop rank cap n l).Subperm l := by
  induction n generalizing l with
  | zero => exact List.Subperm.refl _
  | succ n ih =>
    rw [evictLoop_succ]
    split
    · next hmany =>
      obtain ⟨m, _, hperm⟩ := (@evict_turn _ _ _ rank l) (by
        rintro rfl
        exact absurd hmany (Nat.not_lt_zero _))
      exact (ih _).trans (((List.sublist_cons_self m _).subperm).trans hperm.subperm)
    · exact List.Subperm.refl _

end EvictLemmas

/-- With distinct ranks an item stays exactly when fewer items than the capacity rank
above it. -/
theorem mem_evict {cap : Nat} {l : List α} (hinj : (l.map rank).Nodup) {x : α} :
    x ∈ evict rank cap l ↔ x ∈ l ∧ l.countP (fun y => rank x < rank y) < cap :=
  mem_evictLoop l.length l (Nat.le_add_right _ _) hinj

theorem length_evict (cap : Nat) (l : List α) : (evict rank cap l).length ≤ cap :=
  length_evictLoop l.length l (Nat.le_add_right _ _)

theorem subperm_evict (cap : Nat) (l : List α) : (evict rank cap l).Subperm l :=
  subperm_evictLoop l.length l

end OmtClient.Lib
