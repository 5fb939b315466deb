import Mathlib.Data.List.Basic
import Mathlib.Data.Nat.Bitwise
import Mathlib.Order.Lattice

/-!
# Searching sorted lists

Binary search as the standard library of the source does it, and what it takes to check a
long table by evaluation: the members of a list as the bits of a number, and a sort whose
recursion follows a count.

1. `binarySearch_get`: a binary search finds the entry of a key, if there is one.
2. `testBit_bitset`, `perm_sortBy`: what is in the bits, and in a sorted list.
-/

namespace OmtClient.Lib

variable {α κ : Type} [LinearOrder κ] (key : α → κ)

/-! ## Binary search -/

/-- The loop of `binary_search_by_key`: the one place that is left of `size` places from
`base` on. -/
def searchBase (l : List α) (k : κ) (base size : Nat) : Nat :=
  if 1 < size then
    let half := size / 2
    let base := if (l[base + half]?).any fun x => k < key x then base else base + half
    searchBase l k base (size - half)
  else base
termination_by size

/-- `binary_search_by_key`, without the place where a missing key would stand. -/
def binarySearchByKey (l : List α) (k : κ) : Option Nat :=
  if l.length = 0 then none
  else
    let base := searchBase key l k 0 l.length
    if (l[base]?).any fun x => key x = k then some base else none

/-- The keys ascend. -/
def Ascends (l : List α) : Prop := l.Pairwise fun x y => key x < key y

/-- Whether each key is below the next one. -/
def ascends : List α → Bool
  | [] => true
  | [_] => true
  | x :: y :: rest => decide (key x < key y) && ascends (y :: rest)

namespace SearchLemmas

variable {key} {l : List α} {k : κ}

theorem ascends_of (h : ascends key l = true) : Ascends key l := by
  induction l with
  | nil => exact List.Pairwise.nil
  | cons x l ih =>
    cases l with
    | nil => exact List.pairwise_singleton _ x
    | cons y rest =>
      obtain ⟨hxy, hrest⟩ := Bool.and_eq_true_iff.mp h
      have htail := ih hrest
      refine List.pairwise_cons.mpr ⟨?_, htail⟩
      intro z hz
      rcases List.mem_cons.mp hz with rfl | hz
      · exact of_decide_eq_true hxy
      · exact lt_trans (of_decide_eq_true hxy) ((List.pairwise_cons.mp htail).1 z hz)

theorem key_lt (h : Ascends key l) {i j : Nat} {x y : α} (hi : l[i]? = some x) (hj : l[j]? = some y) (hij : i < j) :
    key x < key y := by
  obtain ⟨hi', rfl⟩ := List.getElem?_eq_some_iff.mp hi
  obtain ⟨hj', rfl⟩ := List.getElem?_eq_some_iff.mp hj
  exact List.pairwise_iff_getElem.mp h i j hi' hj' hij

/-- A key stands in what is left. -/
theorem searchBase_found (h : Ascends key l) {i : Nat} {x : α} (hi : l[i]? = some x) (hx : key x = k) {base size : Nat}
    (hbase : base ≤ i) (hsize : i < base + size) (hlen : base + size ≤ l.length) : searchBase key l k base size = i := by
  induction size using Nat.strongRecOn generalizing base with
  | ind size ih =>
    unfold searchBase
    by_cases hone : 1 < size
    · rw [if_pos hone]
      dsimp only
      have hmid : base + size / 2 < l.length := by omega
      rw [List.getElem?_eq_getElem hmid, Option.any_some]
      by_cases hgreater : k < key l[base + size / 2]
      · rw [if_pos (decide_eq_true hgreater)]
        have hleft : i < base + size / 2 := by
          by_contra hright
          rcases Nat.eq_or_lt_of_le (Nat.le_of_not_lt hright) with heq | hlt
          · subst heq
            rw [List.getElem?_eq_getElem hmid] at hi
            cases hi
            exact absurd hgreater (hx ▸ lt_irrefl _)
          · have hlt' := key_lt h (List.getElem?_eq_getElem hmid) hi hlt
            exact absurd (lt_trans hgreater hlt') (hx ▸ lt_irrefl _)
        exact ih _ (by omega) hbase (by omega) (by omega)
      · rw [if_neg (by simpa using hgreater)]
        have hright : base + size / 2 ≤ i := by
          by_contra hleft
          have hlt := key_lt h hi (List.getElem?_eq_getElem hmid) (Nat.lt_of_not_le hleft)
          exact hgreater (hx ▸ hlt)
        exact ih _ (by omega) hright (by omega) (by omega)
    · rw [if_neg hone]
      omega

theorem find?_key (h : Ascends key l) {x : α} (hx : x ∈ l) : l.find? (fun y => key y = key x) = some x := by
  induction l with
  | nil => cases hx
  | cons y l ih =>
    obtain ⟨hhead, htail⟩ := List.pairwise_cons.mp h
    rcases List.mem_cons.mp hx with rfl | hx
    · exact List.find?_cons_of_pos (decide_eq_true rfl)
    · rw [List.find?_cons_of_neg (by simpa using ne_of_lt (hhead x hx))]
      exact ih htail hx

end SearchLemmas

open SearchLemmas

/-- A binary search finds what a search from the front finds. -/
theorem binarySearch_get {l : List α} (h : Ascends key l) (k : κ) :
    (binarySearchByKey key l k).bind (l[·]?) = l.find? fun x => key x = k := by
  unfold binarySearchByKey
  cases hfind : l.find? fun x => decide (key x = k) with
  | some x =>
    have hmem := List.mem_of_find?_eq_some hfind
    have hfound := List.find?_some hfind
    have hx : key x = k := of_decide_eq_true hfound
    obtain ⟨i, hi⟩ := List.mem_iff_getElem?.mp hmem
    obtain ⟨hlt, -⟩ := List.getElem?_eq_some_iff.mp hi
    rw [if_neg (by omega)]
    dsimp only
    rw [searchBase_found h hi hx (Nat.zero_le i) (by omega) (by omega), hi, Option.any_some, if_pos (decide_eq_true hx)]
    exact hi
  | none =>
    split
    · rfl
    dsimp only
    split
    next hany =>
      obtain ⟨x, hx, hkey⟩ := (Option.any_eq_true _ _).mp hany
      exact absurd hkey (List.find?_eq_none.mp hfind x (List.mem_of_getElem? hx))
    · rfl

/-! ## Checks over long lists -/

/-- The number whose bits are the members of a list. -/
def bitset (l : List ℕ) : ℕ := l.foldl (fun m k => m ||| 1 <<< k) 0

/-- Whether a bit is set, without a copy of what is above it. -/
def hasBit (n i : ℕ) : Bool := Nat.blt 0 (n &&& 1 <<< i)

/-- Two lists in one, by what goes first; as many turns as there are members. -/
def mergeBy (first : α → α → Bool) : ℕ → List α → List α → List α
  | 0, xs, ys => xs ++ ys
  | _, [], ys => ys
  | _, xs, [] => xs
  | n + 1, x :: xs, y :: ys => if first x y then x :: mergeBy first n xs (y :: ys) else y :: mergeBy first n (x :: xs) ys

/-- The members at even and at odd places. -/
def deal : List α → List α × List α
  | [] => ([], [])
  | [x] => ([x], [])
  | x :: y :: rest => (x :: (deal rest).1, y :: (deal rest).2)

/-- A list by what goes first, when it has at most as many members as `2 ^ d`. -/
def sortBy (first : α → α → Bool) : ℕ → List α → List α
  | 0, l => l
  | d + 1, l => mergeBy first l.length (sortBy first d (deal l).1) (sortBy first d (deal l).2)

namespace SearchLemmas

theorem testBit_fold (l : List ℕ) (m k : ℕ) :
    (l.foldl (fun m k => m ||| 1 <<< k) m).testBit k = true ↔ m.testBit k = true ∨ k ∈ l := by
  induction l generalizing m with
  | nil => simp
  | cons x l ih =>
    rw [List.foldl_cons, ih, Nat.testBit_or, Nat.one_shiftLeft, Nat.testBit_two_pow, List.mem_cons, Bool.or_eq_true,
      decide_eq_true_iff, or_assoc, @eq_comm _ x]

theorem perm_mergeBy (first : α → α → Bool) (n : ℕ) (xs ys : List α) : (mergeBy first n xs ys).Perm (xs ++ ys) := by
  induction n generalizing xs ys with
  | zero => exact List.Perm.refl _
  | succ n ih =>
    cases xs with
    | nil => exact List.Perm.refl _
    | cons x xs =>
      cases ys with
      | nil =>
        rw [List.append_nil]
        exact List.Perm.refl _
      | cons y ys =>
        rw [mergeBy]
        split
        · exact (ih xs (y :: ys)).cons x
        · exact ((ih (x :: xs) ys).cons y).trans List.perm_middle.symm

theorem perm_deal (l : List α) : ((deal l).1 ++ (deal l).2).Perm l := by
  induction l using deal.induct with
  | case1 => exact List.Perm.refl _
  | case2 x => exact List.Perm.refl _
  | case3 x y rest ih =>
    rw [deal]
    refine List.Perm.cons x ?_
    exact List.perm_middle.trans (ih.cons y)

end SearchLemmas

theorem testBit_bitset (l : List ℕ) (k : ℕ) : (bitset l).testBit k = true ↔ k ∈ l := by
  rw [bitset, testBit_fold, Nat.zero_testBit]
  simp

theorem hasBit_eq : hasBit = Nat.testBit := by
  funext n i
  have hpow : 0 < 2 ^ i := Nat.two_pow_pos i
  rw [hasBit, Nat.one_shiftLeft, Nat.and_two_pow]
  cases n.testBit i with
  | false =>
    rw [Bool.toNat_false, Nat.zero_mul]
    rfl
  | true => simp [Nat.blt_eq, hpow]

theorem perm_sortBy (first : α → α → Bool) (d : ℕ) (l : List α) : (sortBy first d l).Perm l := by
  induction d generalizing l with
  | zero => exact List.Perm.refl _
  | succ d ih =>
    rw [sortBy]
    exact (perm_mergeBy first _ _ _).trans (((ih _).append (ih _)).trans (perm_deal l))

end OmtClient.Lib
