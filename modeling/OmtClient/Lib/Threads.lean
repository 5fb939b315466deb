import Mathlib.Algebra.Order.Ring.Int
import Mathlib.Data.List.Basic
import Mathlib.Data.List.Count

/-!
# Lists of threads

A system of threads is a list, and a step replaces one of them. With the list written as
what is before the thread, the thread and what is after it, a step changes only the middle:

1. `getElem_split`: the thread at an index, and the list with it replaced.
2. `forall_replace`: what holds of every thread.
3. `sum_replace` and `countP_replace`: what is summed or counted over the threads.
-/

namespace OmtClient.Lib

universe u

variable {α : Type u} {as bs : List α} {x y : α} {i : Nat}

theorem getElem_split {l : List α} (h : l[i]? = some x) :
    ∃ as bs, l = as ++ x :: bs ∧ ∀ y, l.set i y = as ++ y :: bs := by
  obtain ⟨hi, rfl⟩ := List.getElem?_eq_some_iff.mp h
  refine ⟨l.take i, l.drop (i + 1), ?_, fun y => List.set_eq_take_append_cons_drop.trans (if_pos hi)⟩
  rw [List.getElem_cons_drop, List.take_append_drop]

theorem forall_replace {P : α → Prop} (h : ∀ z ∈ as ++ x :: bs, P z) (hy : P y) : ∀ z ∈ as ++ y :: bs, P z := by
  intro z hz
  rcases List.mem_append.mp hz with hz | hz
  · exact h z (List.mem_append_left _ hz)
  · rcases List.mem_cons.mp hz with rfl | hz
    · exact hy
    · exact h z (List.mem_append_right _ (List.mem_cons_of_mem _ hz))

theorem sum_replace (f : α → Nat) : ((as ++ x :: bs).map f).sum = f x + ((as ++ bs).map f).sum := by
  rw [List.map_append, List.sum_append, List.map_cons, List.sum_cons, List.map_append, List.sum_append]
  omega

theorem countP_replace (p : α → Bool) : (as ++ x :: bs).countP p = (as ++ bs).countP p + if p x then 1 else 0 := by
  rw [List.countP_append, List.countP_cons, List.countP_append]
  omega

end OmtClient.Lib
