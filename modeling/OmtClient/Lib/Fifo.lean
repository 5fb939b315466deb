import Mathlib.Algebra.Order.Ring.Int
import Mathlib.Data.List.Basic

/-!
# Queues that drop

A queue takes items at its back and lets them go at its front, where each is either handed
on or dropped. `Conserved` says that nothing is lost and nothing is reordered: the items
taken so far are those that went, in order, followed by those still queued.

1. `Conserved.length_eq`: taken = handed on + dropped + queued.
2. `Conserved.sublist`: items are handed on in the order in which they were taken.
-/

namespace OmtClient.Lib

variable {α : Type} {taken handed queue : List α} {dropped : Nat}

/-- The items that went, each with whether it was handed on. -/
def Conserved (taken handed : List α) (dropped : Nat) (queue : List α) : Prop :=
  ∃ gone : List (Bool × α), taken = gone.map (·.2) ++ queue ∧ handed = (gone.filter (·.1)).map (·.2) ∧
    dropped = (gone.filter fun g => !g.1).length

theorem Conserved.empty : Conserved ([] : List α) [] 0 [] := ⟨[], rfl, rfl, rfl⟩

theorem Conserved.push (h : Conserved taken handed dropped queue) (a : α) :
    Conserved (taken ++ [a]) handed dropped (queue ++ [a]) := by
  obtain ⟨gone, htaken, hhanded, hdropped⟩ := h
  exact ⟨gone, by rw [htaken, List.append_assoc], hhanded, hdropped⟩

theorem Conserved.pop {a : α} (h : Conserved taken handed dropped (a :: queue)) :
    Conserved taken (handed ++ [a]) dropped queue := by
  obtain ⟨gone, htaken, hhanded, hdropped⟩ := h
  refine ⟨gone ++ [(true, a)], ?_, ?_, ?_⟩
  · rw [htaken, List.map_append, List.append_assoc]
    rfl
  · rw [hhanded, List.filter_append, List.map_append]
    rfl
  · rw [hdropped, List.filter_append, List.length_append]
    rfl

theorem Conserved.drop {a : α} (h : Conserved taken handed dropped (a :: queue)) :
    Conserved taken handed (dropped + 1) queue := by
  obtain ⟨gone, htaken, hhanded, hdropped⟩ := h
  refine ⟨gone ++ [(false, a)], ?_, ?_, ?_⟩
  · rw [htaken, List.map_append, List.append_assoc]
    rfl
  · rw [hhanded, List.filter_append, List.map_append]
    exact (List.append_nil _).symm
  · rw [hdropped, List.filter_append, List.length_append]
    rfl

/-- Conservation: every item that was taken was handed on, was dropped or is queued. -/
theorem Conserved.length_eq (h : Conserved taken handed dropped queue) :
    taken.length = handed.length + dropped + queue.length := by
  obtain ⟨gone, htaken, hhanded, hdropped⟩ := h
  have hsplit : gone.length = (gone.filter (·.1)).length + (gone.filter fun g => !g.1).length :=
    List.length_eq_length_filter_add _
  rw [htaken, hhanded, hdropped, List.length_append, List.length_map, List.length_map, hsplit]

/-- Items are handed on in the order in which they were taken, and before those still queued. -/
theorem Conserved.sublist (h : Conserved taken handed dropped queue) : (handed ++ queue).Sublist taken := by
  obtain ⟨gone, htaken, hhanded, _⟩ := h
  rw [htaken, hhanded]
  exact (List.Sublist.map _ List.filter_sublist).append (List.Sublist.refl _)

/-- The item at the front is the one after those that went. -/
theorem Conserved.next {a : α} (h : Conserved taken handed dropped (a :: queue)) : taken[handed.length + dropped]? = some a := by
  obtain ⟨gone, htaken, hhanded, hdropped⟩ := h
  have hlength : handed.length + dropped = (gone.map (·.2)).length := by
    rw [hhanded, hdropped, List.length_map, List.length_map, ← List.length_eq_length_filter_add]
  rw [htaken, hlength, List.getElem?_append_right (Nat.le_refl _), Nat.sub_self]
  rfl

/-- The one item that is queued is the one taken last. -/
theorem Conserved.newest {a : α} (h : Conserved taken handed dropped [a]) : taken.getLast? = some a := by
  obtain ⟨gone, htaken, _, _⟩ := h
  rw [htaken, List.getLast?_concat]

end OmtClient.Lib
