import Mathlib.Algebra.Order.Ring.Int
import Mathlib.Data.List.Basic

/-!
# Bounded logs

A journal keeps the newest entries of a history and the number of the entry after them. A
reader asks for what comes from some number on, and goes on where its last batch ended.

1. `Keeps.push` and `Keeps.since_eq`: what a journal holds and what it answers.
2. `Follows.exact`: the batches of a reader are the history, less what each batch says is
   missing before it.
-/

namespace OmtClient.Lib

variable {α : Type} {capacity : Nat}

structure Journal (α : Type) where
  entries : List α
  next : Nat

/-- A new entry; the oldest goes when the journal is full. -/
def Journal.push (capacity : Nat) (j : Journal α) (entry : α) : Journal α :=
  ⟨(if capacity ≤ j.entries.length then j.entries.tail else j.entries) ++ [entry], j.next + 1⟩

/-- The entries from `n` on, and the number of the first of them. -/
def Journal.since (j : Journal α) (n : Nat) : Nat × List α :=
  let start := j.next - j.entries.length
  let first := min (max n start) j.next
  (first, j.entries.drop (first - start))

/-- A journal holds the newest entries of a history. -/
structure Keeps (capacity : Nat) (j : Journal α) (history : List α) : Prop where
  next : j.next = history.length
  entries : j.entries = history.drop (history.length - capacity)

variable {j : Journal α} {history history' : List α}

theorem Keeps.empty : Keeps capacity (⟨[], 0⟩ : Journal α) [] := ⟨rfl, List.drop_nil.symm⟩

theorem Keeps.length (h : Keeps capacity j history) : j.entries.length = min history.length capacity := by
  rw [h.entries, List.length_drop]
  omega

theorem Keeps.push (h : Keeps capacity j history) (hcapacity : 0 < capacity) (entry : α) :
    Keeps capacity (j.push capacity entry) (history ++ [entry]) := by
  have hlength := h.length
  refine ⟨by rw [Journal.push, h.next, List.length_append, List.length_singleton], ?_⟩
  rw [Journal.push, List.length_append, List.length_singleton]
  dsimp only
  split
  · next hfull =>
    have hover : history.length + 1 - capacity = history.length - capacity + 1 := by omega
    rw [h.entries, List.tail_drop, hover, List.drop_append_of_le_length (by omega)]
  · next hroom =>
    have hnone : history.length - capacity = 0 := by omega
    have hnone' : history.length + 1 - capacity = 0 := by omega
    rw [h.entries, hnone, hnone', List.drop_zero, List.drop_zero]

/-- What is asked for from a number that the history has reached. -/
theorem Keeps.since_eq (h : Keeps capacity j history) {n : Nat} (hn : n ≤ history.length) :
    j.since n = (max n (history.length - capacity), history.drop (max n (history.length - capacity))) := by
  have hlength := h.length
  have hstart : j.next - j.entries.length = history.length - capacity := by
    rw [h.next, hlength]
    omega
  have hfirst : min (max n (history.length - capacity)) j.next = max n (history.length - capacity) := by
    rw [h.next]
    omega
  unfold Journal.since
  dsimp only
  rw [hstart, hfirst, h.entries, List.drop_drop]
  refine Prod.ext rfl (congrArg (fun m => history.drop m) ?_)
  omega

/-! ## Readers -/

/-- An answer that a reader has received: what it asked for, the numbers it was told and the
entries. -/
structure Batch (α : Type) where
  since : Nat
  start : Nat
  stop : Nat
  entries : List α
  deriving DecidableEq, Repr

/-- The entries that went before a batch. -/
def Batch.missing (b : Batch α) : Nat := b.start - b.since

/-- The batches of a reader that goes on where its last batch ended. -/
inductive Follows (capacity : Nat) (history : List α) : List (Batch α) → Nat → Prop
  | nil : Follows capacity history [] 0
  | snoc {batches : List (Batch α)} {cursor : Nat} {b : Batch α} (before : Follows capacity history batches cursor)
      (since : b.since = cursor) (ends : cursor ≤ b.stop ∧ b.stop ≤ history.length)
      (start : b.start = max cursor (b.stop - capacity)) (entries : b.entries = (history.take b.stop).drop b.start) :
      Follows capacity history (batches ++ [b]) b.stop

variable {batches : List (Batch α)} {cursor : Nat}

theorem Follows.le (h : Follows capacity history batches cursor) : cursor ≤ history.length := by
  cases h with
  | nil => exact Nat.zero_le _
  | snoc _ _ ends => exact ends.2

/-- Nothing that was read changes when the history goes on. -/
theorem Follows.mono (h : Follows capacity history batches cursor) (hhistory : history <+: history') :
    Follows capacity history' batches cursor := by
  induction h with
  | nil => exact .nil
  | snoc _ since ends start entries ih =>
    obtain ⟨rest, rfl⟩ := hhistory
    refine .snoc ih since ⟨ends.1, ?_⟩ start ?_
    · rw [List.length_append]
      exact Nat.le_trans ends.2 (Nat.le_add_right _ _)
    · rw [List.take_append_of_le_length ends.2]
      exact entries

/-- The next batch, read from the journal itself. -/
theorem Follows.read (h : Follows capacity history batches cursor) (hkeeps : Keeps capacity j history) :
    Follows capacity history (batches ++ [⟨cursor, (j.since cursor).1, j.next, (j.since cursor).2⟩]) history.length := by
  rw [hkeeps.since_eq h.le, hkeeps.next]
  refine .snoc h rfl ⟨h.le, Nat.le_refl _⟩ rfl ?_
  rw [List.take_length]

/-- The batches and what is missing between them make the history up to the cursor. -/
theorem Follows.exact (h : Follows capacity history batches cursor) :
    ∃ gaps : List (List α), gaps.map List.length = batches.map Batch.missing ∧
      history.take cursor = (List.zipWith (fun gap b => gap ++ b.entries) gaps batches).flatten := by
  induction h with
  | nil => exact ⟨[], rfl, rfl⟩
  | @snoc batches cursor b before since ends start entries ih =>
    obtain ⟨gaps, hlengths, htaken⟩ := ih
    have hstart : cursor ≤ b.start ∧ b.start ≤ b.stop := by omega
    refine ⟨gaps ++ [(history.take b.start).drop cursor], ?_, ?_⟩
    · rw [List.map_append, List.map_append, hlengths]
      refine congrArg (_ ++ ·) ?_
      rw [List.map_singleton, List.map_singleton, Batch.missing, List.length_drop, List.length_take, since]
      congr 2
      omega
    · have hlength : gaps.length = batches.length := by
        simpa only [List.length_map] using congrArg List.length hlengths
      rw [List.zipWith_append hlength, List.flatten_append, ← htaken, List.zipWith_cons_cons, List.zipWith_nil_left,
        List.flatten_singleton, entries, ← List.append_assoc]
      have hcursor : history.take cursor = (history.take b.start).take cursor := by
        rw [List.take_take, Nat.min_eq_left hstart.1]
      have hstop : history.take b.start = (history.take b.stop).take b.start := by
        rw [List.take_take, Nat.min_eq_left hstart.2]
      rw [hcursor, List.take_append_drop, hstop, List.take_append_drop]

end OmtClient.Lib
