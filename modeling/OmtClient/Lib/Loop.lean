import Mathlib.Algebra.Order.Ring.Int
import Mathlib.Data.List.Basic

/-!
# Counted loops

A loop `for i in 0..n` whose body may fail is `List.foldlM` over `List.range n`.

1. `foldlM_range_ok`: a loop whose invariant is kept by every pass, none of which fails,
   ends with the invariant.
2. `foldlM_invariant`: what each step of a machine keeps, a run over any list of actions
   keeps.
-/

namespace OmtClient.Lib

universe u v

variable {σ : Type u} {ε : Type v}

/-- The rule for a loop that succeeds: `P i` holds before pass `i`. -/
theorem foldlM_range_ok {f : σ → Nat → Except ε σ} {P : Nat → σ → Prop} {n : Nat} {s : σ} (hzero : P 0 s)
    (hpass : ∀ i t, i < n → P i t → ∃ t', f t i = .ok t' ∧ P (i + 1) t') :
    ∃ t, (List.range n).foldlM f s = .ok t ∧ P n t := by
  induction n with
  | zero => exact ⟨s, rfl, hzero⟩
  | succ n ih =>
    obtain ⟨t, hrun, ht⟩ := ih fun i t hi => hpass i t (Nat.lt_succ_of_lt hi)
    obtain ⟨t', hlast, ht'⟩ := hpass n t (Nat.lt_succ_self n) ht
    refine ⟨t', ?_, ht'⟩
    rw [List.range_succ, List.foldlM_append, hrun]
    show [n].foldlM f t = .ok t'
    rw [List.foldlM_cons, hlast]
    rfl

/-- The rule for a machine that takes the actions it is able to take. -/
theorem foldlM_invariant {α : Type v} {step : σ → α → Option σ} {P : σ → Prop} {actions : List α} {s t : σ}
    (hstep : ∀ s a s', P s → step s a = some s' → P s') (hs : P s) (h : actions.foldlM step s = some t) : P t := by
  induction actions generalizing s with
  | nil => exact Option.some.inj h ▸ hs
  | cons a as ih =>
    rw [List.foldlM_cons] at h
    obtain ⟨s', hone, hrest⟩ := Option.bind_eq_some_iff.mp h
    exact ih (hstep s a s' hs hone) hrest

end OmtClient.Lib
