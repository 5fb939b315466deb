import Mathlib.Algebra.Order.Ring.Int
import Mathlib.Data.List.Basic

/-!
# Machines driven by a list of inputs

A machine takes one input at a time and either goes on or ends with a result.
`drive` runs it over a list of inputs and stops at the first result. The module
gives the rules every development over such a machine needs:

1. `drive_invariant`: what every step keeps, every run keeps.
2. `drive_invariant_of`: the same when each step also meets a condition on the
   state before it and its input (`AllSteps`).
3. `drive_iff_allSteps`: a property lost for good at the first step that breaks a
   condition holds at the end of a run exactly when every step met it.
4. `drive_done`: a run that ended has a last step, and the state before it.
-/

namespace OmtClient.Lib

universe u v w

/-- What a machine does with one input: it goes on from a new state, or it ends
with a result. -/
inductive Progress (σ : Type u) (ρ : Type v)
  | running (s : σ)
  | done (s : σ) (r : ρ)
  deriving DecidableEq, Repr

/-- The state a machine is left in. -/
def Progress.state {σ : Type u} {ρ : Type v} : Progress σ ρ → σ
  | .running s => s
  | .done s _ => s

/-- The result a machine ended with, if it did. -/
def Progress.result? {σ : Type u} {ρ : Type v} : Progress σ ρ → Option ρ
  | .running _ => none
  | .done _ r => some r

section

variable {σ : Type u} {ρ : Type v} {ε : Type w}

/-- Runs a machine over a list of inputs, up to its first result. -/
def drive (step : σ → ε → Progress σ ρ) : σ → List ε → Progress σ ρ
  | s, [] => .running s
  | s, e :: es =>
    match step s e with
    | .running s' => drive step s' es
    | .done s' r => .done s' r

/-- Every step of the run over `es` from `s` meets the condition `C` on the
state before it and its input. -/
def AllSteps (step : σ → ε → Progress σ ρ) (C : σ → ε → Prop) : σ → List ε → Prop
  | _, [] => True
  | s, e :: es => C s e ∧ ∀ s', step s e = .running s' → AllSteps step C s' es

variable {step : σ → ε → Progress σ ρ}

theorem drive_cons_running {s s' : σ} {e : ε} (h : step s e = .running s') (es : List ε) :
    drive step s (e :: es) = drive step s' es := by
  simp [drive, h]

theorem drive_cons_done {s s' : σ} {e : ε} {r : ρ} (h : step s e = .done s' r) (es : List ε) :
    drive step s (e :: es) = .done s' r := by
  simp [drive, h]

/-- Every state a run goes through keeps what the steps under `C` keep. -/
theorem drive_invariant_of {C : σ → ε → Prop} {I : σ → Prop}
    (hstep : ∀ s e s', I s → C s e → step s e = .running s' → I s')
    {s t : σ} {es : List ε} (hs : I s) (hC : AllSteps step C s es)
    (h : drive step s es = .running t) : I t := by
  induction es generalizing s with
  | nil => cases h; exact hs
  | cons e es ih =>
    obtain ⟨hc, hrest⟩ := hC
    cases hse : step s e with
    | running s' =>
      rw [drive_cons_running hse] at h
      exact ih (hstep s e s' hs hc hse) (hrest s' hse) h
    | done s' r =>
      rw [drive_cons_done hse] at h
      exact nomatch h

theorem allSteps_trivial (s : σ) (es : List ε) : AllSteps step (fun _ _ => True) s es := by
  induction es generalizing s with
  | nil => trivial
  | cons e es ih => exact ⟨trivial, fun s' _ => ih s'⟩

theorem drive_invariant {I : σ → Prop}
    (hstep : ∀ s e s', I s → step s e = .running s' → I s')
    {s t : σ} {es : List ε} (hs : I s) (h : drive step s es = .running t) : I t :=
  drive_invariant_of (C := fun _ _ => True) (fun s e s' hi _ => hstep s e s' hi) hs
    (allSteps_trivial s es) h

/-- When each step keeps `P` exactly under `C`, and nothing brings `P` back, a run
keeps `P` exactly when all its steps meet `C`. -/
theorem drive_iff_allSteps {C : σ → ε → Prop} {I P : σ → Prop}
    (hinv : ∀ s e s', I s → step s e = .running s' → I s')
    (hstep : ∀ s e s', I s → step s e = .running s' → (P s' ↔ P s ∧ C s e))
    {s t : σ} {es : List ε} (hs : I s) (h : drive step s es = .running t) :
    P t ↔ P s ∧ AllSteps step C s es := by
  induction es generalizing s with
  | nil => cases h; exact ⟨fun hp => ⟨hp, trivial⟩, And.left⟩
  | cons e es ih =>
    cases hse : step s e with
    | running s' =>
      rw [drive_cons_running hse] at h
      rw [ih (hinv s e s' hs hse) h, hstep s e s' hs hse]
      constructor
      · rintro ⟨⟨hp, hc⟩, hall⟩
        refine ⟨hp, hc, fun s'' hs'' => ?_⟩
        cases hse.symm.trans hs''
        exact hall
      · rintro ⟨hp, hc, hall⟩
        exact ⟨⟨hp, hc⟩, hall s' hse⟩
    | done s' r =>
      rw [drive_cons_done hse] at h
      exact nomatch h

/-- A run that ended went on up to some state and ended with one more step. -/
theorem drive_done {s t : σ} {r : ρ} {es : List ε} (h : drive step s es = .done t r) :
    ∃ pre e post m, es = pre ++ e :: post ∧ drive step s pre = .running m ∧
      step m e = .done t r := by
  induction es generalizing s with
  | nil => exact nomatch h
  | cons e es ih =>
    cases hse : step s e with
    | running s' =>
      rw [drive_cons_running hse] at h
      obtain ⟨pre, e', post, m, rfl, hrun, hlast⟩ := ih h
      exact ⟨e :: pre, e', post, m, rfl, by rw [drive_cons_running hse]; exact hrun, hlast⟩
    | done s' r' =>
      rw [drive_cons_done hse] at h
      exact ⟨[], e, es, s, rfl, rfl, hse.trans h⟩

theorem allSteps_take {C : σ → ε → Prop} {s : σ} {es fs : List ε}
    (h : AllSteps step C s (es ++ fs)) : AllSteps step C s es := by
  induction es generalizing s with
  | nil => trivial
  | cons e es ih => exact ⟨h.1, fun s' hs' => ih (h.2 s' hs')⟩

/-- The step after a run over a prefix meets the condition too. -/
theorem allSteps_at {C : σ → ε → Prop} {s m : σ} {pre post : List ε} {e : ε}
    (h : AllSteps step C s (pre ++ e :: post)) (hrun : drive step s pre = .running m) : C m e := by
  induction pre generalizing s with
  | nil => cases hrun; exact h.1
  | cons d pre ih =>
    cases hsd : step s d with
    | running s' =>
      rw [drive_cons_running hsd] at hrun
      exact ih (h.2 s' hsd) hrun
    | done s' r =>
      rw [drive_cons_done hsd] at hrun
      exact nomatch hrun

/-- The test of `AllSteps` for a condition that can be computed. -/
def allStepsB (step : σ → ε → Progress σ ρ) (c : σ → ε → Bool) : σ → List ε → Bool
  | _, [] => true
  | s, e :: es =>
    c s e && match step s e with
    | .running s' => allStepsB step c s' es
    | .done _ _ => true

theorem allSteps_of_allStepsB {C : σ → ε → Prop} {c : σ → ε → Bool}
    (hc : ∀ s e, c s e = true → C s e) {s : σ} {es : List ε} (h : allStepsB step c s es = true) :
    AllSteps step C s es := by
  induction es generalizing s with
  | nil => trivial
  | cons e es ih =>
    simp only [allStepsB, Bool.and_eq_true] at h
    refine ⟨hc s e h.1, fun s' hs' => ih ?_⟩
    simpa only [hs'] using h.2

end

end OmtClient.Lib
