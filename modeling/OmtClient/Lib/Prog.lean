import Mathlib.Algebra.Order.Ring.Int
import Mathlib.Data.List.Basic

/-!
# Programs over a state that can stop with an error

`Prog σ ε α` is sequential code over a state `σ`: it returns a value or stops
with an error, and either way leaves the state as far as it got. `wp` is the
weakest precondition of such a program for a postcondition on what it returns and
one on how it stops. The rules are equations, so a proof runs through a program
with them and meets the functions it calls by their own specifications
(`wp_mono`).

1. `wp_bind`, `wp_ite` and the rules of the basic programs.
2. `wp_loop`: an invariant and a variant of one turn of a loop.
3. `Runs`: an invariant and a measure of a program whether it returns or stops,
   with the same rules.
4. `Keeps`: what a program leaves alone.
-/

namespace OmtClient.Lib

variable {σ ε α β : Type}

/-- Code over a state: what it returned or why it stopped, and the state it
left. -/
structure Prog (σ ε α : Type) where
  run : σ → Except ε α × σ

namespace Prog

def andThen (m : Prog σ ε α) (f : α → Prog σ ε β) : Prog σ ε β where
  run s :=
    match m.run s with
    | (.ok a, s') => (f a).run s'
    | (.error e, s') => (.error e, s')

instance : Monad (Prog σ ε) where
  pure a := ⟨fun s => (.ok a, s)⟩
  bind := andThen

/-- Stops with an error. -/
def raise (e : ε) : Prog σ ε α := ⟨fun s => (.error e, s)⟩

def get : Prog σ ε σ := ⟨fun s => (.ok s, s)⟩

def modify (f : σ → σ) : Prog σ ε Unit := ⟨fun s => (.ok (), f s)⟩

/-- Runs a program and returns how it ended. -/
def attempt (m : Prog σ ε α) : Prog σ ε (Except ε α) := ⟨fun s => (.ok (m.run s).1, (m.run s).2)⟩

/-- The value, or stops when there is none. -/
def orRaise (o : Option α) (e : ε) : Prog σ ε α :=
  match o with
  | some a => pure a
  | none => raise e

/-- Turns of `body` until one returns a value; `stuck` after `n` turns. -/
def loop (body : Prog σ ε (Option α)) (stuck : ε) : Nat → Prog σ ε α
  | 0 => raise stuck
  | n + 1 => do
    match ← body with
    | some a => pure a
    | none => loop body stuck n

/-! ## Weakest preconditions -/

/-- From `s` the program returns a value and a state as `Q` says, or stops as `E`
says. -/
def wp (m : Prog σ ε α) (Q : α → σ → Prop) (E : ε → σ → Prop) (s : σ) : Prop :=
  match m.run s with
  | (.ok a, s') => Q a s'
  | (.error e, s') => E e s'

variable {m : Prog σ ε α} {f : α → Prog σ ε β} {s : σ}

@[simp] theorem wp_pure {Q : α → σ → Prop} {E : ε → σ → Prop} {a : α} :
    wp (pure a : Prog σ ε α) Q E s ↔ Q a s := Iff.rfl

@[simp] theorem wp_raise {Q : α → σ → Prop} {E : ε → σ → Prop} {e : ε} :
    wp (raise e : Prog σ ε α) Q E s ↔ E e s := Iff.rfl

@[simp] theorem wp_get {Q : σ → σ → Prop} {E : ε → σ → Prop} :
    wp (get : Prog σ ε σ) Q E s ↔ Q s s := Iff.rfl

@[simp] theorem wp_modify {Q : Unit → σ → Prop} {E : ε → σ → Prop} {g : σ → σ} :
    wp (modify g : Prog σ ε Unit) Q E s ↔ Q () (g s) := Iff.rfl

@[simp] theorem wp_bind {Q : β → σ → Prop} {E : ε → σ → Prop} :
    wp (m >>= f) Q E s ↔ wp m (fun a s' => wp (f a) Q E s') E s := by
  simp only [wp, bind, andThen]
  cases m.run s with
  | mk r s' => cases r <;> rfl

@[simp] theorem wp_ite {Q : α → σ → Prop} {E : ε → σ → Prop} {c : Prop} [Decidable c]
    {m' : Prog σ ε α} :
    wp (if c then m else m') Q E s ↔ (c → wp m Q E s) ∧ (¬ c → wp m' Q E s) := by
  split
  · next h => exact ⟨fun hm => ⟨fun _ => hm, fun hn => absurd h hn⟩, fun hm => hm.1 h⟩
  · next h => exact ⟨fun hm => ⟨fun hc => absurd hc h, fun _ => hm⟩, fun hm => hm.2 h⟩

@[simp] theorem wp_attempt {Q : Except ε α → σ → Prop} {E : ε → σ → Prop} :
    wp (attempt m) Q E s ↔ wp m (fun a => Q (.ok a)) (fun e => Q (.error e)) s := by
  simp only [wp, attempt]
  split
  · next h => rw [h]
  · next h => rw [h]

@[simp] theorem wp_orRaise {Q : α → σ → Prop} {E : ε → σ → Prop} {o : Option α} {e : ε} :
    wp (orRaise o e : Prog σ ε α) Q E s ↔ (∀ a, o = some a → Q a s) ∧ (o = none → E e s) := by
  cases o with
  | none => simp [orRaise]
  | some a => simp [orRaise]

theorem wp_mono {Q Q' : α → σ → Prop} {E E' : ε → σ → Prop} (h : wp m Q E s)
    (hQ : ∀ a s', Q a s' → Q' a s') (hE : ∀ e s', E e s' → E' e s') : wp m Q' E' s := by
  unfold wp at *
  split
  · next a s' hm =>
    rw [hm] at h
    exact hQ a s' h
  · next e s' hm =>
    rw [hm] at h
    exact hE e s' h

/-- The specification of a program, then what follows from it for the rest. -/
theorem wp_seq {Q : α → σ → Prop} {R : β → σ → Prop} {E : ε → σ → Prop} (hm : wp m Q E s)
    (hf : ∀ a s', Q a s' → wp (f a) R E s') : wp (m >>= f) R E s :=
  (wp_bind).mpr (wp_mono hm hf fun _ _ h => h)

/-- What holds of a sequence holds of its second part, from where the first one returns. -/
theorem wp_bind_elim {Q : α → σ → Prop} {R : β → σ → Prop} {E : ε → σ → Prop} (h : wp (m >>= f) R E s)
    (hm : wp m Q (fun _ _ => False) s) : ∃ a s', Q a s' ∧ wp (f a) R E s' := by
  rw [wp_bind] at h
  unfold wp at h hm
  split at hm
  · next a s' hrun =>
    rw [hrun] at h
    exact ⟨a, s', hm, h⟩
  · exact hm.elim

theorem wp_true (m : Prog σ ε α) : wp m (fun _ _ => True) (fun _ _ => True) s := by
  unfold wp
  split
  · trivial
  · trivial

/-- A program that cannot stop returns. -/
theorem run_of_wp {Q : α → σ → Prop} (h : wp m Q (fun _ _ => False) s) :
    ∃ a s', m.run s = (.ok a, s') ∧ Q a s' := by
  unfold wp at h
  split at h
  · next a s' hm => exact ⟨a, s', hm, h⟩
  · exact h.elim

/-- A program that cannot return stops as it should. -/
theorem stops_of_wp {P : Prop} (h : wp m (fun _ _ => False) (fun _ _ => P) s) : P := by
  unfold wp at h
  split at h
  · exact h.elim
  · exact h

theorem run_bind_ok {a : α} {s' : σ} (h : m.run s = (.ok a, s')) : (m >>= f).run s = (f a).run s' := by
  simp only [bind, andThen, h]

/-- Programs that go on the same way after a step run the same. -/
theorem run_bind_congr {g : α → Prog σ ε β} (h : wp m (fun a s' => (f a).run s' = (g a).run s') (fun _ _ => True) s) :
    (m >>= f).run s = (m >>= g).run s := by
  unfold wp at h
  simp only [bind, andThen]
  split at h
  · exact h
  · rfl

/-- A program that cannot stop hands its state on. -/
theorem run_bind {m : Prog σ Empty Unit} {f : Unit → Prog σ Empty α} : (m >>= f).run s = (f ()).run (m.run s).2 := by
  simp only [bind, andThen]
  split
  · next hrun => rw [hrun]
  · next e _ _ => exact e.elim

/-- What holds of the state however the program ends. -/
theorem after_of_wp {m : Prog σ Empty α} {Q : σ → Prop} {E : Empty → σ → Prop} (h : wp m (fun _ => Q) E s) : Q (m.run s).2 := by
  unfold wp at h
  split at h
  · next hrun => rwa [hrun]
  · next e _ _ => exact e.elim

/-- A loop whose turns keep `I` and go on only while `μ` falls ends where one of
its turns does; with more turns than `μ` says it never gets stuck. -/
theorem wp_loop {body : Prog σ ε (Option α)} {stuck : ε} (I : σ → Prop) (μ : σ → Nat)
    {Q : α → σ → Prop} {E : ε → σ → Prop}
    (hbody : ∀ s, I s → wp body (fun o s' => match o with
      | some a => Q a s'
      | none => I s' ∧ μ s' < μ s) E s)
    {n : Nat} {s : σ} (hs : I s) (hn : μ s < n) : wp (loop body stuck n) Q E s := by
  induction n generalizing s with
  | zero => exact absurd hn (Nat.not_lt_zero _)
  | succ n ih =>
    rw [loop, wp_bind]
    refine wp_mono (hbody s hs) ?_ (fun _ _ h => h)
    intro o s' ho
    cases o with
    | some a => exact ho
    | none => exact ih ho.1 (Nat.lt_of_lt_of_le ho.2 (Nat.le_of_lt_succ hn))

/-! ## Invariants -/

theorem wp_and {Q Q' : α → σ → Prop} {E E' : ε → σ → Prop} (h : wp m Q E s) (h' : wp m Q' E' s) :
    wp m (fun a s' => Q a s' ∧ Q' a s') (fun e s' => E e s' ∧ E' e s') s := by
  unfold wp at *
  split
  · next hm =>
    rw [hm] at h h'
    exact ⟨h, h'⟩
  · next hm =>
    rw [hm] at h h'
    exact ⟨h, h'⟩

/-- The program keeps `I` and never raises `μ`, whether it returns or stops, and
stops only as `E` allows. -/
def Runs (I : σ → Prop) (μ : σ → Nat) (E : ε → Prop) (m : Prog σ ε α) : Prop :=
  ∀ s, I s → wp m (fun _ s' => I s' ∧ μ s' ≤ μ s) (fun e s' => E e ∧ I s' ∧ μ s' ≤ μ s) s

section

variable {I : σ → Prop} {μ : σ → Nat} {E : ε → Prop}

theorem Runs.state (h : Runs I μ E m) (hs : I s) : I (m.run s).2 := by
  have hw := h s hs
  unfold wp at hw
  split at hw
  · next hm => rw [hm]; exact hw.1
  · next hm => rw [hm]; exact hw.2.1

theorem runs_pure (a : α) : Runs I μ E (pure a : Prog σ ε α) := fun _ h => ⟨h, Nat.le_refl _⟩

theorem runs_raise {e : ε} (he : E e) : Runs I μ E (raise e : Prog σ ε α) :=
  fun _ h => ⟨he, h, Nat.le_refl _⟩

theorem runs_get : Runs I μ E (get : Prog σ ε σ) := fun _ h => ⟨h, Nat.le_refl _⟩

theorem runs_modify {g : σ → σ} (h : ∀ s, I s → I (g s)) (hμ : ∀ s, μ (g s) ≤ μ s) :
    Runs I μ E (modify g : Prog σ ε Unit) := fun s hs => ⟨h s hs, hμ s⟩

theorem runs_bind (hm : Runs I μ E m) (hf : ∀ a, Runs I μ E (f a)) : Runs I μ E (m >>= f) := by
  intro s hs
  rw [wp_bind]
  refine wp_mono (hm s hs) ?_ (fun _ _ h => h)
  rintro a s' ⟨hs', hμ⟩
  refine wp_mono (hf a s' hs') ?_ ?_
  · rintro b s'' ⟨hs'', hμ'⟩
    exact ⟨hs'', Nat.le_trans hμ' hμ⟩
  · rintro e s'' ⟨he, hs'', hμ'⟩
    exact ⟨he, hs'', Nat.le_trans hμ' hμ⟩

theorem runs_ite {c : Prop} [Decidable c] {m' : Prog σ ε α} (h : Runs I μ E m)
    (h' : Runs I μ E m') : Runs I μ E (if c then m else m') := by
  split
  · exact h
  · exact h'

theorem runs_attempt (h : Runs I μ E m) : Runs I μ E (attempt m) := by
  intro s hs
  rw [wp_attempt]
  exact wp_mono (h s hs) (fun _ _ h => h) (fun _ _ h => h.2)

/-- A loop whose turns go on only while `μ` falls, with enough turns for it. -/
theorem runs_loop {body : Prog σ ε (Option α)} {stuck : ε} (h : Runs I μ E body)
    (hless : ∀ s, I s → wp body (fun o s' => o = none → μ s' < μ s) (fun _ _ => True) s) :
    Runs I μ E (get >>= fun s => loop body stuck (μ s + 1)) := by
  intro s hs
  rw [wp_bind, wp_get]
  refine wp_loop (fun s' => I s' ∧ μ s' ≤ μ s) μ ?_ ⟨hs, Nat.le_refl _⟩ (Nat.lt_succ_self _)
  rintro u ⟨hu, hle⟩
  refine wp_mono (wp_and (h u hu) (hless u hu)) ?_ ?_
  · rintro o s' ⟨⟨hs', hμ⟩, hfall⟩
    cases o with
    | some a => exact ⟨hs', Nat.le_trans hμ hle⟩
    | none => exact ⟨⟨hs', Nat.le_trans hμ hle⟩, hfall rfl⟩
  · rintro e s' ⟨⟨he, hs', hμ⟩, _⟩
    exact ⟨he, hs', Nat.le_trans hμ hle⟩

end

/-! ## What a program leaves alone -/

/-- The program does not change what `view` sees of the state. -/
def Keeps {τ : Type} (view : σ → τ) (m : Prog σ ε α) : Prop := ∀ s, view (m.run s).2 = view s

section

variable {τ : Type} {view : σ → τ}

theorem keeps_pure (a : α) : Keeps view (pure a : Prog σ ε α) := fun _ => rfl

theorem keeps_get : Keeps view (get : Prog σ ε σ) := fun _ => rfl

theorem keeps_bind (hm : Keeps view m) (hf : ∀ a, Keeps view (f a)) : Keeps view (m >>= f) := by
  intro s
  have hs := hm s
  simp only [bind, andThen]
  split
  · next a s' hrun =>
    rw [hrun] at hs
    exact (hf a s').trans hs
  · next e s' hrun =>
    rw [hrun] at hs
    exact hs

theorem keeps_ite {c : Prop} [Decidable c] {m' : Prog σ ε α} (h : Keeps view m) (h' : Keeps view m') :
    Keeps view (if c then m else m') := by
  split
  · exact h
  · exact h'

theorem wp_keeps {Q : α → σ → Prop} {E : ε → σ → Prop} (h : wp m Q E s) (hk : Keeps view m) :
    wp m (fun a s' => Q a s' ∧ view s' = view s) E s := by
  have hs := hk s
  unfold wp at *
  split
  · next hrun =>
    rw [hrun] at h hs
    exact ⟨h, hs⟩
  · next hrun => rwa [hrun] at h

/-- What sees less is kept as well. -/
theorem Keeps.coarser {υ : Type} {view' : σ → υ} (less : τ → υ) (hless : ∀ s, view' s = less (view s)) (h : Keeps view m) :
    Keeps view' m := fun s => by rw [hless, hless, h s]

end

end Prog

end OmtClient.Lib
