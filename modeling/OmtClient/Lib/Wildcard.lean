import Mathlib.Data.List.Infix
import Mathlib.Data.Prod.Lex

/-!
# Patterns with stars

A pattern is a list. Some of its elements are stars, which stand for any text, and each of the
others fits one element of a text. `wildcard` matches with one star to go back to: what the last
star took is all that is ever changed.

1. `wildcard_iff`: the loop finds out whether the text is of the pattern, provided that no star
   fits an element by itself.
-/

namespace OmtClient.Lib

variable {α β : Type}

/-- The texts of a pattern. -/
def OfPattern (fits : β → α → Bool) (star : β → Bool) (s : List α) : List β → Prop
  | [] => s = []
  | x :: p =>
    if star x = true then ∃ t, t <:+ s ∧ OfPattern fits star t p
    else ∃ c t, s = c :: t ∧ fits x c = true ∧ OfPattern fits star t p

theorem ofPattern_cons (fits : β → α → Bool) (star : β → Bool) (s : List α) (x : β) (p : List β) :
    OfPattern fits star s (x :: p) =
      if star x = true then ∃ t, t <:+ s ∧ OfPattern fits star t p
      else ∃ c t, s = c :: t ∧ fits x c = true ∧ OfPattern fits star t p := rfl

/-! ## The loop -/

/-- What is left of the text and of the pattern and, after a star, the pattern behind it and the
text it was last tried on. -/
structure Scan (α β : Type) where
  s : List α
  p : List β
  last : Option (List β × List α)
  behind : ∀ r ∈ last, p.length ≤ r.1.length

/-- After a mismatch the last star takes one more element. -/
def Scan.retry (a : Scan α β) : Option (Scan α β) :=
  match a.last with
  | some (q, _ :: m) => some ⟨m, q, some (q, m), by simp⟩
  | _ => none

/-- One turn: the result, or what the loop goes on with. -/
def Scan.step (fits : β → α → Bool) (star : β → Bool) (a : Scan α β) : Bool ⊕ Scan α β :=
  match a.s, hp : a.p with
  | [], p => .inl (p.all star)
  | c :: s, x :: p =>
    if fits x c = true then
      .inr ⟨s, p, a.last, fun r hr => Nat.le_of_succ_le (by simpa [hp] using a.behind r hr)⟩
    else if star x = true then .inr ⟨c :: s, p, some (p, c :: s), by simp⟩
    else a.retry.elim (.inl false) .inr
  | _ :: _, [] => a.retry.elim (.inl false) .inr

/-- How far the loop is: what is behind the last star, what it was tried on, and what is left of
the pattern. -/
def Scan.left (a : Scan α β) : Nat ×ₗ Nat ×ₗ Nat :=
  toLex (a.last.elim (a.p.length + 1) fun r => r.1.length, toLex (a.last.elim 0 fun r => r.2.length, a.p.length))

variable {fits : β → α → Bool} {star : β → Bool} {a b : Scan α β}

theorem Scan.retry_left (h : a.retry = some b) : b.left < a.left := by
  unfold Scan.retry at h
  split at h
  next q c m hlast =>
    cases h
    unfold Scan.left
    rw [hlast, Prod.Lex.toLex_lt_toLex]
    refine .inr ⟨rfl, ?_⟩
    rw [Prod.Lex.toLex_lt_toLex]
    exact .inl (Nat.lt_succ_self _)
  · cases h

theorem Scan.retry_step (h : a.retry.elim (Sum.inl false) .inr = (.inr b : Bool ⊕ Scan α β)) : a.retry = some b := by
  cases hretry : a.retry with
  | none =>
    rw [hretry] at h
    cases h
  | some b' =>
    rw [hretry] at h
    cases h
    rfl

theorem Scan.step_left (h : a.step fits star = .inr b) : b.left < a.left := by
  unfold Scan.step at h
  split at h
  · cases h
  next c s x p hs hp =>
    split at h
    · cases h
      unfold Scan.left
      dsimp only
      rw [hp, Prod.Lex.toLex_lt_toLex]
      cases hlast : a.last with
      | none => exact .inl (Nat.lt_succ_self _)
      | some r =>
        refine .inr ⟨rfl, ?_⟩
        rw [Prod.Lex.toLex_lt_toLex]
        exact .inr ⟨rfl, Nat.lt_succ_self _⟩
    · split at h
      · cases h
        unfold Scan.left
        dsimp only
        rw [hp, Prod.Lex.toLex_lt_toLex]
        refine .inl ?_
        cases hlast : a.last with
        | none => exact Nat.lt_succ_of_lt (Nat.lt_succ_self _)
        | some r =>
          have hbehind := a.behind r hlast
          rw [hp] at hbehind
          exact hbehind
      · exact Scan.retry_left (Scan.retry_step h)
  · exact Scan.retry_left (Scan.retry_step h)

def Scan.run (fits : β → α → Bool) (star : β → Bool) (a : Scan α β) : Bool :=
  match _h : a.step fits star with
  | .inl result => result
  | .inr b => b.run fits star
termination_by a.left
decreasing_by exact Scan.step_left _h

def wildcard (fits : β → α → Bool) (star : β → Bool) (s : List α) (p : List β) : Bool :=
  Scan.run fits star ⟨s, p, none, by simp⟩

/-! ## What it finds out -/

namespace WildcardLemmas

variable {s t m : List α} {p q w : List β} {c : α} {x : β}

theorem of_star (hx : star x = true) : OfPattern fits star s (x :: p) ↔ ∃ t, t <:+ s ∧ OfPattern fits star t p := by
  rw [ofPattern_cons, if_pos hx]

theorem of_one (hx : star x = false) :
    OfPattern fits star (c :: s) (x :: p) ↔ fits x c = true ∧ OfPattern fits star s p := by
  rw [ofPattern_cons, if_neg (Bool.eq_false_iff.mp hx)]
  constructor
  · rintro ⟨d, t, heq, hfits, ht⟩
    cases heq
    exact ⟨hfits, ht⟩
  · rintro ⟨hfits, hs⟩
    exact ⟨c, s, rfl, hfits, hs⟩

/-- The empty text is of the patterns of stars. -/
theorem of_empty : OfPattern fits star [] p ↔ p.all star = true := by
  induction p with
  | nil => exact ⟨fun _ => rfl, fun _ => rfl⟩
  | cons x p ih =>
    rw [List.all_cons, Bool.and_eq_true]
    by_cases hx : star x = true
    · rw [of_star hx, ← ih]
      constructor
      · rintro ⟨t, ht, hp⟩
        rw [List.suffix_nil.mp ht] at hp
        exact ⟨hx, hp⟩
      · rintro ⟨-, hp⟩
        exact ⟨[], List.suffix_rfl, hp⟩
    · rw [ofPattern_cons, if_neg hx]
      constructor
      · rintro ⟨c, t, heq, -⟩
        cases heq
      · rintro ⟨hno, -⟩
        exact absurd hno hx

/-- Elements that are no stars take one of the text each. -/
theorem of_ones (hones : ∀ y ∈ w, star y = false) (h : OfPattern fits star s (w ++ p)) :
    ∃ t, t <:+ s ∧ s.length = w.length + t.length ∧ OfPattern fits star t p := by
  induction w generalizing s with
  | nil => exact ⟨s, List.suffix_rfl, (Nat.zero_add _).symm, h⟩
  | cons y w ih =>
    rw [List.cons_append, ofPattern_cons, if_neg (by rw [hones y List.mem_cons_self]; exact Bool.false_ne_true)] at h
    obtain ⟨c, t, rfl, -, ht⟩ := h
    obtain ⟨u, hu, hlen, hp⟩ := ih (fun z hz => hones z (List.mem_cons_of_mem y hz)) ht
    refine ⟨u, hu.trans (List.suffix_cons c t), ?_, hp⟩
    rw [List.length_cons, List.length_cons, hlen, Nat.add_right_comm]

/-- What the loop keeps: since the last star, elements that are no stars, each against one of the
text. -/
structure Aligned (star : β → Bool) (a : Scan α β) (q : List β) (m : List α) : Prop where
  pattern : ∃ w, q = w ++ a.p ∧ m.length = w.length + a.s.length ∧ ∀ y ∈ w, star y = false
  text : a.s <:+ m

/-- What is still to be found out. -/
def Hope (fits : β → α → Bool) (star : β → Bool) (a : Scan α β) : Prop :=
  OfPattern fits star a.s a.p ∨
    ∃ q m, a.last = some (q, m) ∧ ∃ t, t <:+ m ∧ t.length < m.length ∧ OfPattern fits star t q

structure Kept (fits : β → α → Bool) (star : β → Bool) (a : Scan α β) : Prop where
  aligned : ∀ q m, a.last = some (q, m) → Aligned star a q m
  apart : ∀ x c, star x = true → (c ∈ a.s ∨ ∃ q m, a.last = some (q, m) ∧ c ∈ m) → fits x c = false

/-- A suffix is the text, or one of what is behind its first element. -/
theorem suffix_shorter : (t <:+ c :: m ∧ t.length < (c :: m).length) ↔ t <:+ m := by
  constructor
  · rintro ⟨ht, hlt⟩
    rcases List.suffix_cons_iff.mp ht with rfl | ht
    · exact absurd hlt (Nat.lt_irrefl _)
    · exact ht
  · intro ht
    exact ⟨ht.trans (List.suffix_cons c m), Nat.lt_succ_of_le ht.length_le⟩

/-- What the last star could still lead to is what there is to hope for, when the rest fails. -/
theorem retry_hope (hk : Kept fits star a) (hs : a.s ≠ []) (hfail : ¬ OfPattern fits star a.s a.p) :
    (a.retry = none → ¬ Hope fits star a) ∧ ∀ b, a.retry = some b → Kept fits star b ∧ (Hope fits star b ↔ Hope fits star a) := by
  unfold Scan.retry
  cases hlast : a.last with
  | none =>
    refine ⟨fun _ hhope => ?_, ?_⟩
    · rcases hhope with h | ⟨q, m, hm, -⟩
      · exact hfail h
      · cases hlast.symm.trans hm
    · rintro b ⟨⟩
  | some r =>
    obtain ⟨q, m⟩ := r
    cases m with
    | nil =>
      -- the text is not at its end, and what is left of it is behind the star
      have hsuffix := (hk.aligned q [] hlast).text
      exact absurd (List.suffix_nil.mp hsuffix) hs
    | cons c m =>
      refine ⟨by rintro ⟨⟩, ?_⟩
      intro b hb
      cases hb
      refine ⟨⟨?_, ?_⟩, ?_⟩
      · intro q' m' h
        cases h
        exact ⟨⟨[], rfl, (Nat.zero_add _).symm, fun y hy => by cases hy⟩, List.suffix_rfl⟩
      · intro x d hx hd
        refine hk.apart x d hx (.inr ⟨q, c :: m, hlast, ?_⟩)
        rcases hd with hd | ⟨q', m', h, hd⟩
        · exact List.mem_cons_of_mem c hd
        · cases h
          exact List.mem_cons_of_mem c hd
      · constructor
        · rintro (h | ⟨q', m', hm, t, ht, -, hq⟩)
          · exact .inr ⟨q, c :: m, hlast, m, List.suffix_cons c m, Nat.lt_succ_self _, h⟩
          · cases hm
            obtain ⟨ht', hlt⟩ := (suffix_shorter).mpr ht
            exact .inr ⟨q, c :: m, hlast, t, ht', hlt, hq⟩
        · rintro (h | ⟨q', m', hm, t, ht, hlt, hq⟩)
          · exact absurd h hfail
          · cases hlast.symm.trans hm
            have ht' := (suffix_shorter).mp ⟨ht, hlt⟩
            rcases eq_or_ne t m with rfl | hne
            · exact .inl hq
            · have hshort : t.length < m.length := by
                refine lt_of_le_of_ne ht'.length_le fun heq => hne ?_
                exact ht'.eq_of_length heq
              exact .inr ⟨q, m, rfl, t, ht', hshort, hq⟩

/-- At the end of the text there is nothing for the last star to give back. -/
theorem hope_end (hk : Kept fits star a) (hs : a.s = []) : Hope fits star a ↔ a.p.all star = true := by
  constructor
  · rintro (h | ⟨q, m, hlast, t, -, hlt, hq⟩)
    · rw [hs] at h
      exact (of_empty).mp h
    · obtain ⟨w, rfl, hlen, hones⟩ := (hk.aligned q m hlast).pattern
      obtain ⟨u, -, htlen, -⟩ := of_ones hones hq
      rw [hs, List.length_nil] at hlen
      omega
  · intro h
    refine .inl ?_
    rw [hs]
    exact (of_empty).mpr h

/-- At a star, what an earlier one could still lead to is among what this one can. -/
theorem hope_star (hk : Kept fits star a) (hs : a.s = c :: s) (hp : a.p = x :: p) (hx : star x = true) :
    Hope fits star a ↔ ∃ t, t <:+ c :: s ∧ OfPattern fits star t p := by
  constructor
  · rintro (h | ⟨q, m, hlast, t, ht, hlt, hq⟩)
    · rw [hs, hp] at h
      exact (of_star hx).mp h
    · obtain ⟨⟨w, rfl, hlen, hones⟩, htext⟩ := hk.aligned q m hlast
      obtain ⟨u, hu, htlen, hrest⟩ := of_ones hones hq
      rw [hp] at hrest
      obtain ⟨v, hv, hrest⟩ := (of_star hx).mp hrest
      have hshort : u.length ≤ (c :: s).length := by
        rw [hs] at hlen
        omega
      rw [hs] at htext
      exact ⟨v, hv.trans (List.suffix_of_suffix_length_le (hu.trans ht) htext hshort), hrest⟩
  · intro h
    refine .inl ?_
    rw [hs, hp]
    exact (of_star hx).mpr h

/-- One turn keeps what holds and what there is to hope for. -/
theorem step_kept (hk : Kept fits star a) :
    (∀ result, a.step fits star = .inl result → (result = true ↔ Hope fits star a)) ∧
      ∀ b, a.step fits star = .inr b → Kept fits star b ∧ (Hope fits star b ↔ Hope fits star a) := by
  have hmismatch (hs : a.s ≠ []) (hfail : ¬ OfPattern fits star a.s a.p) :
      (∀ result, a.retry.elim (Sum.inl false) .inr = (.inl result : Bool ⊕ Scan α β) → (result = true ↔ Hope fits star a)) ∧
        ∀ b, a.retry.elim (Sum.inl false) .inr = (.inr b : Bool ⊕ Scan α β) →
          Kept fits star b ∧ (Hope fits star b ↔ Hope fits star a) := by
    obtain ⟨hnone, hsome⟩ := retry_hope hk hs hfail
    cases hretry : a.retry with
    | none =>
      refine ⟨fun result h => ?_, by rintro b ⟨⟩⟩
      cases h
      exact ⟨fun h => absurd h Bool.false_ne_true, fun h => absurd h (hnone hretry)⟩
    | some b' =>
      refine ⟨by rintro result ⟨⟩, fun b h => ?_⟩
      cases h
      exact hsome b' hretry
  unfold Scan.step
  split
  next p hs =>
    refine ⟨fun result h => ?_, by rintro b ⟨⟩⟩
    cases h
    rw [hope_end hk hs]
  next c s x p hs hp =>
    split
    next hfits =>
      have hx : star x = false := by
        cases hx : star x with
        | false => rfl
        | true =>
          have hno := hk.apart x c hx (.inl (by rw [hs]; exact List.mem_cons_self))
          cases hno.symm.trans hfits
      refine ⟨by rintro result ⟨⟩, fun b h => ?_⟩
      cases h
      refine ⟨⟨?_, ?_⟩, ?_⟩
      · intro q m hlast
        obtain ⟨⟨w, hq, hlen, hones⟩, htext⟩ := hk.aligned q m hlast
        rw [hs] at htext hlen
        rw [hp] at hq
        refine ⟨⟨w ++ [x], by rw [hq]; exact (List.append_cons w x p), ?_, ?_⟩, (List.suffix_cons c s).trans htext⟩
        · rw [hlen, List.length_cons, List.length_append, List.length_singleton, Nat.add_assoc, Nat.add_comm 1]
        · intro y hy
          rcases List.mem_append.mp hy with hy | hy
          · exact hones y hy
          · rw [List.mem_singleton.mp hy]
            exact hx
      · intro y d hy hd
        refine hk.apart y d hy ?_
        rcases hd with hd | hd
        · exact .inl (by rw [hs]; exact List.mem_cons_of_mem c hd)
        · exact .inr hd
      · have hone : OfPattern fits star (c :: s) (x :: p) ↔ OfPattern fits star s p := by
          rw [of_one hx]
          exact and_iff_right hfits
        unfold Hope
        rw [← hs, ← hp] at hone
        exact or_congr hone.symm Iff.rfl
    next hfits =>
      split
      next hx =>
        refine ⟨by rintro result ⟨⟩, fun b h => ?_⟩
        cases h
        refine ⟨⟨?_, ?_⟩, ?_⟩
        · intro q m h
          cases h
          exact ⟨⟨[], rfl, (Nat.zero_add _).symm, fun y hy => by cases hy⟩, List.suffix_rfl⟩
        · intro y d hy hd
          refine hk.apart y d hy (.inl ?_)
          rw [hs]
          rcases hd with hd | ⟨q, m, h, hd⟩
          · exact hd
          · cases h
            exact hd
        · rw [hope_star hk hs hp hx]
          constructor
          · rintro (h | ⟨q, m, hm, t, ht, -, hq⟩)
            · exact ⟨c :: s, List.suffix_rfl, h⟩
            · cases hm
              exact ⟨t, ht, hq⟩
          · rintro ⟨t, ht, hq⟩
            rcases eq_or_ne t (c :: s) with rfl | hne
            · exact .inl hq
            · exact .inr ⟨p, c :: s, rfl, t, ht, lt_of_le_of_ne ht.length_le fun heq => hne (ht.eq_of_length heq), hq⟩
      next hx =>
        refine hmismatch (by rw [hs]; exact List.cons_ne_nil _ _) fun h => ?_
        rw [hs, hp, of_one (Bool.eq_false_iff.mpr hx)] at h
        exact hfits h.1
  next c s hs hp =>
    refine hmismatch (by rw [hs]; exact List.cons_ne_nil _ _) fun h => ?_
    rw [hs, hp] at h
    cases h

theorem run_hope (a : Scan α β) (hk : Kept fits star a) : a.run fits star = true ↔ Hope fits star a := by
  induction a using Scan.run.induct fits star with
  | case1 a result h =>
    rw [Scan.run, h]
    exact (step_kept hk).1 result h
  | case2 a b h ih =>
    obtain ⟨hb, hsame⟩ := (step_kept hk).2 b h
    rw [Scan.run, h, ← hsame]
    exact ih hb

end WildcardLemmas

open WildcardLemmas

/-- The loop finds out whether a text is of the pattern. -/
theorem wildcard_iff {s : List α} {p : List β} (happart : ∀ x c, star x = true → c ∈ s → fits x c = false) :
    wildcard fits star s p = true ↔ OfPattern fits star s p := by
  have hkept : Kept fits star ⟨s, p, none, by simp⟩ := by
    refine ⟨by rintro q m ⟨⟩, fun x c hx hc => ?_⟩
    rcases hc with hc | ⟨q, m, h, -⟩
    · exact happart x c hx hc
    · cases h
  rw [wildcard, run_hope _ hkept]
  constructor
  · rintro (h | ⟨q, m, hlast, -⟩)
    · exact h
    · cases hlast
  · exact .inl

end OmtClient.Lib
