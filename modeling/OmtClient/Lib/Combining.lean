import Mathlib.Data.List.Chain
import Mathlib.Data.List.Induction
import Mathlib.Logic.Relation

/-!
# Starters and marks

A text is a sequence of characters that have a class: a starter has class 0, a mark has another.
Marks of different classes may change places, marks of one class and starters may not. A text
that is settled has no two neighbours that ought to be exchanged; a starter may absorb a later
character that nothing between them blocks.

1. `reorders_iff`: exchanging neighbours until none ought to be leads to one text, which an
   insertion sort finds.
2. `composes_unique`: composition has one result.
3. `composes_equivalent`: taking the result of a composition apart again and settling it gives
   the text that was composed.
-/

namespace OmtClient.Lib.Combining

open Relation

variable {α : Type} (cls : α → Nat)

/-! ## Reordering -/

/-- Two neighbouring marks, the higher class first, change places. -/
inductive Exchange : List α → List α → Prop
  | mk (front : List α) (a b : α) (back : List α) (hmark : cls b ≠ 0) (hlt : cls b < cls a) :
      Exchange (front ++ a :: b :: back) (front ++ b :: a :: back)

/-- No two neighbours ought to be exchanged. -/
def Settled (l : List α) : Prop := l.IsChain fun a b => cls b = 0 ∨ cls a ≤ cls b

/-- What exchanging neighbours until none ought to be leads to. -/
def Reorders (l w : List α) : Prop := ReflTransGen (Exchange cls) l w ∧ Settled cls w

/-- A mark moves to the front past marks of higher classes; the text is given from its end. -/
def placeBack (c : α) : List α → List α
  | [] => [c]
  | p :: rest => if cls p = 0 ∨ cls p ≤ cls c then c :: p :: rest else p :: placeBack c rest

/-- One more character after a settled text. -/
def place (w : List α) (c : α) : List α := if cls c = 0 then w ++ [c] else (placeBack cls c w.reverse).reverse

/-- The insertion sort of every run of marks. -/
def order (l : List α) : List α := l.foldl (place cls) []

namespace CombiningLemmas

variable {cls} {u v w : List α} {a b c p : α}

theorem place_starter (h : cls c = 0) : place cls w c = w ++ [c] := if_pos h

theorem place_nil : place cls [] c = [c] := by
  unfold place
  split
  · rfl
  · rfl

theorem place_mark (h : cls c ≠ 0) : place cls (w ++ [p]) c =
    if cls p = 0 ∨ cls p ≤ cls c then w ++ [p] ++ [c] else place cls w c ++ [p] := by
  unfold place
  rw [if_neg h, if_neg h, List.reverse_append, List.reverse_singleton, List.singleton_append, placeBack]
  split
  · rw [List.reverse_cons, List.reverse_cons, List.reverse_reverse]
  · rw [List.reverse_cons]

theorem order_concat (l : List α) (c : α) : order cls (l ++ [c]) = place cls (order cls l) c := List.foldl_concat ..

theorem exchange_append (h : Exchange cls u v) (more : List α) : Exchange cls (u ++ more) (v ++ more) := by
  obtain ⟨front, a, b, back, hmark, hlt⟩ := h
  rw [List.append_assoc, List.append_assoc]
  exact .mk front a b (back ++ more) hmark hlt

theorem perm_reach (h : ReflTransGen (Exchange cls) u v) : u.Perm v := by
  induction h with
  | refl => exact List.Perm.refl u
  | tail _ hstep ih =>
    obtain ⟨front, a, b, back, -, -⟩ := hstep
    exact ih.trans (List.Perm.append_left front (List.Perm.swap b a back))

theorem reach_append (h : ReflTransGen (Exchange cls) u v) (more : List α) :
    ReflTransGen (Exchange cls) (u ++ more) (v ++ more) := by
  induction h with
  | refl => exact .refl
  | tail _ hstep ih => exact ih.tail (exchange_append hstep more)

/-- A mark reaches its place by exchanges. -/
theorem place_reached (w : List α) (c : α) : ReflTransGen (Exchange cls) (w ++ [c]) (place cls w c) := by
  by_cases hc : cls c = 0
  · rw [place_starter hc]
  induction w using List.reverseRecOn with
  | nil =>
    rw [place_nil]
    exact .refl
  | append_singleton w p ih =>
    rw [place_mark hc]
    split
    · exact .refl
    next hhigh =>
      obtain ⟨-, hlt⟩ := not_or.mp hhigh
      have hfirst : Exchange cls (w ++ [p] ++ [c]) (w ++ [c] ++ [p]) := by
        rw [List.append_assoc, List.append_assoc]
        exact .mk w p c [] hc (Nat.lt_of_not_le hlt)
      exact .head hfirst (reach_append ih [p])

theorem order_reached (l : List α) : ReflTransGen (Exchange cls) l (order cls l) := by
  induction l using List.reverseRecOn with
  | nil => exact .refl
  | append_singleton l c ih =>
    rw [order_concat]
    exact (reach_append ih [c]).trans (place_reached _ c)

theorem place_last (w : List α) (c : α) : ∀ x ∈ (place cls w c).getLast?, x = c ∨ x ∈ w.getLast? := by
  intro x hx
  by_cases hc : cls c = 0
  · rw [place_starter hc, List.getLast?_concat] at hx
    exact .inl (Option.some.inj hx).symm
  induction w using List.reverseRecOn with
  | nil =>
    rw [place_nil] at hx
    exact .inl (Option.some.inj hx).symm
  | append_singleton w p _ =>
    rw [place_mark hc] at hx
    split at hx
    · rw [List.getLast?_concat] at hx
      exact .inl (Option.some.inj hx).symm
    · rw [List.getLast?_concat] at hx
      rw [List.getLast?_concat]
      exact .inr hx

theorem settled_concat : Settled cls (w ++ [p]) ↔ Settled cls w ∧ ∀ x ∈ w.getLast?, cls p = 0 ∨ cls x ≤ cls p := by
  unfold Settled
  rw [List.isChain_append]
  constructor
  · rintro ⟨hw, -, hlast⟩
    exact ⟨hw, fun x hx => hlast x hx p rfl⟩
  · rintro ⟨hw, hlast⟩
    refine ⟨hw, List.IsChain.singleton p, fun x hx y hy => ?_⟩
    cases hy
    exact hlast x hx

theorem place_settled (h : Settled cls w) (c : α) : Settled cls (place cls w c) := by
  by_cases hc : cls c = 0
  · rw [place_starter hc]
    exact (settled_concat).mpr ⟨h, fun x _ => .inl hc⟩
  induction w using List.reverseRecOn with
  | nil =>
    rw [place_nil]
    exact List.IsChain.singleton c
  | append_singleton w p ih =>
    obtain ⟨hw, hlast⟩ := (settled_concat).mp h
    rw [place_mark hc]
    split
    next hlow =>
      refine (settled_concat).mpr ⟨h, fun x hx => ?_⟩
      rw [List.getLast?_concat] at hx
      cases hx
      rcases hlow with hp | hle
      · exact .inr (hp ▸ Nat.zero_le _)
      · exact .inr hle
    next hhigh =>
      obtain ⟨hp, hlt⟩ := not_or.mp hhigh
      refine (settled_concat).mpr ⟨ih hw, fun x hx => ?_⟩
      rcases place_last w c x hx with rfl | hx
      · exact .inr (Nat.le_of_lt (Nat.lt_of_not_le hlt))
      · exact hlast x hx

theorem order_settled (l : List α) : Settled cls (order cls l) := by
  induction l using List.reverseRecOn with
  | nil => exact List.IsChain.nil
  | append_singleton l c ih =>
    rw [order_concat]
    exact place_settled ih c

/-- Marks of different classes find their places in either order. -/
theorem place_comm (w : List α) (hmark : cls b ≠ 0) (hlt : cls b < cls a) :
    place cls (place cls w a) b = place cls (place cls w b) a := by
  have ha : cls a ≠ 0 := Nat.ne_of_gt (Nat.lt_of_le_of_lt (Nat.zero_le _) hlt)
  have hswap : ¬ (cls a = 0 ∨ cls a ≤ cls b) := not_or.mpr ⟨ha, Nat.not_le.mpr hlt⟩
  have hstay : cls b = 0 ∨ cls b ≤ cls a := .inr (Nat.le_of_lt hlt)
  induction w using List.reverseRecOn with
  | nil =>
    rw [place_nil, place_nil, ← List.nil_append [a], place_mark hmark, if_neg hswap, place_nil, ← List.nil_append [b],
      place_mark ha, if_pos hstay]
  | append_singleton w p ih =>
    rw [place_mark ha, place_mark hmark]
    by_cases hb : cls p = 0 ∨ cls p ≤ cls b
    · have ha' : cls p = 0 ∨ cls p ≤ cls a := hb.imp_right fun h => Nat.le_trans h (Nat.le_of_lt hlt)
      rw [if_pos hb, if_pos ha', place_mark hmark, if_neg hswap, place_mark hmark, if_pos hb, place_mark ha, if_pos hstay]
    · rw [if_neg hb]
      by_cases ha' : cls p = 0 ∨ cls p ≤ cls a
      · rw [if_pos ha', place_mark hmark, if_neg hswap, place_mark hmark, if_neg hb, place_mark ha, if_pos ha']
      · rw [if_neg ha', place_mark hmark, if_neg hb, place_mark ha, if_neg ha', ih]

theorem order_append (l more : List α) : order cls (l ++ more) = more.foldl (place cls) (order cls l) := List.foldl_append ..

theorem order_exchange (h : Exchange cls u v) : order cls u = order cls v := by
  obtain ⟨front, a, b, back, hmark, hlt⟩ := h
  rw [order_append, order_append, List.foldl_cons, List.foldl_cons, List.foldl_cons, List.foldl_cons,
    place_comm _ hmark hlt]

theorem order_reach (h : ReflTransGen (Exchange cls) u v) : order cls u = order cls v := by
  induction h with
  | refl => rfl
  | tail _ hstep ih => exact ih.trans (order_exchange hstep)

theorem order_of_settled (h : Settled cls w) : order cls w = w := by
  induction w using List.reverseRecOn with
  | nil => rfl
  | append_singleton w c ih =>
    obtain ⟨hw, hlast⟩ := (settled_concat).mp h
    rw [order_concat, ih hw]
    by_cases hc : cls c = 0
    · exact place_starter hc
    · cases w using List.reverseRecOn with
      | nil => exact place_nil
      | append_singleton w p =>
        rw [place_mark hc, if_pos]
        refine .inr ((hlast p ?_).resolve_left hc)
        rw [List.getLast?_concat]
        exact rfl

end CombiningLemmas

open CombiningLemmas

/-- The one text that exchanges lead to. -/
theorem reorders_iff {l w : List α} : Reorders cls l w ↔ w = order cls l := by
  constructor
  · rintro ⟨hreach, hsettled⟩
    rw [order_reach hreach, order_of_settled hsettled]
  · rintro rfl
    exact ⟨order_reached l, order_settled l⟩

/-! ## Composition -/

section Composition

variable (pair : α → α → α → Prop)

/-- What stands between a starter and `c` keeps them apart. -/
def Blocked (marks : List α) (c : α) : Prop := ∃ b ∈ marks, cls b = 0 ∨ cls c ≤ cls b

/-- The last starter of a text, with what stands before and after it. -/
structure LastStarter (w front : List α) (s : α) (marks : List α) : Prop where
  split : w = front ++ s :: marks
  starter : cls s = 0
  marks_only : ∀ b ∈ marks, cls b ≠ 0

/-- A composition of what is ahead with what was passed: each character is absorbed by the
last starter before it where nothing blocks it and the two have a composite. -/
inductive Composes : List α → List α → List α → Prop
  | done {w : List α} : Composes w [] w
  | joined {w front marks cs out : List α} {s c p : α} (hlast : LastStarter cls w front s marks) (hfree : ¬ Blocked cls marks c)
      (hpair : pair s c p) (rest : Composes (front ++ p :: marks) cs out) : Composes w (c :: cs) out
  | kept {w cs out : List α} {c : α}
      (hkeep : ∀ front s marks, LastStarter cls w front s marks → Blocked cls marks c ∨ ∀ p, ¬ pair s c p)
      (rest : Composes (w ++ [c]) cs out) : Composes w (c :: cs) out

variable {cls pair}

namespace CombiningLemmas

theorem lastStarter_unique {w front front' marks marks' : List α} {s s' : α} (h : LastStarter cls w front s marks)
    (h' : LastStarter cls w front' s' marks') : front = front' ∧ s = s' ∧ marks = marks' := by
  rcases List.append_eq_append_iff.mp (h.split.symm.trans h'.split) with ⟨more, hfront, hrest⟩ | ⟨more, hfront, hrest⟩
  · cases more with
    | nil =>
      cases hrest
      exact ⟨by rw [hfront, List.append_nil], rfl, rfl⟩
    | cons x more =>
      obtain ⟨-, hmarks⟩ := List.cons.inj hrest
      exact absurd h'.starter (h.marks_only s' (by rw [hmarks]; simp))
  · cases more with
    | nil =>
      cases hrest
      exact ⟨by rw [hfront, List.append_nil], rfl, rfl⟩
    | cons x more =>
      obtain ⟨-, hmarks⟩ := List.cons.inj hrest
      exact absurd h.starter (h'.marks_only s (by rw [hmarks]; simp))

/-- A mark of a higher class moves to the front of marks of lower classes. -/
theorem move_past {c : α} {marks : List α} (hfree : ∀ b ∈ marks, cls b ≠ 0 ∧ cls b < cls c) (front back : List α) :
    ReflTransGen (Exchange cls) (front ++ c :: (marks ++ back)) (front ++ (marks ++ c :: back)) := by
  induction marks generalizing front with
  | nil => exact .refl
  | cons b marks ih =>
    obtain ⟨hmark, hlt⟩ := hfree b List.mem_cons_self
    have hrest := ih (fun x hx => hfree x (List.mem_cons_of_mem b hx)) (front ++ [b])
    rw [List.append_assoc, List.append_assoc] at hrest
    exact .head (.mk front c b (marks ++ back) hmark hlt) hrest

theorem unblocked {marks : List α} {c : α} (h : ¬ Blocked cls marks c) : ∀ b ∈ marks, cls b ≠ 0 ∧ cls b < cls c := by
  intro b hb
  exact ⟨fun hzero => h ⟨b, hb, .inl hzero⟩, Nat.lt_of_not_le fun hle => h ⟨b, hb, .inr hle⟩⟩

end CombiningLemmas

theorem composes_unique (hone : ∀ s c p p', pair s c p → pair s c p' → p = p') {w cs out out' : List α}
    (h : Composes cls pair w cs out) (h' : Composes cls pair w cs out') : out = out' := by
  induction h with
  | done =>
    cases h'
    rfl
  | joined hlast hfree hpair _ ih =>
    cases h' with
    | joined hlast' _ hpair' rest' =>
      obtain ⟨rfl, rfl, rfl⟩ := lastStarter_unique hlast hlast'
      cases hone _ _ _ _ hpair hpair'
      exact ih rest'
    | kept hkeep' _ =>
      rcases hkeep' _ _ _ hlast with hblocked | hnone
      · exact absurd hblocked hfree
      · exact absurd hpair (hnone _)
  | kept hkeep _ ih =>
    cases h' with
    | joined hlast' hfree' hpair' _ =>
      rcases hkeep _ _ _ hlast' with hblocked | hnone
      · exact absurd hblocked hfree'
      · exact absurd hpair' (hnone _)
    | kept _ rest' => exact ih rest'

/-- What a composition leaves: characters that were there, and composites. -/
theorem composes_mem {w cs out : List α} (h : Composes cls pair w cs out) :
    ∀ x ∈ out, x ∈ w ∨ x ∈ cs ∨ ∃ s c, pair s c x := by
  induction h with
  | done => exact fun x hx => .inl hx
  | joined hlast _ hpair _ ih =>
    intro x hx
    rcases ih x hx with hw | hcs | hcomposite
    · rcases List.mem_append.mp hw with hfront | hrest
      · exact .inl (by rw [hlast.split]; exact List.mem_append_left _ hfront)
      · rcases List.mem_cons.mp hrest with rfl | hmarks
        · exact .inr (.inr ⟨_, _, hpair⟩)
        · exact .inl (by rw [hlast.split]; exact List.mem_append_right _ (List.mem_cons_of_mem _ hmarks))
    · exact .inr (.inl (List.mem_cons_of_mem _ hcs))
    · exact .inr (.inr hcomposite)
  | kept _ _ ih =>
    intro x hx
    rcases ih x hx with hw | hcs | hcomposite
    · rcases List.mem_append.mp hw with hw | hc
      · exact .inl hw
      · exact .inr (.inl (List.mem_cons.mpr (.inl (List.mem_singleton.mp hc))))
    · exact .inr (.inl (List.mem_cons_of_mem _ hcs))
    · exact .inr (.inr hcomposite)

/-- Taking characters apart undoes a composition, up to the order of marks. -/
theorem composes_equivalent {D : α → List α} (hstarter : ∀ s c p, pair s c p → cls p = 0)
    (hjoin : ∀ s c p, pair s c p → D c = [c] → D p = D s ++ [c]) {w cs out : List α}
    (h : Composes cls pair w cs out) (hmarks : ∀ b ∈ w, cls b ≠ 0 → D b = [b]) (hahead : ∀ c ∈ cs, D c = [c]) :
    order cls (out.flatMap D) = order cls (w.flatMap D ++ cs) := by
  induction h with
  | done => rw [List.append_nil]
  | @joined w front marks cs out s c p hlast hfree hpair _ ih =>
    obtain ⟨rfl, -, hmarks'⟩ := hlast
    have hplain : ∀ b ∈ marks, D b = [b] := fun b hb =>
      hmarks b (List.mem_append_right _ (List.mem_cons_of_mem _ hb)) (hmarks' b hb)
    have hflat : marks.flatMap D = marks := by
      rw [List.flatMap_congr hplain, List.flatMap_singleton']
    rw [ih ?_ fun x hx => hahead x (List.mem_cons_of_mem _ hx)]
    · have hmove := order_reach (move_past (unblocked hfree) (front.flatMap D ++ D s) cs)
      rw [List.flatMap_append, List.flatMap_append, List.flatMap_cons, List.flatMap_cons, hflat,
        hjoin s c p hpair (hahead c List.mem_cons_self)]
      simp only [List.append_assoc, List.cons_append] at hmove ⊢
      exact hmove
    · intro b hb hne
      rcases List.mem_append.mp hb with hfront | hrest
      · exact hmarks b (List.mem_append_left _ hfront) hne
      · rcases List.mem_cons.mp hrest with rfl | hb
        · exact absurd (hstarter s c b hpair) hne
        · exact hplain b hb
  | @kept w cs out c _ _ ih =>
    rw [ih ?_ fun x hx => hahead x (List.mem_cons_of_mem _ hx), List.flatMap_append, List.flatMap_singleton,
      hahead c List.mem_cons_self, List.append_assoc, List.singleton_append]
    intro b hb hne
    rcases List.mem_append.mp hb with hw | hc
    · exact hmarks b hw hne
    · cases List.mem_singleton.mp hc
      exact hahead c List.mem_cons_self

end Composition

end OmtClient.Lib.Combining
