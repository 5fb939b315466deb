import Mathlib.Data.Prod.Lex
import OmtClient.Common.Json
import OmtClient.Common.NfcTables
import OmtClient.Lib.Combining
import OmtClient.Lib.Search

/-!
# Normalisation

`crates/omt-common/src/nfc.rs`: decomposition into a vector with a limit, the insertion sort of
its marks and composition, both in place.

1. `ordered_eq`: the loops of the sort are the insertion sort of `Combining`.
2. `composed_composes`: the loop of the composition is a composition of a settled text.
-/

namespace OmtClient.Common.Nfc

open OmtClient.Lib OmtClient.Lib.Combining

def sBase : ℕ := 0xAC00
def lBase : ℕ := 0x1100
def vBase : ℕ := 0x1161
def tBase : ℕ := 0x11A7
def lCount : ℕ := 19
def vCount : ℕ := 21
def tCount : ℕ := 28
def nCount : ℕ := vCount * tCount
def sCount : ℕ := lCount * nCount

@[irreducible] def combiningClass (cp : ℕ) : ℕ := (binarySearchByKey Prod.fst ccc cp).elim 0 fun i => (ccc.getD i (0, 0)).2

/-- The pair of an entry of `COMP`. -/
def pairOf (e : ℕ × ℕ × ℕ) : ℕ ×ₗ ℕ := toLex (e.1, e.2.1)

@[irreducible] def composePair (a b : ℕ) : Option ℕ :=
  if (lBase ≤ a ∧ a < lBase + lCount) ∧ vBase ≤ b ∧ b < vBase + vCount then
    some (sBase + ((a - lBase) * vCount + (b - vBase)) * tCount)
  else if (sBase ≤ a ∧ a < sBase + sCount) ∧ (a - sBase) % tCount = 0 ∧ tBase < b ∧ b < tBase + tCount then
    some (a + (b - tBase))
  else (binarySearchByKey pairOf comp (toLex (a, b))).map fun i => (comp.getD i (0, 0, 0)).2.2

/-! ## Decomposition -/

def push (limit : ℕ) (out : List ℕ) (c : ℕ) : Option (List ℕ) := if limit ≤ out.length then none else some (out ++ [c])

def isSyllable (cp : ℕ) : Bool := sBase ≤ cp && cp < sBase + sCount

/-- `decompose`, which may go `left` levels deep: at depth 9 it fails. -/
def decompose (limit : ℕ) : ℕ → List ℕ → ℕ → Option (List ℕ)
  | 0, _, _ => none
  | left + 1, out, cp =>
    if isSyllable cp then
      let index := cp - sBase
      ((push limit out (lBase + index / nCount)).bind (push limit · (vBase + index % nCount / tCount))).bind fun out =>
        if index % tCount = 0 then some out else push limit out (tBase + index % tCount)
    else
      match binarySearchByKey Prod.fst decomp cp with
      | none => push limit out cp
      | some i =>
        let e := decomp.getD i (0, 0, 0)
        (decompose limit left out e.2.1).bind fun out => if e.2.2 = 0 then some out else decompose limit left out e.2.2

/-! ## Canonical ordering -/

/-- The inner loop: marks of higher classes move up. The vector, and where the mark goes. -/
def shift (c : ℕ) : ℕ → List ℕ → List ℕ × ℕ
  | 0, v => (v, 0)
  | j + 1, v =>
    let prev := combiningClass (v.getD j 0)
    if prev = 0 ∨ prev ≤ c then (v, j + 1) else shift c j (v.set (j + 1) (v.getD j 0))

def orderStep (v : List ℕ) (k : ℕ) : List ℕ :=
  let c := combiningClass (v.getD k 0)
  if c = 0 then v
  else
    let cp := v.getD k 0
    let (v, j) := shift c k v
    v.set j cp

def ordered (v : List ℕ) : List ℕ := (List.range' 1 (v.length - 1)).foldl orderStep v

/-! ## Canonical composition -/

structure Composing where
  v : List ℕ
  starter : Option ℕ
  out : ℕ
  lastClass : Option ℕ
  deriving DecidableEq

/-- The composite of the last starter with `cp`, and where it goes. -/
def Composing.composite (st : Composing) (cp : ℕ) : Option (ℕ × ℕ) :=
  st.starter.bind fun s =>
    let blocked := st.lastClass.any fun last => last = 0 || combiningClass cp ≤ last
    if blocked then none else (composePair (st.v.getD s 0) cp).map fun p => (s, p)

def composeStep (st : Composing) (k : ℕ) : Composing :=
  let cp := st.v.getD k 0
  let c := combiningClass cp
  match st.composite cp with
  | some (s, p) => { st with v := st.v.set s p }
  | none =>
    { v := st.v.set st.out cp
      starter := if c = 0 then some st.out else st.starter
      out := st.out + 1
      lastClass := if c = 0 then none else some c }

def composed (v : List ℕ) : List ℕ :=
  let st := (List.range' 0 v.length).foldl composeStep ⟨v, none, 0, none⟩
  st.v.take st.out

/-! ## The module's functions -/

/-- `checked_mul` of `usize`. -/
def checkedMul (a b : ℕ) : Option ℕ := if a * b < 2 ^ 64 then some (a * b) else none

/-- `checked_add` of `usize`. -/
def checkedAdd (a b : ℕ) : Option ℕ := if a + b < 2 ^ 64 then some (a + b) else none

def toNfc (s : String) : Option (List ℕ) :=
  ((checkedMul (utf8 s).length 4).bind (checkedAdd · 16)).bind fun limit =>
    (s.toList.foldlM (fun v c => decompose limit 9 v c.toNat) []).map fun v => composed (ordered v)

def normalize (s : String) : Option String := (toNfc s).bind fun v => (v.mapM Json.charFromU32).map String.ofList

def isNormalized (s : String) (limit : ℕ) : Bool :=
  if limit < (utf8 s).length then false else (toNfc s).any fun v => s.toList.map Char.toNat == v

/-! ## The loops -/

namespace NfcLemmas

variable {w rest : List ℕ} {cp c k : ℕ}

theorem getD_at (w : List ℕ) (x : ℕ) (rest : List ℕ) : (w ++ x :: rest).getD w.length 0 = x := by
  rw [List.getD_eq_getElem?_getD, List.getElem?_append_right (Nat.le_refl _), Nat.sub_self]
  rfl

theorem set_at (w : List ℕ) (x y : ℕ) (rest : List ℕ) : (w ++ x :: rest).set w.length y = w ++ y :: rest := by
  rw [List.set_append_right _ _ (Nat.le_refl _), Nat.sub_self]
  rfl

theorem length_place (w : List ℕ) (c : ℕ) : (place combiningClass w c).length = w.length + 1 := by
  by_cases hc : combiningClass c = 0
  · rw [CombiningLemmas.place_starter hc, List.length_append]
    rfl
  induction w using List.reverseRecOn with
  | nil =>
    rw [CombiningLemmas.place_nil]
    rfl
  | append_singleton w p ih =>
    rw [CombiningLemmas.place_mark hc]
    split
    · rw [List.length_append]
      rfl
    · rw [List.length_append, ih, List.length_append]
      rfl

theorem length_order (l : List ℕ) : (order combiningClass l).length = l.length := by
  induction l using List.reverseRecOn with
  | nil => rfl
  | append_singleton l c ih => rw [CombiningLemmas.order_concat, length_place, ih, List.length_append]; rfl

/-- The inner loop puts a mark where the insertion sort does. -/
theorem shift_place (hc : combiningClass cp ≠ 0) (w : List ℕ) (x : ℕ) (rest : List ℕ) :
    (shift (combiningClass cp) w.length (w ++ x :: rest)).1.set (shift (combiningClass cp) w.length (w ++ x :: rest)).2 cp =
      place combiningClass w cp ++ rest := by
  induction w using List.reverseRecOn generalizing x rest with
  | nil =>
    rw [CombiningLemmas.place_nil]
    rfl
  | append_singleton w p ih =>
    have hget : (w ++ [p] ++ x :: rest).getD w.length 0 = p := by
      rw [List.append_assoc]
      exact getD_at w p (x :: rest)
    rw [List.length_append, List.length_singleton, shift, hget, CombiningLemmas.place_mark hc]
    split
    · have hset := set_at (w ++ [p]) x cp rest
      rw [List.length_append, List.length_singleton] at hset
      rw [hset]
      simp only [List.append_assoc, List.cons_append, List.nil_append]
    · have hset := set_at (w ++ [p]) x p rest
      rw [List.length_append, List.length_singleton] at hset
      rw [hset, List.append_assoc, List.singleton_append, ih, List.append_assoc]
      rfl

theorem orderStep_place (w : List ℕ) (cp : ℕ) (rest : List ℕ) :
    orderStep (w ++ cp :: rest) w.length = place combiningClass w cp ++ rest := by
  unfold orderStep
  rw [getD_at]
  dsimp only
  split
  next hc =>
    rw [CombiningLemmas.place_starter hc, List.append_assoc]
    rfl
  next hc => exact shift_place hc w cp rest

theorem orderSteps (l rest : List ℕ) :
    (List.range' l.length rest.length).foldl orderStep (order combiningClass l ++ rest) = order combiningClass (l ++ rest) := by
  induction rest generalizing l with
  | nil => rw [List.append_nil, List.append_nil]; rfl
  | cons cp rest ih =>
    have hstep := orderStep_place (order combiningClass l) cp rest
    rw [length_order] at hstep
    rw [List.length_cons, List.range'_succ, List.foldl_cons, hstep, ← CombiningLemmas.order_concat]
    have hrest := ih (l ++ [cp])
    rw [List.length_append, List.length_singleton, List.append_assoc, List.singleton_append] at hrest
    exact hrest

end NfcLemmas

open NfcLemmas

/-- The sort in place is the insertion sort of every run of marks. -/
theorem ordered_eq (v : List ℕ) : ordered v = order combiningClass v := by
  cases v with
  | nil => rfl
  | cons x rest =>
    have h := orderSteps [x] rest
    rw [show order combiningClass [x] = [x] from CombiningLemmas.place_nil] at h
    exact h

namespace NfcLemmas

variable {w cs marks front : List ℕ} {c cp k s : ℕ} {st : Composing}

/-- Two characters have a composite. -/
def Pairs (a b p : ℕ) : Prop := composePair a b = some p

/-- What the loop knows of the last starter in what it has kept, `w`, before the characters
`cs`: where it stands, the class of the last mark after it, and that no mark after it is of a
higher class than the last or than a mark that follows at once. -/
structure AtStarter (w cs : List ℕ) (lastClass : Option ℕ) (s : ℕ) : Prop where
  found : ∃ front L marks, LastStarter combiningClass w front L marks ∧ front.length = s ∧
    lastClass = marks.getLast?.map combiningClass ∧
    (∀ b ∈ marks, ∀ l ∈ marks.getLast?, combiningClass b ≤ combiningClass l) ∧
    ∀ b ∈ marks, ∀ c ∈ cs.head?, combiningClass c = 0 ∨ combiningClass b ≤ combiningClass c

/-- The state between two passes: kept characters, then ones that are overwritten later, then
those ahead. -/
structure Between (w cs : List ℕ) (st : Composing) (k : ℕ) : Prop where
  vector : ∃ junk, st.v = w ++ (junk ++ cs) ∧ w.length + junk.length = k
  out_eq : st.out = w.length
  none_starts : st.starter = none → ∀ b ∈ w, combiningClass b ≠ 0
  starts : ∀ s, st.starter = some s → AtStarter w cs st.lastClass s

/-- The class of the last mark says whether any mark is in the way. -/
theorem blocked_iff {c : ℕ} (hmarks : ∀ b ∈ marks, combiningClass b ≠ 0)
    (hlast : ∀ b ∈ marks, ∀ l ∈ marks.getLast?, combiningClass b ≤ combiningClass l) :
    ((marks.getLast?.map combiningClass).any fun last => last = 0 || combiningClass c ≤ last) = true ↔
      Blocked combiningClass marks c := by
  cases hl : marks.getLast? with
  | none =>
    rw [List.getLast?_eq_none_iff] at hl
    subst hl
    constructor
    · rintro ⟨⟩
    · rintro ⟨b, hb, -⟩
      cases hb
  | some l =>
    have hmem := List.mem_of_getLast? hl
    constructor
    · intro h
      refine ⟨l, hmem, ?_⟩
      simpa using h
    · rintro ⟨b, hb, hzero | hle⟩
      · exact absurd hzero (hmarks b hb)
      · have hb' := hlast b hb l hl
        simpa using .inr (Nat.le_trans hle hb')

/-- A state before a pass in which something is kept, and the one after it. -/
theorem between_kept (h : Between w (c :: cs) st k) (hsettled : Settled combiningClass (c :: cs)) :
    Between (w ++ [c]) cs
      { v := st.v.set st.out c
        starter := if combiningClass c = 0 then some st.out else st.starter
        out := st.out + 1
        lastClass := if combiningClass c = 0 then none else some (combiningClass c) } (k + 1) := by
  obtain ⟨junk, hv, hk⟩ := h.vector
  have hnext : ∀ d ∈ cs.head?, combiningClass d = 0 ∨ combiningClass c ≤ combiningClass d := by
    intro d hd
    cases cs with
    | nil => cases hd
    | cons e cs =>
      cases hd
      exact (List.isChain_cons_cons.mp hsettled).1
  refine ⟨?_, ?_, ?_, ?_⟩
  · obtain ⟨y, junk', hjunk⟩ : ∃ y junk', junk ++ [c] = y :: junk' := by
      cases junk with
      | nil => exact ⟨c, [], rfl⟩
      | cons y junk => exact ⟨y, junk ++ [c], rfl⟩
    have hlen := congrArg List.length hjunk
    rw [List.length_append, List.length_singleton, List.length_cons] at hlen
    refine ⟨junk', ?_, ?_⟩
    · have hshape : w ++ (junk ++ c :: cs) = w ++ y :: (junk' ++ cs) := by
        rw [← List.cons_append, ← hjunk, List.append_assoc]
        rfl
      show st.v.set st.out c = _
      rw [hv, hshape, h.out_eq, set_at, List.append_assoc]
      rfl
    · rw [List.length_append, List.length_singleton]
      omega
  · show st.out + 1 = _
    rw [h.out_eq, List.length_append]
    rfl
  · intro hnone b hb
    dsimp only at hnone
    split at hnone
    · cases hnone
    next hc =>
      rcases List.mem_append.mp hb with hb | hb
      · exact h.none_starts hnone b hb
      · cases List.mem_singleton.mp hb
        exact hc
  · intro s hs
    dsimp only at hs ⊢
    split at hs
    next hc =>
      cases hs
      refine ⟨w, c, [], ⟨rfl, hc, ?_⟩, h.out_eq.symm, if_pos hc, ?_, ?_⟩
      · rintro b ⟨⟩
      · rintro b ⟨⟩
      · rintro b ⟨⟩
    next hc =>
      obtain ⟨front, L, marks, hstarter, hfront, -, -, hahead⟩ := (h.starts s hs).found
      refine ⟨front, L, marks ++ [c], ⟨?_, hstarter.starter, ?_⟩, hfront, ?_, ?_, ?_⟩
      · rw [hstarter.split, List.append_assoc]
        rfl
      · intro b hb
        rcases List.mem_append.mp hb with hb | hb
        · exact hstarter.marks_only b hb
        · cases List.mem_singleton.mp hb
          exact hc
      · rw [if_neg hc, List.getLast?_concat]
        rfl
      · intro b hb l hl
        rw [List.getLast?_concat] at hl
        cases hl
        rcases List.mem_append.mp hb with hb | hb
        · exact (hahead b hb c rfl).resolve_left hc
        · cases List.mem_singleton.mp hb
          exact Nat.le_refl _
      · intro b hb d hd
        rcases List.mem_append.mp hb with hb | hb
        · refine (hnext d hd).imp_right fun hle => ?_
          exact Nat.le_trans ((hahead b hb c rfl).resolve_left hc) hle
        · cases List.mem_singleton.mp hb
          exact hnext d hd

theorem between_get (h : Between w (c :: cs) st k) : st.v.getD k 0 = c := by
  obtain ⟨junk, hv, rfl⟩ := h.vector
  rw [hv, ← List.append_assoc, ← List.length_append]
  exact getD_at (w ++ junk) c cs

/-- The starter that the loop knows is the last one, and it is read where it stands. -/
theorem between_starter (h : Between w cs st k) (hs : st.starter = some s) {L : ℕ}
    (hlast : LastStarter combiningClass w front L marks) :
    front.length = s ∧ st.v.getD s 0 = L ∧ ∀ c,
      (st.lastClass.any fun last => last = 0 || combiningClass c ≤ last) = true ↔ Blocked combiningClass marks c := by
  obtain ⟨front', L', marks', hlast', hfront, hclass, hmax, -⟩ := (h.starts s hs).found
  obtain ⟨rfl, rfl, rfl⟩ := CombiningLemmas.lastStarter_unique hlast hlast'
  obtain ⟨junk, hv, -⟩ := h.vector
  refine ⟨hfront, ?_, ?_⟩
  · rw [hv, hlast.split, List.append_assoc, ← hfront]
    exact getD_at front L (marks ++ (junk ++ cs))
  · intro c
    rw [hclass]
    exact blocked_iff hlast.marks_only hmax

/-- A pass that finds a composite. -/
theorem between_joined (hstarter : ∀ a b p, composePair a b = some p → combiningClass p = 0)
    (h : Between w (c :: cs) st k) (hsettled : Settled combiningClass (c :: cs)) {p : ℕ}
    (hcomposite : st.composite c = some (s, p)) :
    ∃ front L marks, LastStarter combiningClass w front L marks ∧ ¬ Blocked combiningClass marks c ∧
      composePair L c = some p ∧ Between (front ++ p :: marks) cs { st with v := st.v.set s p } (k + 1) := by
  unfold Composing.composite at hcomposite
  obtain ⟨s', hs, hrest⟩ := Option.bind_eq_some_iff.mp hcomposite
  obtain ⟨front, L, marks, hlast, hfront, hclass, hmax, -⟩ := (h.starts s' hs).found
  obtain ⟨-, hget, hblocked⟩ := between_starter h hs hlast
  dsimp only at hrest
  split at hrest
  · cases hrest
  next hfree =>
    obtain ⟨p', hpair, hsame⟩ := Option.map_eq_some_iff.mp hrest
    cases hsame
    rw [hget] at hpair
    have hfree' : ¬ Blocked combiningClass marks c := fun hb => hfree ((hblocked c).mpr hb)
    obtain ⟨junk, hv, hk⟩ := h.vector
    have hlow := CombiningLemmas.unblocked hfree'
    refine ⟨front, L, marks, hlast, hfree', hpair, ⟨junk ++ [c], ?_, ?_⟩, ?_, ?_, ?_⟩
    · show st.v.set s p = _
      rw [hv, hlast.split, List.append_assoc, ← hfront, List.cons_append, set_at]
      simp only [List.append_assoc, List.cons_append, List.nil_append]
    · rw [hlast.split] at hk
      simp only [List.length_append, List.length_cons, List.length_nil] at hk ⊢
      omega
    · show st.out = _
      rw [h.out_eq, hlast.split, List.length_append, List.length_append, List.length_cons, List.length_cons]
    · intro hnone
      cases hs.symm.trans hnone
    · intro s'' hs''
      cases hs.symm.trans hs''
      refine ⟨front, p, marks, ⟨rfl, hstarter L c p hpair, hlast.marks_only⟩, hfront, hclass, hmax, ?_⟩
      intro b hb d hd
      cases cs with
      | nil => cases hd
      | cons e cs =>
        cases hd
        refine (List.isChain_cons_cons.mp hsettled).1.imp_right fun hle => ?_
        exact Nat.le_trans (Nat.le_of_lt (hlow b hb).2) hle

/-- A pass that finds none. -/
theorem kept_of_none (h : Between w (c :: cs) st k) (hcomposite : st.composite c = none) (front : List ℕ) (L : ℕ)
    (marks : List ℕ) (hlast : LastStarter combiningClass w front L marks) :
    Blocked combiningClass marks c ∨ ∀ p, ¬ Pairs L c p := by
  unfold Composing.composite at hcomposite
  cases hs : st.starter with
  | none =>
    refine absurd hlast.starter (h.none_starts hs L ?_)
    rw [hlast.split]
    exact List.mem_append_right _ List.mem_cons_self
  | some s =>
    obtain ⟨-, hget, hblocked⟩ := between_starter h hs hlast
    rw [hs, Option.bind_some, hget] at hcomposite
    dsimp only at hcomposite
    split at hcomposite
    next hb => exact .inl ((hblocked c).mp hb)
    · refine .inr fun p hp => ?_
      cases (Option.map_eq_none_iff.mp hcomposite).symm.trans hp

theorem composing (hstarter : ∀ a b p, composePair a b = some p → combiningClass p = 0) (h : Between w cs st k)
    (hsettled : Settled combiningClass cs) :
    Composes combiningClass Pairs w cs
      (((List.range' k cs.length).foldl composeStep st).v.take ((List.range' k cs.length).foldl composeStep st).out) := by
  induction cs generalizing w st k with
  | nil =>
    obtain ⟨junk, hv, -⟩ := h.vector
    show Composes combiningClass Pairs w [] (st.v.take st.out)
    rw [hv, h.out_eq, List.take_left]
    exact .done
  | cons c cs ih =>
    have hrest : Settled combiningClass cs := List.IsChain.of_cons hsettled
    rw [List.length_cons, List.range'_succ, List.foldl_cons]
    cases hcomposite : st.composite c with
    | some r =>
      obtain ⟨s, p⟩ := r
      obtain ⟨front, L, marks, hlast, hfree, hpair, hnext⟩ := between_joined hstarter h hsettled hcomposite
      have hstep : composeStep st k = { st with v := st.v.set s p } := by
        unfold composeStep
        rw [between_get h]
        dsimp only
        rw [hcomposite]
      rw [hstep]
      exact .joined hlast hfree hpair (ih hnext hrest)
    | none =>
      have hnext := between_kept h hsettled
      have hstep : composeStep st k =
          { v := st.v.set st.out c
            starter := if combiningClass c = 0 then some st.out else st.starter
            out := st.out + 1
            lastClass := if combiningClass c = 0 then none else some (combiningClass c) } := by
        unfold composeStep
        rw [between_get h]
        dsimp only
        rw [hcomposite]
      rw [hstep]
      exact .kept (kept_of_none h hcomposite) (ih hnext hrest)

end NfcLemmas

/-- The loop over a settled text composes it. -/
theorem composed_composes (hstarter : ∀ a b p, composePair a b = some p → combiningClass p = 0) {v : List ℕ}
    (hsettled : Settled combiningClass v) : Composes combiningClass Pairs [] v (composed v) := by
  refine composing hstarter ⟨⟨[], rfl, rfl⟩, rfl, ?_, ?_⟩ hsettled
  · rintro - b ⟨⟩
  · rintro s ⟨⟩

end OmtClient.Common.Nfc
