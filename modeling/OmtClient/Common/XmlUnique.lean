import OmtClient.Common.XmlLex

/-!
# The texts of unique elements

What `unique_texts` of `crates/omt-common/src/xml.rs` returns, against the elements of the
document. `elements` reads them off the events by nesting alone: an element with a start tag runs
to the end tag of its own level, and a self-closing one has nothing in it.

The loop of `unique_texts` counts start tags. A self-closing element passes by, so it is neither
returned nor refused as a second one; a CDATA section inside a captured element is dropped; and a
tag that is asked for twice is captured once.

1. `fold_inside`: while an element is captured, up to the end of its own level.
2. `fold_outside`: what is captured of a sequence of events.
3. `unique_iff`: when the texts are those of the only elements of their names.
4. `second_element_passes`: a document with two elements of a name that is read.
-/

namespace OmtClient.Common.Xml

open OmtClient.Lib

/-! ## Elements -/

/-- The events up to the end tag of the level that was entered, if it ends. -/
def untilEnd : Nat → List Event → Option (List Event)
  | _, [] => none
  | depth, ev :: es =>
    if ev.kind = .close then
      if depth = 0 then some [] else (untilEnd (depth - 1) es).map (ev :: ·)
    else if ev.kind = .start then (untilEnd (depth + 1) es).map (ev :: ·)
    else (untilEnd depth es).map (ev :: ·)

/-- What is between the tags of each element of a name that is written with both. -/
def framed (name : Bytes) : List Event → List (List Event)
  | [] => []
  | ev :: es =>
    if ev.kind = .start ∧ ev.name = name then (untilEnd 0 es).toList ++ framed name es else framed name es

/-- The self-closing elements of a name. -/
def selfClosing (name : Bytes) (es : List Event) : List Event :=
  es.filter fun ev => ev.kind = .empty ∧ ev.name = name

/-- What each element of a name holds. -/
def elements (name : Bytes) (es : List Event) : List (List Event) :=
  framed name es ++ (selfClosing name es).map fun _ => []

/-- The character data of an event. -/
def charData (ev : Event) : Bytes :=
  match ev.kind with
  | .text | .cdata => ev.content
  | .ref => (predefinedEntity ev.name).toList
  | _ => []

/-- Each tag has at most one element, whose character data is the text at the tag's place; no
element, no text. -/
def Unique (tags : List Bytes) (es : List Event) (out : List (Option Bytes)) : Prop :=
  out.length = tags.length ∧ ∀ i t, tags[i]? = some t →
    (elements t es).length ≤ 1 ∧ out.getD i none = (elements t es).head?.map (·.flatMap charData)

/-- What keeps the loop from passing anything by. -/
structure Counted (tags : List Bytes) (es : List Event) : Prop where
  /-- No tag is that of a self-closing element. -/
  selfClosing : ∀ t ∈ tags, selfClosing t es = []
  /-- No element of a tag holds a CDATA section with anything in it. -/
  cdata : ∀ t ∈ tags, ∀ inner ∈ framed t es, ∀ ev ∈ inner, ev.kind = .cdata → ev.content = []
  /-- No tag that has an element is asked for twice. -/
  once : ∀ (i j : Nat) (t : Bytes), i < j → tags[i]? = some t → tags[j]? = some t → framed t es = []

/-! ## Nesting -/

/-- Every end tag in the events is that of the innermost element that is open. -/
inductive Nests : List Bytes → List Event → Prop
  | nil {o} : Nests o []
  | opens {o ev es} (hkind : ev.kind = .start) (hrest : Nests (ev.name :: o) es) : Nests o (ev :: es)
  | closes {o ev es} (hkind : ev.kind = .close) (hrest : Nests o es) : Nests (ev.name :: o) (ev :: es)
  | other {o ev es} (hstart : ev.kind ≠ .start) (hclose : ev.kind ≠ .close) (hrest : Nests o es) : Nests o (ev :: es)

namespace UniqueLemmas

open XmlLemmas

theorem nests_of_lex {o o' : List Bytes} {x : Bytes} {es : List Event} (h : Lex o x es o') : Nests o es := by
  induction h with
  | nil => exact .nil
  | cons hpiece _ ih =>
    rcases piece_opened hpiece with ⟨hkind, rfl⟩ | ⟨hkind, rfl⟩ | ⟨hstart, hclose, rfl⟩
    · exact .opens hkind ih
    · exact .closes hkind ih
    · exact .other hstart hclose ih

theorem nests_cons {o : List Bytes} {ev : Event} {es : List Event} (h : Nests o (ev :: es)) :
    (ev.kind = .start ∧ Nests (ev.name :: o) es) ∨ (ev.kind = .close ∧ ∃ o', o = ev.name :: o' ∧ Nests o' es) ∨
      (ev.kind ≠ .start ∧ ev.kind ≠ .close ∧ Nests o es) := by
  cases h with
  | opens hkind hrest => exact .inl ⟨hkind, hrest⟩
  | closes hkind hrest => exact .inr (.inl ⟨hkind, _, rfl, hrest⟩)
  | other hstart hclose hrest => exact .inr (.inr ⟨hstart, hclose, hrest⟩)

/-- What the loop takes for the character data of an event. -/
def plainData (ev : Event) : Bytes := if ev.kind = .cdata then [] else charData ev

variable {tags : List Bytes} {es : List Event} {ev : Event} {c c' : Capture} {name t : Bytes}

/-- No event of the list starts an element of a tag. -/
def Free (tags : List Bytes) (es : List Event) : Prop := ∀ ev ∈ es, ev.kind = .start → ev.name ∉ tags

theorem free_cons (hev : ev.kind = .start → ev.name ∉ tags) (h : Free tags es) : Free tags (ev :: es) :=
  List.forall_mem_cons.mpr ⟨hev, h⟩

theorem findIdx?_none : tags.findIdx? (· == t) = none ↔ t ∉ tags := by
  rw [List.findIdx?_eq_none_iff]
  constructor
  · intro h hmem
    have hne := h t hmem
    rw [beq_self_eq_true] at hne
    cases hne
  · intro h x hx
    rw [beq_eq_false_iff_ne]
    rintro rfl
    exact h hx

theorem findIdx?_some {i : Nat} (h : tags.findIdx? (· == t) = some i) : tags[i]? = some t := by
  obtain ⟨hlt, heq, -⟩ := List.findIdx?_eq_some_iff_getElem.mp h
  rw [List.getElem?_eq_getElem hlt, beq_iff_eq.mp heq]

/-! ## The step of the loop -/

/-- A start tag. -/
theorem captureStep_start (hkind : ev.kind = .start) (h : captureStep tags c ev = .ok c') :
    (ev.name ∉ tags ∧ c' = { c with depth := c.depth + 1 }) ∨
    ∃ i, tags.findIdx? (· == ev.name) = some i ∧ c.out.getD i none = none ∧ c.capturing = none ∧
      c' = { c with depth := c.depth + 1, capturing := some (i, []) } := by
  unfold captureStep at h
  rw [hkind] at h
  dsimp only at h
  split at h
  · cases h
  · split at h
    · next i hi =>
      split at h
      · cases h
      · next hfree =>
        cases h
        rw [Bool.or_eq_true, not_or, Bool.not_eq_true, Bool.not_eq_true] at hfree
        exact .inr ⟨i, hi, Option.isSome_eq_false_iff.mp hfree.1 |> Option.isNone_iff_eq_none.mp,
          Option.isSome_eq_false_iff.mp hfree.2 |> Option.isNone_iff_eq_none.mp, rfl⟩
    · next hnone =>
      cases h
      exact .inl ⟨findIdx?_none.mp hnone, rfl⟩

/-- An event of another kind, while nothing is captured. -/
theorem captureStep_idle (hkind : ev.kind ≠ .start) (hidle : c.capturing = none) (h : captureStep tags c ev = .ok c') :
    c'.capturing = none ∧ c'.out = c.out := by
  unfold captureStep at h
  cases hk : ev.kind with
  | start => exact absurd hk hkind
  | doctype =>
    rw [hk] at h
    cases h
  | pi =>
    rw [hk] at h
    cases h
  | _ =>
    rw [hk] at h
    simp only [hidle] at h
    cases h
    first
    | exact ⟨rfl, rfl⟩
    | exact ⟨hidle, rfl⟩

/-- An event inside a captured element. -/
theorem captureStep_inside {i : Nat} {text : Bytes} (hstart : ev.kind ≠ .start) (hclose : ev.kind ≠ .close)
    (hcap : c.capturing = some (i, text)) (h : captureStep tags c ev = .ok c') :
    c' = { c with capturing := some (i, text ++ plainData ev) } := by
  have hsame : ({ c with capturing := some (i, text ++ []) } : Capture) = c := by
    rw [List.append_nil, ← hcap]
  unfold captureStep at h
  unfold plainData charData
  cases hk : ev.kind with
  | start => exact absurd hk hstart
  | close => exact absurd hk hclose
  | text =>
    rw [hk] at h
    simp only [hcap] at h
    split at h
    · cases h
    · cases h
      rfl
  | ref =>
    rw [hk] at h
    simp only [hcap] at h
    split at h
    · next b hb =>
      cases h
      rw [hb]
      rfl
    · cases h
  | doctype =>
    rw [hk] at h
    cases h
  | pi =>
    rw [hk] at h
    cases h
  | _ =>
    rw [hk] at h
    cases h
    exact hsame.symm

/-- An end tag, while an element is captured. -/
theorem captureStep_close {i : Nat} {text : Bytes} (hkind : ev.kind = .close) (hcap : c.capturing = some (i, text))
    (h : captureStep tags c ev = .ok c') :
    c' = if tags.getD i [] = ev.name then ⟨c.depth - 1, none, c.out.set i (some text)⟩
      else { c with depth := c.depth - 1 } := by
  unfold captureStep at h
  rw [hkind] at h
  simp only [hcap] at h
  split at h
  · next hname =>
    cases h
    rw [if_pos hname]
  · next hname =>
    cases h
    rw [if_neg hname, hcap]

/-! ## Runs of the loop -/

theorem foldlM_cons {s : Capture} (h : (ev :: es).foldlM (captureStep tags) c = .ok s) :
    ∃ c₁, captureStep tags c ev = .ok c₁ ∧ es.foldlM (captureStep tags) c₁ = .ok s := foldlM_cons_ok.mp h

/-- What is captured up to the end of the element's level, with the names that are open inside it. -/
theorem fold_inside (es : List Event) {i : Nat} {name : Bytes} {o : List Bytes} (hname : tags[i]? = some name) :
    ∀ (inside : List Bytes) (depth : Nat) (text : Bytes) (out : List (Option Bytes)) (s : Capture),
    (∀ n ∈ inside, n ∉ tags) → Nests (inside ++ name :: o) es →
    es.foldlM (captureStep tags) ⟨depth, some (i, text), out⟩ = .ok s →
    (∃ inner last rest depth', es = inner ++ last :: rest ∧ last.kind = .close ∧ untilEnd inside.length es = some inner ∧
      Free tags inner ∧ Nests o rest ∧
      rest.foldlM (captureStep tags) ⟨depth', none, out.set i (some (text ++ inner.flatMap plainData))⟩ = .ok s) ∨
    (untilEnd inside.length es = none ∧ Free tags es ∧ s.out = out) := by
  induction es with
  | nil =>
    intro inside depth text out s hinside hnests h
    cases h
    exact .inr ⟨rfl, by rintro ev ⟨⟩, rfl⟩
  | cons ev es ih =>
    intro inside depth text out s hinside hnests h
    obtain ⟨c₁, hstep, hrest⟩ := foldlM_cons h
    have hmem : name ∈ tags := List.mem_of_getElem? hname
    have hget : tags.getD i [] = name := by
      rw [List.getD_eq_getElem?_getD, hname]
      rfl
    -- an event that belongs to the element, in front of what follows
    have hgo (inside' : List Bytes) {depth' : Nat} {text' : Bytes} (hc₁ : c₁ = ⟨depth', some (i, text'), out⟩)
        (htext : text' = text ++ plainData ev) (hfree : ev.kind = .start → ev.name ∉ tags)
        (hinside' : ∀ n ∈ inside', n ∉ tags) (hnests' : Nests (inside' ++ name :: o) es)
        (huntil : untilEnd inside.length (ev :: es) = (untilEnd inside'.length es).map (ev :: ·)) :
        (∃ inner last rest depth', ev :: es = inner ++ last :: rest ∧ last.kind = .close ∧
          untilEnd inside.length (ev :: es) = some inner ∧ Free tags inner ∧ Nests o rest ∧
          rest.foldlM (captureStep tags) ⟨depth', none, out.set i (some (text ++ inner.flatMap plainData))⟩ = .ok s) ∨
        (untilEnd inside.length (ev :: es) = none ∧ Free tags (ev :: es) ∧ s.out = out) := by
      rw [hc₁] at hrest
      rcases ih inside' depth' text' out s hinside' hnests' hrest with
        ⟨inner, last, rest, depth'', hes, hlast, hinner, hfreeInner, hnestsRest, hfold⟩ | ⟨hnone, hfreeRest, hout⟩
      · refine .inl ⟨ev :: inner, last, rest, depth'', ?_, hlast, ?_, free_cons hfree hfreeInner, hnestsRest, ?_⟩
        · rw [hes]
          rfl
        · rw [huntil, hinner]
          rfl
        · rw [List.flatMap_cons, ← List.append_assoc, ← htext]
          exact hfold
      · refine .inr ⟨?_, free_cons hfree hfreeRest, hout⟩
        rw [huntil, hnone]
        rfl
    rcases nests_cons hnests with ⟨hkind, hnests'⟩ | ⟨hkind, o', ho, hnests'⟩ | ⟨hstart, hclose, hnests'⟩
    · rcases captureStep_start hkind hstep with ⟨hfree, hc₁⟩ | ⟨j, _, _, hnone, _⟩
      · refine hgo (ev.name :: inside) hc₁ ?_ (fun _ => hfree) (List.forall_mem_cons.mpr ⟨hfree, hinside⟩) hnests' ?_
        · unfold plainData charData
          rw [hkind]
          exact (List.append_nil text).symm
        · rw [untilEnd, if_neg (by rw [hkind]; decide), if_pos hkind]
          rfl
      · cases hnone
    · have hc₁ := captureStep_close hkind rfl hstep
      rw [hget] at hc₁
      have hnotStart : ev.kind = .start → ev.name ∉ tags := by
        intro hk
        rw [hkind] at hk
        cases hk
      cases inside with
      | nil =>
        -- the end tag of the element itself
        cases ho
        rw [if_pos rfl] at hc₁
        refine .inl ⟨[], ev, es, depth - 1, rfl, hkind, ?_, by rintro x ⟨⟩, hnests', ?_⟩
        · rw [untilEnd, if_pos hkind]
          rfl
        · rw [List.flatMap_nil, List.append_nil, ← hc₁]
          exact hrest
      | cons n inside =>
        obtain ⟨rfl, rfl⟩ := List.cons.inj ho
        obtain ⟨hn, hinside'⟩ := List.forall_mem_cons.mp hinside
        rw [if_neg (by rintro rfl; exact hn hmem)] at hc₁
        refine hgo inside hc₁ ?_ hnotStart hinside' hnests' ?_
        · unfold plainData charData
          rw [hkind]
          exact (List.append_nil text).symm
        · rw [untilEnd, if_pos hkind, List.length_cons, if_neg (Nat.succ_ne_zero _), Nat.add_sub_cancel]
    · refine hgo inside (captureStep_inside hstart hclose rfl hstep) rfl (fun hk => absurd hk hstart) hinside hnests' ?_
      rw [untilEnd, if_neg hclose, if_neg hstart]

/-- Events that start no element of a name hold none, and those after them hold the same. -/
theorem framed_skip {before : List Event} (h : ∀ ev ∈ before, ev.kind = .start → ev.name ≠ t) (after : List Event) :
    framed t (before ++ after) = framed t after := by
  induction before with
  | nil => rfl
  | cons ev before ih =>
    obtain ⟨hev, hbefore⟩ := List.forall_mem_cons.mp h
    rw [List.cons_append, framed, if_neg (fun hboth => hev hboth.1 hboth.2), ih hbefore]

theorem framed_free (h : Free tags es) (ht : t ∈ tags) : framed t es = [] := by
  have hskip := framed_skip (t := t) (fun ev hev hkind heq => h ev hev hkind (heq ▸ ht)) []
  rw [List.append_nil] at hskip
  exact hskip

/-- What the loop makes of the text of a tag, from the text so far and the elements to come. -/
def Captured (before after : Option Bytes) (inners : List (List Event)) : Prop :=
  (∃ text, before = some text ∧ inners = [] ∧ after = some text) ∨
  (before = none ∧ inners.length ≤ 1 ∧ after = inners.head?.map (·.flatMap plainData))

/-- The run of the loop over a sequence of events, from where nothing is captured. -/
structure Run (tags : List Bytes) (es : List Event) (c s : Capture) : Prop where
  length : s.out.length = c.out.length
  first : ∀ i t, tags.findIdx? (· == t) = some i → Captured (c.out.getD i none) (s.out.getD i none) (framed t es)
  again : ∀ i, (∀ t, tags.findIdx? (· == t) ≠ some i) → s.out.getD i none = c.out.getD i none

theorem getD_set_self {out : List (Option Bytes)} {i : Nat} (h : i < out.length) (v : Option Bytes) :
    (out.set i v).getD i none = v := by
  rw [List.getD_eq_getElem?_getD, List.getElem?_set_self h]
  rfl

theorem getD_set_ne {out : List (Option Bytes)} {i j : Nat} (h : i ≠ j) (v : Option Bytes) :
    (out.set i v).getD j none = out.getD j none := by
  rw [List.getD_eq_getElem?_getD, List.getElem?_set_ne h, List.getD_eq_getElem?_getD]

theorem fold_outside (n : Nat) : ∀ (es : List Event) (o : List Bytes) (c s : Capture), es.length < n →
    c.out.length = tags.length → c.capturing = none → Nests o es →
    es.foldlM (captureStep tags) c = .ok s → Run tags es c s := by
  induction n with
  | zero => exact fun es _ _ _ hn => absurd hn (Nat.not_lt_zero _)
  | succ n ih =>
    intro es o c s hn hlength hidle hnests h
    cases es with
    | nil =>
      cases h
      refine ⟨rfl, fun i t hi => ?_, fun i _ => rfl⟩
      cases c.out.getD i none with
      | none => exact .inr ⟨rfl, Nat.zero_le 1, rfl⟩
      | some text => exact .inl ⟨text, rfl, rfl, rfl⟩
    | cons ev es =>
      obtain ⟨c₁, hstep, hrest⟩ := foldlM_cons h
      rw [List.length_cons] at hn
      have hless : es.length < n := Nat.lt_of_succ_lt_succ hn
      -- an event that starts no element of a tag
      have hpass (hout : c₁.out = c.out) (hidle₁ : c₁.capturing = none) (hfree : ev.kind = .start → ev.name ∉ tags)
          {o' : List Bytes} (hnests' : Nests o' es) : Run tags (ev :: es) c s := by
        obtain ⟨hlen, hfirst, hagain⟩ := ih es o' c₁ s hless (hout ▸ hlength) hidle₁ hnests' hrest
        rw [hout] at hlen hfirst hagain
        refine ⟨hlen, fun i t hi => ?_, hagain⟩
        have ht := List.mem_of_getElem? (findIdx?_some hi)
        have hother : ¬ (ev.kind = .start ∧ ev.name = t) := by
          rintro ⟨hk, rfl⟩
          exact hfree hk ht
        rw [framed, if_neg hother]
        exact hfirst i t hi
      rcases nests_cons hnests with ⟨hkind, hnests'⟩ | ⟨hkind, o', ho, hnests'⟩ | ⟨hstart, hclose, hnests'⟩
      · rcases captureStep_start hkind hstep with ⟨hfree, rfl⟩ | ⟨i, hi, hempty, _, rfl⟩
        · exact hpass rfl hidle (fun _ => hfree) hnests'
        · have hin : i < c.out.length := by
            rw [hlength]
            exact (List.findIdx?_eq_some_iff_getElem.mp hi).1
          have hmem := List.mem_of_getElem? (findIdx?_some hi)
          rcases fold_inside es (findIdx?_some hi) [] (c.depth + 1) [] c.out s (by rintro x ⟨⟩) hnests' hrest with
            ⟨inner, last, rest, depth, rfl, hlast, huntil, hfree, hnestsRest, hfold⟩ | ⟨huntil, hfree, hout⟩
          · -- the element ends: its text is there, and no other one starts before its end
            rw [List.nil_append] at hfold
            rw [List.length_nil] at huntil
            rw [List.length_append, List.length_cons] at hless
            obtain ⟨hlen, hfirst, hagain⟩ := ih rest o _ s (by omega) (by rw [List.length_set, hlength]) rfl hnestsRest hfold
            dsimp only at hlen hfirst hagain
            have hskip {t : Bytes} (ht : t ∈ tags) : framed t (inner ++ last :: rest) = framed t rest := by
              rw [framed_skip (fun x hx hk heq => hfree x hx hk (heq ▸ ht)), framed,
                if_neg (fun hboth => absurd (hlast.symm.trans hboth.1) (by decide))]
            refine ⟨hlen.trans (List.length_set ..), fun j t hj => ?_, fun j hj => ?_⟩
            · have ht := List.mem_of_getElem? (findIdx?_some hj)
              have hnow := hfirst j t hj
              by_cases hname : ev.name = t
              · subst hname
                cases hi.symm.trans hj
                rw [getD_set_self hin] at hnow
                rcases hnow with ⟨text, htext, hnone, hout⟩ | ⟨hnone, _⟩
                · refine .inr ⟨hempty, ?_, ?_⟩
                  · rw [framed, if_pos ⟨hkind, rfl⟩, hskip ht, hnone, huntil]
                    exact Nat.le_refl 1
                  · rw [framed, if_pos ⟨hkind, rfl⟩, hskip ht, hnone, huntil, hout, ← htext]
                    rfl
                · cases hnone
              · have hne : i ≠ j := by
                  rintro rfl
                  exact hname (Option.some.inj ((findIdx?_some hi).symm.trans (findIdx?_some hj)))
                rw [getD_set_ne hne] at hnow
                rw [framed, if_neg (fun hboth => hname hboth.2), hskip ht]
                exact hnow
            · have hne : i ≠ j := by
                rintro rfl
                exact hj _ hi
              rw [hagain j hj, getD_set_ne hne]
          · -- the element never ends: nothing is there to be captured any more
            refine ⟨congrArg List.length hout, fun j t hj => ?_, fun j _ => by rw [hout]⟩
            have ht := List.mem_of_getElem? (findIdx?_some hj)
            have hnil : framed t (ev :: es) = [] := by
              rw [framed]
              split
              · rw [List.length_nil] at huntil
                rw [huntil, framed_free hfree ht]
                rfl
              · exact framed_free hfree ht
            rw [hnil, hout]
            cases c.out.getD j none with
            | none => exact .inr ⟨rfl, Nat.zero_le 1, rfl⟩
            | some text => exact .inl ⟨text, rfl, rfl, rfl⟩
      · have hne : ev.kind ≠ .start := by
          rw [hkind]
          decide
        obtain ⟨hidle₁, hout⟩ := captureStep_idle hne hidle hstep
        exact hpass hout hidle₁ (fun hk => absurd hk hne) hnests'
      · obtain ⟨hidle₁, hout⟩ := captureStep_idle hstart hidle hstep
        exact hpass hout hidle₁ (fun hk => absurd hk hstart) hnests'

/-- The run of the loop over a whole document. -/
theorem uniqueTexts_run {doc : Bytes} {out : List (Option Bytes)} (h : uniqueTexts doc tags = .ok out) :
    ∃ s : Capture, s.out = out ∧ Run tags (eventsOf doc) ⟨0, none, List.replicate tags.length none⟩ s := by
  unfold uniqueTexts at h
  split at h
  · cases h
  · obtain ⟨s, hscan, hout⟩ : ∃ s, scan id (fun c _ ev _ => captureStep tags c ev) (doc.length + 1) ⟨doc, []⟩
        ⟨0, none, List.replicate tags.length none⟩ = .ok s ∧ s.out = out := by
      cases hscan : scan id (fun c _ ev _ => captureStep tags c ev) (doc.length + 1) ⟨doc, []⟩
          ⟨0, none, List.replicate tags.length none⟩ with
      | error e =>
        rw [hscan] at h
        cases h
      | ok s =>
        rw [hscan] at h
        exact ⟨s, rfl, Except.ok.inj h⟩
    have hinv := scan_invariant (I := fun done es o s => Lex [] done es o ∧
      es.foldlM (captureStep tags) ⟨0, none, List.replicate tags.length none⟩ = .ok s) ?_ ⟨.nil, rfl⟩ hscan
    · obtain ⟨o, hlex, hfold⟩ := hinv
      exact ⟨s, hout, fold_outside _ _ [] _ s (Nat.lt_succ_self _) (List.length_replicate ..) rfl (nests_of_lex hlex) hfold⟩
    · intro done t rest es o ev o' s s' _ _ hpiece hI hstep
      refine ⟨hI.1.append (.single hpiece), ?_⟩
      rw [List.foldlM_append, hI.2]
      exact foldlM_cons_ok.mpr ⟨s', hstep, rfl⟩

/-- The character data that the loop drops is that of the CDATA sections. -/
theorem plainData_eq {inner : List Event} : inner.flatMap plainData = inner.flatMap charData ↔
    ∀ ev ∈ inner, ev.kind = .cdata → ev.content = [] := by
  have hle (inner : List Event) : (inner.flatMap plainData).length ≤ (inner.flatMap charData).length := by
    induction inner with
    | nil => exact Nat.le_refl _
    | cons ev inner ih =>
      rw [List.flatMap_cons, List.flatMap_cons, List.length_append, List.length_append]
      refine Nat.add_le_add ?_ ih
      unfold plainData
      split
      · exact Nat.zero_le _
      · exact Nat.le_refl _
  induction inner with
  | nil =>
    refine ⟨fun _ => ?_, fun _ => rfl⟩
    rintro ev ⟨⟩
  | cons ev inner ih =>
    rw [List.flatMap_cons, List.flatMap_cons, List.forall_mem_cons]
    by_cases hkind : ev.kind = .cdata
    · have hplain : plainData ev = [] := if_pos hkind
      have hdata : charData ev = ev.content := by
        unfold charData
        rw [hkind]
      rw [hplain, hdata, List.nil_append]
      constructor
      · intro heq
        have hlen := congrArg List.length heq
        rw [List.length_append] at hlen
        have hshort := hle inner
        have hnil : ev.content = [] := List.eq_nil_of_length_eq_zero (by omega)
        rw [hnil, List.nil_append] at heq
        exact ⟨fun _ => hnil, ih.mp heq⟩
      · rintro ⟨hnil, hrest⟩
        rw [hnil hkind, List.nil_append, ih.mpr hrest]
    · have hplain : plainData ev = charData ev := if_neg hkind
      rw [hplain]
      constructor
      · intro heq
        exact ⟨fun hk => absurd hk hkind, ih.mp (List.append_cancel_left heq)⟩
      · rintro ⟨-, hrest⟩
        rw [ih.mpr hrest]

end UniqueLemmas

open UniqueLemmas

/-- Where `unique_texts` returns, its texts are those of the only elements of their names if and
only if no such element is self-closing, holds a CDATA section, or is asked for twice. -/
theorem unique_iff {doc : Bytes} {tags : List Bytes} {out : List (Option Bytes)} (h : uniqueTexts doc tags = .ok out) :
    Unique tags (eventsOf doc) out ↔ Counted tags (eventsOf doc) := by
  obtain ⟨s, rfl, hlength, hfirst, hagain⟩ := uniqueTexts_run h
  dsimp only at hlength hfirst hagain
  have hblank (i : Nat) : (List.replicate tags.length (none : Option Bytes)).getD i none = none := by
    rw [List.getD_eq_getElem?_getD, List.getElem?_replicate]
    split
    · rfl
    · rfl
  -- a tag's first place has what was captured, its other places have nothing
  have hplace {i : Nat} {t : Bytes} (hi : tags[i]? = some t) : ∃ k, (∀ j, tags[j]? = some t → k ≤ j) ∧ tags[k]? = some t ∧
      (framed t (eventsOf doc)).length ≤ 1 ∧
      s.out.getD k none = (framed t (eventsOf doc)).head?.map (·.flatMap plainData) ∧
      (k ≠ i → s.out.getD i none = none) := by
    cases hk : tags.findIdx? (· == t) with
    | none => exact absurd (List.mem_of_getElem? hi) (findIdx?_none.mp hk)
    | some k =>
      have htk := findIdx?_some hk
      refine ⟨k, fun j hj => ?_, htk, ?_⟩
      · refine Nat.not_lt.mp fun hlt => ?_
        obtain ⟨hin, -, hbefore⟩ := List.findIdx?_eq_some_iff_getElem.mp hk
        have hne := hbefore j hlt
        obtain ⟨_, heq⟩ := List.getElem?_eq_some_iff.mp hj
        rw [heq, beq_self_eq_true] at hne
        exact hne rfl
      · rcases hfirst k t hk with ⟨text, htext, _⟩ | ⟨_, hone, hout⟩
        · rw [hblank] at htext
          cases htext
        · refine ⟨hone, hout, fun hne => ?_⟩
          rw [hagain i fun t' ht' => hne ?_, hblank]
          cases Option.some.inj (hi.symm.trans (findIdx?_some ht'))
          exact Option.some.inj (hk.symm.trans ht')
  constructor
  · rintro ⟨-, hunique⟩
    have hclosing {i : Nat} {t : Bytes} (hi : tags[i]? = some t) : selfClosing t (eventsOf doc) = [] := by
      obtain ⟨k, _, hk, _, hout, _⟩ := hplace hi
      obtain ⟨hone, htext⟩ := hunique k t hk
      rw [hout] at htext
      unfold elements at hone htext
      cases hself : selfClosing t (eventsOf doc) with
      | nil => rfl
      | cons ev more =>
        rw [hself] at hone htext
        cases hframed : framed t (eventsOf doc) with
        | nil =>
          rw [hframed] at htext
          cases htext
        | cons inner others =>
          rw [hframed, List.length_append, List.length_cons, List.length_map, List.length_cons] at hone
          omega
    have helements {i : Nat} {t : Bytes} (hi : tags[i]? = some t) : elements t (eventsOf doc) = framed t (eventsOf doc) := by
      rw [elements, hclosing hi, List.map_nil, List.append_nil]
    refine ⟨fun t ht => ?_, fun t ht inner hinner => ?_, fun i j t hlt hi hj => ?_⟩
    · obtain ⟨i, hi⟩ := List.mem_iff_getElem?.mp ht
      exact hclosing hi
    · obtain ⟨i, hi⟩ := List.mem_iff_getElem?.mp ht
      obtain ⟨k, _, hk, hone, hout, _⟩ := hplace hi
      obtain ⟨-, htext⟩ := hunique k t hk
      rw [hout, helements hk] at htext
      obtain ⟨only, honly⟩ := List.length_eq_one_iff.mp (Nat.le_antisymm hone (List.length_pos_of_mem hinner))
      rw [honly] at hinner htext
      cases List.mem_singleton.mp hinner
      exact plainData_eq.mp (Option.some.inj htext)
    · obtain ⟨k, hki, _, _, _, hlater⟩ := hplace hj
      have hkj : k ≠ j := Nat.ne_of_lt (Nat.lt_of_le_of_lt (hki i hi) hlt)
      obtain ⟨-, htext⟩ := hunique j t hj
      rw [hlater hkj, helements hj] at htext
      exact List.head?_eq_none_iff.mp (Option.map_eq_none_iff.mp htext.symm)
  · intro hcounted
    refine ⟨by rw [hlength, List.length_replicate], fun i t hi => ?_⟩
    obtain ⟨k, hki, hk, hone, hout, hlater⟩ := hplace hi
    have ht := List.mem_of_getElem? hi
    rw [elements, hcounted.selfClosing t ht, List.map_nil, List.append_nil]
    refine ⟨hone, ?_⟩
    by_cases hsame : k = i
    · subst hsame
      rw [hout]
      cases hframed : framed t (eventsOf doc) with
      | nil => rfl
      | cons inner others =>
        have hinner : inner ∈ framed t (eventsOf doc) := by
          rw [hframed]
          exact List.mem_cons_self
        exact congrArg some (plainData_eq.mpr (hcounted.cdata t ht inner hinner))
    · rw [hlater hsame, hcounted.once k i t (Nat.lt_of_le_of_ne (hki i hi) hsame) hk hi]
      rfl

/-- One self-closing element and one with a text. -/
def twoNames : Bytes := utf8 "<a><Name/><Name>x</Name></a>"

/-- Both are there and one is returned. -/
theorem second_element_passes : uniqueTexts twoNames [utf8 "Name"] = .ok [some (utf8 "x")] ∧
    (elements (utf8 "Name") (eventsOf twoNames)).length = 2 ∧
    ¬ Unique [utf8 "Name"] (eventsOf twoNames) [some (utf8 "x")] := by
  have htwo : (elements (utf8 "Name") (eventsOf twoNames)).length = 2 := by decide +kernel
  refine ⟨by decide +kernel, htwo, ?_⟩
  rintro ⟨-, hunique⟩
  have hone := (hunique 0 (utf8 "Name") rfl).1
  rw [htwo] at hone
  exact absurd hone (by decide)

/-- An announcement is read as it stands. -/
theorem unique_announcement :
    Unique [utf8 "Name", utf8 "Port"] (eventsOf (utf8 "<a><Name>x &amp; y</Name><Port>1</Port></a>"))
      [some (utf8 "x & y"), some (utf8 "1")] := by
  refine (unique_iff (by decide +kernel)).mpr ⟨by decide +kernel, by decide +kernel, ?_⟩
  intro i j t hlt hi hj
  -- there are only two tags, and they differ
  obtain ⟨hin, -⟩ := List.getElem?_eq_some_iff.mp hj
  have hsecond : j = 1 := Nat.le_antisymm (Nat.le_of_lt_succ hin) (Nat.lt_of_le_of_lt (Nat.zero_le i) hlt)
  subst hsecond
  obtain rfl : i = 0 := Nat.lt_one_iff.mp hlt
  cases hi
  exact absurd hj (by decide)

end OmtClient.Common.Xml
