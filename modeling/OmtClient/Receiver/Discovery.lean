import OmtClient.Common.Fsio
import OmtClient.Common.XmlLex
import OmtClient.Omt.Target
import OmtClient.Receiver.Status

/-!
# The configured server

`configured_server` of `crates/omt-receiver/src/discovery.rs`: the receiver reads the one
`DiscoveryServer` element of `settings.xml`, at any depth. `Named` says in terms of the
events of a document what `unique_text` of `crates/omt-common/src/xml.rs` finds.

1. `uniqueText_iff`: the text that is found is that of the one element of the name.
2. `rootIs_trimmed`: leading and trailing blanks do not hide the root.
-/

namespace OmtClient.Receiver

open OmtClient.Lib OmtClient.Common OmtClient.Common.Xml OmtClient.Common.Xml.XmlLemmas
open OmtClient.Omt (parseDirectTarget)

def settingsTag : Bytes := utf8 "Settings"
def serverTag : Bytes := utf8 "DiscoveryServer"

/-- The address that a document names: its text, when that is an address that can be dialled. -/
def accepted (text : Bytes) : Option Bytes :=
  (ofUtf8 text).bind fun server => if (parseDirectTarget (utf8 server)).isOk then some (utf8 server) else none

/-- `configured_server`, from the settings file. -/
def configuredServer (file : Option Bytes) : Option Bytes :=
  match readText file maxDocument with
  | .ok (some doc) =>
    match rootIs ((trim doc.toList).flatMap encode) settingsTag with
    | .error _ => none
    | .ok _ =>
      match uniqueText (utf8 doc) serverTag with
      | .error _ => none
      | .ok text => accepted text
  | _ => none

/-! ## What the events of a document name -/

/-- How deep the reader is after an event. -/
def depthAfter (d : Nat) (ev : Event) : Nat :=
  match ev.kind with
  | .start => d + 1
  | .close => d - 1
  | _ => d

/-- The events with how deep each of them stands. -/
def depths : Nat → List Event → List (Nat × Event)
  | _, [] => []
  | d, ev :: es => (d, ev) :: depths (depthAfter d ev) es

/-- An event that the reader of `tag` passes over: no declaration and no instruction, and no
start tag that is too deep or has the name that it looks for. -/
def passes (tag : Bytes) (p : Nat × Event) : Bool :=
  match p.2.kind with
  | .doctype | .pi => false
  | .start => p.1 < maxDepth && p.2.name != tag
  | _ => true

def quiet (tag : Bytes) (d : Nat) (es : List Event) : Bool := (depths d es).all (passes tag)

def isStart (tag : Bytes) (ev : Event) : Prop := ev.kind = .start ∧ ev.name = tag
def isClose (tag : Bytes) (ev : Event) : Prop := ev.kind = .close ∧ ev.name = tag

/-- The character data of events. -/
def textOf (es : List Event) : Bytes := es.flatMap fun ev => if ev.kind = .text then ev.content else []

/-- The events from the inside of an element on, and the text of the element. -/
def NamedInside (tag : Bytes) (d : Nat) (es : List Event) (text : Bytes) : Prop :=
  ∃ es₂ e es₃, es = es₂ ++ e :: es₃ ∧ isClose tag e ∧ (∀ ev ∈ es₂, ¬ isClose tag ev) ∧
    quiet tag d es₂ = true ∧ quiet tag (es₂.foldl depthAfter d - 1) es₃ = true ∧ text = textOf es₂

/-- The one element of a name in a document, and its text. -/
def Named (tag : Bytes) (d : Nat) (es : List Event) (text : Bytes) : Prop :=
  ∃ es₁ s rest, es = es₁ ++ s :: rest ∧ isStart tag s ∧ quiet tag d es₁ = true ∧
    es₁.foldl depthAfter d < maxDepth ∧ NamedInside tag (es₁.foldl depthAfter d + 1) rest text

namespace DiscoveryLemmas

variable {tag : Bytes} {d : Nat} {ev : Event} {es : List Event}

theorem quiet_cons : quiet tag d (ev :: es) = (passes tag (d, ev) && quiet tag (depthAfter d ev) es) := rfl

theorem quiet_append {fs : List Event} :
    quiet tag d (es ++ fs) = (quiet tag d es && quiet tag (es.foldl depthAfter d) fs) := by
  induction es generalizing d with
  | nil => rfl
  | cons ev es ih => rw [List.cons_append, quiet_cons, ih, quiet_cons, Bool.and_assoc, List.foldl_cons]

theorem findIdx_tag (name : Bytes) : [tag].findIdx? (· == name) = if tag = name then some 0 else none := by
  by_cases h : tag = name
  · rw [if_pos h, List.findIdx?_cons, if_pos (beq_iff_eq.mpr h)]
  · rw [if_neg h, List.findIdx?_cons, if_neg fun heq => h (beq_iff_eq.mp heq)]
    rfl

theorem ok_eq_iff {ε α : Type} {a b : α} : (.ok a : Except ε α) = .ok b ↔ b = a :=
  ⟨fun h => (Except.ok.inj h).symm, fun h => congrArg Except.ok h.symm⟩

/-- What one event does when nothing is being captured. -/
theorem captureStep_idle {out : Option Bytes} {c : Capture} (href : ev.kind ≠ .ref) :
    captureStep [tag] ⟨d, none, [out]⟩ ev = .ok c ↔
      (passes tag (d, ev) = true ∧ c = ⟨depthAfter d ev, none, [out]⟩) ∨
      (isStart tag ev ∧ d < maxDepth ∧ out = none ∧ c = ⟨d + 1, some (0, []), [none]⟩) := by
  cases hkind : ev.kind with
  | ref => exact absurd hkind href
  | start =>
    simp only [captureStep, passes, depthAfter, isStart, hkind, findIdx_tag, true_and]
    by_cases hdeep : maxDepth < d + 1
    · have hnot : ¬ d < maxDepth := by omega
      rw [if_pos hdeep]
      simp only [hnot, decide_false, Bool.false_and, Bool.false_eq_true, false_and, and_false, or_self, iff_false]
      exact nofun
    · have hlt : d < maxDepth := by omega
      rw [if_neg hdeep]
      by_cases hname : tag = ev.name
      · rw [if_pos hname]
        cases out with
        | some t =>
          simp only [hname, bne_self_eq_false, Bool.and_false, Bool.false_eq_true, false_and, false_or, and_false,
            iff_false, reduceCtorEq]
          exact nofun
        | none =>
          simp only [hname, bne_self_eq_false, Bool.and_false, Bool.false_eq_true, false_and, false_or, hlt, true_and]
          exact ok_eq_iff
      · rw [if_neg hname]
        have hne : ¬ ev.name = tag := fun h => hname h.symm
        have hbne : (ev.name != tag) = true := bne_iff_ne.mpr hne
        simp only [hbne, hlt, decide_true, Bool.and_self, true_and, hne, false_and, or_false]
        exact ok_eq_iff
  | doctype =>
    simp only [captureStep, passes, isStart, hkind, Bool.false_eq_true, false_and, reduceCtorEq, or_self]
  | pi => simp only [captureStep, passes, isStart, hkind, Bool.false_eq_true, false_and, reduceCtorEq, or_self]
  | _ =>
    simp only [captureStep, passes, depthAfter, isStart, hkind, reduceCtorEq, false_and, or_false, true_and]
    exact ok_eq_iff

theorem textOf_cons : textOf (ev :: es) = textOf [ev] ++ textOf es := by
  simp only [textOf, List.flatMap_cons, List.flatMap_nil, List.append_nil]

/-- What one event does inside the element. -/
theorem captureStep_inside {text : Bytes} {c : Capture} (href : ev.kind ≠ .ref)
    (hsize : (text ++ textOf [ev]).length ≤ maxDocument) :
    captureStep [tag] ⟨d, some (0, text), [none]⟩ ev = .ok c ↔
      (passes tag (d, ev) = true ∧ ¬ isClose tag ev ∧
        c = ⟨depthAfter d ev, some (0, text ++ textOf [ev]), [none]⟩) ∨
      (isClose tag ev ∧ c = ⟨d - 1, none, [some text]⟩) := by
  cases hkind : ev.kind with
  | ref => exact absurd hkind href
  | start =>
    simp only [captureStep, passes, depthAfter, isClose, hkind, findIdx_tag, reduceCtorEq, false_and, or_false,
      not_false_eq_true, true_and, textOf, List.flatMap_cons, List.flatMap_nil, if_false, List.append_nil]
    by_cases hdeep : maxDepth < d + 1
    · have hnot : ¬ d < maxDepth := by omega
      rw [if_pos hdeep]
      simp only [hnot, decide_false, Bool.false_and, Bool.false_eq_true, false_and, iff_false]
      exact nofun
    · have hlt : d < maxDepth := by omega
      rw [if_neg hdeep]
      by_cases hname : tag = ev.name
      · rw [if_pos hname]
        simp only [hname, bne_self_eq_false, Bool.and_false, Bool.false_eq_true, false_and, iff_false]
        exact nofun
      · rw [if_neg hname]
        have hbne : (ev.name != tag) = true := bne_iff_ne.mpr fun h => hname h.symm
        simp only [hbne, hlt, decide_true, Bool.and_self, true_and]
        exact ok_eq_iff
  | doctype =>
    simp only [captureStep, passes, isClose, hkind, Bool.false_eq_true, false_and, reduceCtorEq, or_self]
  | pi => simp only [captureStep, passes, isClose, hkind, Bool.false_eq_true, false_and, reduceCtorEq, or_self]
  | text =>
    have htext : textOf [ev] = ev.content := by
      simp only [textOf, List.flatMap_cons, List.flatMap_nil, hkind, if_true, List.append_nil]
    rw [htext] at hsize ⊢
    simp only [captureStep, passes, depthAfter, isClose, hkind, reduceCtorEq, false_and, or_false,
      not_false_eq_true, true_and]
    rw [if_neg (Nat.not_lt.mpr hsize)]
    exact ok_eq_iff
  | close =>
    simp only [captureStep, passes, depthAfter, isClose, hkind, true_and, textOf, List.flatMap_cons,
      List.flatMap_nil, reduceCtorEq, if_false, List.append_nil]
    by_cases hname : ev.name = tag
    · have htag : [tag].getD 0 [] = ev.name := hname.symm
      rw [if_pos htag]
      simp only [hname, not_true_eq_false, false_and, true_and, false_or]
      exact ok_eq_iff
    · have htag : ¬ [tag].getD 0 [] = ev.name := fun h => hname h.symm
      rw [if_neg htag]
      simp only [hname, not_false_eq_true, true_and, false_and, or_false]
      exact ok_eq_iff
  | _ =>
    simp only [captureStep, passes, depthAfter, isClose, hkind, reduceCtorEq, false_and, or_false, not_false_eq_true,
      true_and, textOf, List.flatMap_cons, List.flatMap_nil, if_false, List.append_nil]
    exact ok_eq_iff

/-- Behind the element every event must be passed over. -/
theorem fold_behind {text : Bytes} {c : Capture} (href : ∀ ev ∈ es, ev.kind ≠ .ref) :
    es.foldlM (captureStep [tag]) ⟨d, none, [some text]⟩ = .ok c ↔
      quiet tag d es = true ∧ c = ⟨es.foldl depthAfter d, none, [some text]⟩ := by
  induction es generalizing d with
  | nil =>
    exact ⟨fun h => ⟨rfl, (Except.ok.inj h).symm⟩, fun h => congrArg Except.ok h.2.symm⟩
  | cons ev es ih =>
    have hev := href ev List.mem_cons_self
    rw [foldlM_cons_ok, quiet_cons, Bool.and_eq_true, List.foldl_cons]
    constructor
    · rintro ⟨c₁, hstep, hrest⟩
      rcases (captureStep_idle hev).mp hstep with ⟨hpasses, rfl⟩ | ⟨_, _, hnone, _⟩
      · obtain ⟨hquiet, hc⟩ := (ih fun x hx => href x (List.mem_cons_of_mem _ hx)).mp hrest
        exact ⟨⟨hpasses, hquiet⟩, hc⟩
      · cases hnone
    · rintro ⟨⟨hpasses, hquiet⟩, hc⟩
      exact ⟨_, (captureStep_idle hev).mpr (.inl ⟨hpasses, rfl⟩),
        (ih fun x hx => href x (List.mem_cons_of_mem _ hx)).mpr ⟨hquiet, hc⟩⟩

theorem namedInside_cons {text : Bytes} :
    NamedInside tag d (ev :: es) text ↔
      (isClose tag ev ∧ quiet tag (d - 1) es = true ∧ text = []) ∨
      (¬ isClose tag ev ∧ passes tag (d, ev) = true ∧
        ∃ body, NamedInside tag (depthAfter d ev) es body ∧ text = textOf [ev] ++ body) := by
  constructor
  · rintro ⟨es₂, e, es₃, hes, hclose, hnone, hquiet, hafter, rfl⟩
    cases es₂ with
    | nil =>
      cases hes
      exact .inl ⟨hclose, hafter, rfl⟩
    | cons x es₂ =>
      cases hes
      rw [quiet_cons, Bool.and_eq_true] at hquiet
      refine .inr ⟨hnone ev List.mem_cons_self, hquiet.1, textOf es₂, ?_, textOf_cons⟩
      exact ⟨es₂, e, es₃, rfl, hclose, fun y hy => hnone y (List.mem_cons_of_mem _ hy), hquiet.2, hafter, rfl⟩
  · rintro (⟨hclose, hquiet, rfl⟩ | ⟨hopen, hpasses, body, ⟨es₂, e, es₃, rfl, hclose, hnone, hquiet, hafter, rfl⟩, rfl⟩)
    · exact ⟨[], ev, es, rfl, hclose, nofun, rfl, hquiet, rfl⟩
    · refine ⟨ev :: es₂, e, es₃, rfl, hclose, ?_, by rw [quiet_cons, hpasses, hquiet]; rfl, hafter, (textOf_cons).symm⟩
      intro y hy
      rcases List.mem_cons.mp hy with rfl | hy
      · exact hopen
      · exact hnone y hy

/-- Inside the element the text is collected up to its end tag. -/
theorem fold_inside {text t : Bytes} (href : ∀ ev ∈ es, ev.kind ≠ .ref)
    (hsize : (text ++ textOf es).length ≤ maxDocument) :
    (∃ c, es.foldlM (captureStep [tag]) ⟨d, some (0, text), [none]⟩ = .ok c ∧ c.out = [some t]) ↔
      ∃ body, NamedInside tag d es body ∧ t = text ++ body := by
  induction es generalizing d text with
  | nil =>
    constructor
    · rintro ⟨c, hfold, hout⟩
      cases hfold
      cases hout
    · rintro ⟨body, ⟨es₂, e, es₃, hes, _⟩, _⟩
      exact absurd hes (by simp)
  | cons ev es ih =>
    have hev := href ev List.mem_cons_self
    have href' : ∀ x ∈ es, x.kind ≠ .ref := fun x hx => href x (List.mem_cons_of_mem _ hx)
    rw [textOf_cons, ← List.append_assoc] at hsize
    have hone : (text ++ textOf [ev]).length ≤ maxDocument := by
      rw [List.length_append] at hsize
      omega
    constructor
    · rintro ⟨c, hfold, hout⟩
      obtain ⟨c₁, hstep, hrest⟩ := foldlM_cons_ok.mp hfold
      rcases (captureStep_inside hev hone).mp hstep with ⟨hpasses, hopen, rfl⟩ | ⟨hclose, rfl⟩
      · obtain ⟨body, hnamed, rfl⟩ := (ih href' hsize).mp ⟨c, hrest, hout⟩
        exact ⟨textOf [ev] ++ body, (namedInside_cons).mpr (.inr ⟨hopen, hpasses, body, hnamed, rfl⟩),
          List.append_assoc _ _ _⟩
      · obtain ⟨hquiet, rfl⟩ := (fold_behind href').mp hrest
        cases hout
        exact ⟨[], (namedInside_cons).mpr (.inl ⟨hclose, hquiet, rfl⟩), (List.append_nil _).symm⟩
    · rintro ⟨body, hnamed, rfl⟩
      rcases (namedInside_cons).mp hnamed with ⟨hclose, hquiet, rfl⟩ | ⟨hopen, hpasses, body, hrest, rfl⟩
      · refine ⟨_, foldlM_cons_ok.mpr ⟨_, (captureStep_inside hev hone).mpr (.inr ⟨hclose, rfl⟩),
          (fold_behind href').mpr ⟨hquiet, rfl⟩⟩, ?_⟩
        rw [List.append_nil]
      · obtain ⟨c, hfold, hout⟩ := (ih href' hsize).mpr ⟨body, hrest, (List.append_assoc _ _ _).symm⟩
        exact ⟨c, foldlM_cons_ok.mpr ⟨_, (captureStep_inside hev hone).mpr (.inl ⟨hpasses, hopen, rfl⟩), hfold⟩, hout⟩

theorem named_cons {text : Bytes} :
    Named tag d (ev :: es) text ↔
      (isStart tag ev ∧ d < maxDepth ∧ NamedInside tag (d + 1) es text) ∨
      (passes tag (d, ev) = true ∧ Named tag (depthAfter d ev) es text) := by
  constructor
  · rintro ⟨es₁, s, rest, hes, hstart, hquiet, hdepth, hnamed⟩
    cases es₁ with
    | nil =>
      cases hes
      exact .inl ⟨hstart, hdepth, hnamed⟩
    | cons x es₁ =>
      cases hes
      rw [quiet_cons, Bool.and_eq_true] at hquiet
      exact .inr ⟨hquiet.1, es₁, s, rest, rfl, hstart, hquiet.2, hdepth, hnamed⟩
  · rintro (⟨hstart, hdepth, hnamed⟩ | ⟨hpasses, es₁, s, rest, rfl, hstart, hquiet, hdepth, hnamed⟩)
    · exact ⟨[], ev, es, rfl, hstart, rfl, hdepth, hnamed⟩
    · exact ⟨ev :: es₁, s, rest, rfl, hstart, by rw [quiet_cons, hpasses, hquiet]; rfl, hdepth, hnamed⟩

/-- The whole loop: it finds a text exactly when the events name one element. -/
theorem fold_idle {t : Bytes} (href : ∀ ev ∈ es, ev.kind ≠ .ref) (hsize : (textOf es).length ≤ maxDocument) :
    (∃ c, es.foldlM (captureStep [tag]) ⟨d, none, [none]⟩ = .ok c ∧ c.out = [some t]) ↔ Named tag d es t := by
  induction es generalizing d with
  | nil =>
    constructor
    · rintro ⟨c, hfold, hout⟩
      cases hfold
      cases hout
    · rintro ⟨es₁, s, rest, hes, _⟩
      exact absurd hes (by simp)
  | cons ev es ih =>
    have hev := href ev List.mem_cons_self
    have href' : ∀ x ∈ es, x.kind ≠ .ref := fun x hx => href x (List.mem_cons_of_mem _ hx)
    rw [textOf_cons, List.length_append] at hsize
    have hsize' : (textOf es).length ≤ maxDocument := by omega
    constructor
    · rintro ⟨c, hfold, hout⟩
      obtain ⟨c₁, hstep, hrest⟩ := foldlM_cons_ok.mp hfold
      rcases (captureStep_idle hev).mp hstep with ⟨hpasses, rfl⟩ | ⟨hstart, hdepth, _, rfl⟩
      · exact (named_cons).mpr (.inr ⟨hpasses, (ih href' hsize').mp ⟨c, hrest, hout⟩⟩)
      · obtain ⟨body, hnamed, rfl⟩ := (fold_inside href' hsize').mp ⟨c, hrest, hout⟩
        exact (named_cons).mpr (.inl ⟨hstart, hdepth, hnamed⟩)
    · intro hnamed
      rcases (named_cons).mp hnamed with ⟨hstart, hdepth, hinside⟩ | ⟨hpasses, hrest⟩
      · obtain ⟨c, hfold, hout⟩ := ((@fold_inside _ _ _ []) href' hsize').mpr ⟨t, hinside, rfl⟩
        exact ⟨c, foldlM_cons_ok.mpr ⟨_, (captureStep_idle hev).mpr (.inr ⟨hstart, hdepth, rfl, rfl⟩), hfold⟩, hout⟩
      · obtain ⟨c, hfold, hout⟩ := (ih href' hsize').mpr hrest
        exact ⟨c, foldlM_cons_ok.mpr ⟨_, (captureStep_idle hev).mpr (.inl ⟨hpasses, rfl⟩), hfold⟩, hout⟩

theorem additive_captureStep (tags : List Bytes) : Additive (captureStep tags) := by
  intro c a b _ _
  obtain ⟨d, capturing, out⟩ := c
  unfold captureStep
  dsimp only [Except.bind]
  cases capturing with
  | none => rfl
  | some p =>
    obtain ⟨i, text⟩ := p
    dsimp only
    by_cases hfirst : maxDocument < (text ++ a).length
    · have hboth : maxDocument < (text ++ (a ++ b)).length := by
        rw [← List.append_assoc, List.length_append]
        omega
      rw [if_pos hfirst, if_pos hboth]
    · rw [if_neg hfirst]
      dsimp only
      rw [List.append_assoc]

theorem captureStep_out {c c' : Capture} (hout : c.out.length = 1) (h : captureStep [tag] c ev = .ok c') :
    c'.out.length = 1 := by
  unfold captureStep at h
  split at h <;> (repeat' split at h) <;> cases h <;> first | exact hout | exact (List.length_set ..).trans hout

theorem foldlM_out {c c' : Capture} (hout : c.out.length = 1) (h : es.foldlM (captureStep [tag]) c = .ok c') :
    c'.out.length = 1 := by
  induction es generalizing c with
  | nil =>
    cases h
    exact hout
  | cons ev es ih =>
    obtain ⟨c₁, hstep, hrest⟩ := foldlM_cons_ok.mp h
    exact ih (captureStep_out hout hstep) hrest

theorem length_textOf {o o' : List Bytes} {x : Bytes} (h : Lex o x es o') : (textOf es).length ≤ x.length := by
  induction h with
  | nil => exact Nat.le_refl _
  | @cons o o₁ o' t ev rest es hpiece _ ih =>
    have hone : (textOf [ev]).length ≤ t.length := by
      cases hpiece with
      | data _ _ =>
        rw [textOf, List.flatMap_cons, List.flatMap_nil, List.append_nil]
        exact Nat.le_refl _
      | token htoken =>
        rw [textOf, List.flatMap_cons, List.flatMap_nil, if_neg (XmlLemmas.token_kind htoken).2]
        exact Nat.zero_le _
    rw [textOf_cons, List.length_append, List.length_append]
    omega

end DiscoveryLemmas

open DiscoveryLemmas

/-- The text that is found in a document without references is that of the one element of the
name, when the document is small enough. -/
theorem uniqueText_iff {x tag t : Bytes} {es : List Event} {o : List Bytes} (hlex : Lex [] x es o)
    (href : ∀ ev ∈ es, ev.kind ≠ .ref) :
    uniqueText x tag = .ok t ↔ x.length ≤ maxDocument ∧ Named tag 0 es t := by
  unfold uniqueText uniqueTexts
  by_cases hlong : maxDocument < x.length
  · rw [if_pos hlong]
    exact ⟨fun h => (nomatch h), fun h => absurd h.1 (Nat.not_le.mpr hlong)⟩
  · have hsize := Nat.not_lt.mp hlong
    have hfold := (@fold_idle tag 0 _ t) href (Nat.le_trans (length_textOf hlex) hsize)
    rw [if_neg hlong, scan_lex (additive_captureStep [tag]) hlex (Nat.lt_succ_self _), ← hfold]
    refine ⟨fun h => ⟨hsize, ?_⟩, fun ⟨_, c, hc, hout⟩ => ?_⟩
    · cases hc : es.foldlM (captureStep [tag]) ⟨0, none, [none]⟩ with
      | error e =>
        rw [List.length_singleton, List.replicate_one, hc] at h
        cases h
      | ok c =>
        rw [List.length_singleton, List.replicate_one, hc] at h
        obtain ⟨out, hout⟩ := List.length_eq_one_iff.mp (foldlM_out rfl hc)
        refine ⟨c, rfl, ?_⟩
        rw [hout]
        cases out with
        | none => exact absurd h (by rw [show Except.map Capture.out (Except.ok c) = Except.ok [none] from congrArg _ hout]; nofun)
        | some text =>
          rw [show Except.map Capture.out (Except.ok c) = Except.ok [some text] from congrArg _ hout] at h
          cases h
          rfl
    · rw [List.length_singleton, List.replicate_one, hc,
        show Except.map Capture.out (Except.ok c) = Except.ok [some t] from congrArg _ hout]
      rfl

/-! ## The root -/

/-- The events in front of the root element. -/
def ahead (ev : Event) : Prop := ev.kind ≠ .start ∧ ev.kind ≠ .empty ∧ ev.kind ≠ .doctype

/-- The tag of a root element. -/
def isRoot (tag : Bytes) (ev : Event) : Prop := (ev.kind = .start ∨ ev.kind = .empty) ∧ ev.name = tag

namespace DiscoveryLemmas

variable {tag p q t d : Bytes} {ev : Event} {es : List Event} {o o₁ o₂ : List Bytes}

theorem rootFrom_ahead {doc rest : Bytes} {n : Nat} (hread : nextEvent ⟨doc, o⟩ = .ok (ev, ⟨rest, o₁⟩))
    (hev : ahead ev) (heof : ev.kind ≠ .eof) : rootFrom tag (n + 1) ⟨doc, o⟩ = rootFrom tag n ⟨rest, o₁⟩ := by
  obtain ⟨hstart, hempty, hdoctype⟩ := hev
  rw [rootFrom, hread]
  dsimp only
  cases hkind : ev.kind with
  | start => exact absurd hkind hstart
  | empty => exact absurd hkind hempty
  | doctype => exact absurd hkind hdoctype
  | eof => exact absurd hkind heof
  | _ => rfl

theorem rootFrom_token {n : Nat} (htoken : Token o t ev o₁) (hroot : isRoot tag ev) :
    rootFrom tag (n + 1) ⟨t ++ q, o⟩ = .ok () := by
  rw [rootFrom, nextEvent_token htoken]
  dsimp only
  rcases hroot with ⟨hkind | hkind, hname⟩
  · rw [hkind]
    exact if_pos hname
  · rw [hkind]
    exact if_pos hname

theorem text_ahead : ahead ⟨.text, [], t⟩ := ⟨nofun, nofun, nofun⟩

/-- The root is found behind a part without elements. -/
theorem rootFrom_lex (hlex : Lex o p es o₁) (hes : ∀ ev ∈ es, ahead ev) (htoken : Token o₁ t ev o₂)
    (hroot : isRoot tag ev) {n : Nat} (hn : p.length < n) : rootFrom tag n ⟨p ++ (t ++ q), o⟩ = .ok () := by
  -- with bytes of a run that have been passed but not yet read
  have hrun : ∀ {n : Nat}, p.length < n → rootFrom tag n ⟨p ++ (t ++ q), o⟩ = .ok () ∧
      ∀ d, d ≠ [] → (∀ b ∈ d, isData b = true) → rootFrom tag (n + 1) ⟨d ++ (p ++ (t ++ q)), o⟩ = .ok () := by
    clear hn n
    induction hlex with
    | @nil o =>
      intro n hn
      obtain ⟨n, rfl⟩ := Nat.exists_eq_succ_of_ne_zero (Nat.ne_of_gt hn)
      have hnow {n : Nat} : rootFrom tag (n + 1) ⟨[] ++ (t ++ q), o⟩ = .ok () := rootFrom_token (t := t) htoken hroot
      refine ⟨hnow, fun d hne hdata => ?_⟩
      obtain ⟨⟨c, tail, hhead, hc⟩, _⟩ := token_ends htoken
      have hread := (@nextEvent_data o _ hne hdata (t ++ q)) (by
        rw [hhead]
        exact fun b hb => by cases hb; exact hc)
      rw [List.nil_append, rootFrom_ahead hread text_ahead nofun]
      exact hnow
    | @cons o o₁ o' a ev' rest es hpiece _ ih =>
      intro n hn
      have hpos := List.length_pos_of_ne_nil (piece_ne_nil hpiece)
      rw [List.length_append] at hn
      obtain ⟨n, rfl⟩ := Nat.exists_eq_succ_of_ne_zero (Nat.ne_zero_of_lt hn)
      have hahead := hes ev' List.mem_cons_self
      have hrest := fun {n} hn => ih (n := n) (fun x hx => hes x (List.mem_cons_of_mem _ hx)) htoken hn
      rw [List.append_assoc]
      cases hpiece with
      | data hne hdata =>
        refine ⟨(hrest (by omega)).2 a hne hdata, fun d hne' hdata' => ?_⟩
        have hboth : ∀ b ∈ d ++ a, isData b = true := fun b hb => (List.mem_append.mp hb).elim (hdata' b) (hdata b)
        rw [← List.append_assoc d]
        exact (hrest (n := n + 1) (by omega)).2 (d ++ a) (by simp [hne]) hboth
      | token hstep =>
        have hnow {n : Nat} (hn : rest.length < n) :
            rootFrom tag (n + 1) ⟨a ++ (rest ++ (t ++ q)), o⟩ = .ok () := by
          rw [rootFrom_ahead (nextEvent_token hstep _) hahead (token_kind hstep).1]
          exact (hrest hn).1
        refine ⟨hnow (by omega), fun d hne' hdata' => ?_⟩
        obtain ⟨⟨c, tail, hhead, hc⟩, _⟩ := token_ends hstep
        have hread := (@nextEvent_data o _ hne' hdata' (a ++ (rest ++ (t ++ q)))) (by
          rw [hhead]
          exact fun b hb => by cases hb; exact hc)
        rw [rootFrom_ahead hread text_ahead nofun]
        exact hnow (by omega)
  exact (hrun hn).1

/-- A part without the character data in front of it. -/
theorem lex_drop (hlex : Lex o (d ++ p) es o₁) (hdata : ∀ b ∈ d, isData b = true) (hes : ∀ ev ∈ es, ahead ev) :
    ∃ es', Lex o p es' o₁ ∧ ∀ ev ∈ es', ahead ev := by
  obtain ⟨x, hx⟩ : ∃ x, x = d ++ p := ⟨_, rfl⟩
  rw [← hx] at hlex
  induction hlex generalizing d with
  | nil =>
    obtain ⟨rfl, rfl⟩ := List.append_eq_nil_iff.mp hx.symm
    exact ⟨[], .nil, nofun⟩
  | @cons o o₁ o' a ev rest es hpiece hlex ih =>
    have hrest : ∀ x ∈ es, ahead x := fun x hx => hes x (List.mem_cons_of_mem _ hx)
    rcases List.append_eq_append_iff.mp hx with ⟨more, rfl, hmore⟩ | ⟨more, hmore, rfl⟩
    · -- the data goes past the piece
      have hsame : o = o₁ := by
        cases hpiece with
        | data _ _ => rfl
        | token htoken =>
          obtain ⟨⟨c, tail, rfl, hc⟩, _⟩ := token_ends htoken
          have := hdata c (List.mem_append_left _ List.mem_cons_self)
          rw [hc] at this
          cases this
      subst hsame
      exact ih (fun b hb => hdata b (List.mem_append_right _ hb)) hrest hmore
    · -- it ends in it
      cases hpiece with
      | data hne hpieces =>
        cases more with
        | nil => exact ⟨es, hlex, hrest⟩
        | cons b more =>
          refine ⟨⟨.text, [], b :: more⟩ :: es, .cons (.data (List.cons_ne_nil _ _) fun c hc => ?_) hlex, ?_⟩
          · exact hpieces c (by rw [hmore]; exact List.mem_append_right _ hc)
          · intro x hx
            rcases List.mem_cons.mp hx with rfl | hx
            · exact text_ahead
            · exact hrest x hx
      | token htoken =>
        cases d with
        | nil =>
          rw [List.nil_append] at hmore
          rw [← hmore]
          exact ⟨ev :: es, .cons (.token htoken) hlex, hes⟩
        | cons c d =>
          obtain ⟨⟨c', tail, hhead, hc⟩, _⟩ := token_ends htoken
          rw [hhead] at hmore
          obtain ⟨rfl, _⟩ := List.cons.inj hmore
          rw [hdata c' List.mem_cons_self] at hc
          cases hc

/-- The bytes of blank characters. -/
theorem blank_bytes {cs : List Char} (h : ∀ c ∈ cs, isWhitespace c = true) :
    ∀ b ∈ cs.flatMap encode, isData b = true ∧ b ≠ 62 := by
  intro b hb
  obtain ⟨c, hc, hb⟩ := List.mem_flatMap.mp hb
  have hhigh : ∀ b : Byte, 128 ≤ b → isData b = true ∧ b ≠ 62 := forall_byte (by decide +kernel)
  have hlow : ∀ n, n < 128 → isWhitespace (Char.ofNat n) = true → isData (UInt8.ofNat n) = true ∧ UInt8.ofNat n ≠ 62 := by
    decide +kernel
  rcases encode_cases c with ⟨hlt, hone⟩ | ⟨_, hbytes⟩
  · rw [hone] at hb
    cases List.mem_singleton.mp hb
    refine hlow c.toNat hlt ?_
    rw [Char.ofNat_toNat]
    exact h c hc
  · exact hhigh b (hbytes b hb)

/-- A text between the blanks around it. -/
theorem trim_around (cs : List Char) :
    ∃ lead trail, cs = lead ++ (trim cs ++ trail) ∧ (∀ c ∈ lead, isWhitespace c = true) ∧
      ∀ c ∈ trail, isWhitespace c = true := by
  refine ⟨cs.takeWhile isWhitespace, ((cs.dropWhile isWhitespace).reverse.takeWhile isWhitespace).reverse, ?_,
    fun c hc => List.all_eq_true.mp List.all_takeWhile c hc,
    fun c hc => List.all_eq_true.mp List.all_takeWhile c (List.mem_reverse.mp hc)⟩
  rw [trim, ← List.reverse_append, List.takeWhile_append_dropWhile, List.reverse_reverse,
    List.takeWhile_append_dropWhile]

/-- The tag of a root ends with its bracket. -/
theorem root_bracket (htoken : Token o t ev o₁) (hroot : isRoot tag ev) : ∃ front, t = front ++ [62] := by
  obtain ⟨hkind, _⟩ := hroot
  cases htoken with
  | @start _ name inner _ _ _ _ => exact ⟨60 :: (name ++ inner), by simp⟩
  | @empty _ name inner _ _ => exact ⟨60 :: (name ++ (inner ++ [47])), by simp⟩
  | @instruction _ inner _ =>
    split at hkind <;> rcases hkind with h | h <;> cases h
  | _ => rcases hkind with h | h <;> cases h

/-- The place of a piece of markup between other bytes, when data is taken away from both ends. -/
theorem append_between {lead mid trail : Bytes} (h : p ++ (t ++ q) = lead ++ (mid ++ trail))
    (hlead : ∀ b ∈ lead, isData b = true) (htrail : ∀ b ∈ trail, b ≠ 62)
    (hfirst : ∃ c rest, t = c :: rest ∧ isData c = false) (hlast : ∃ front, t = front ++ [62]) :
    ∃ p' q', p = lead ++ p' ∧ mid = p' ++ (t ++ q') := by
  obtain ⟨p', rfl, hrest⟩ : ∃ p', p = lead ++ p' ∧ mid ++ trail = p' ++ (t ++ q) := by
    rcases List.append_eq_append_iff.mp h with ⟨more, hmore, hrest⟩ | ⟨more, hmore, hrest⟩
    · cases more with
      | nil =>
        rw [List.append_nil] at hmore
        exact ⟨[], by rw [hmore, List.append_nil], hrest.symm⟩
      | cons b more =>
        obtain ⟨c, rest, rfl, hc⟩ := hfirst
        obtain ⟨rfl, _⟩ := List.cons.inj hrest
        rw [hlead c (by rw [hmore]; exact List.mem_append_right _ List.mem_cons_self)] at hc
        cases hc
    · exact ⟨more, hmore, hrest⟩
  obtain ⟨front, hfront⟩ := hlast
  rw [← List.append_assoc] at hrest
  rcases List.append_eq_append_iff.mp hrest with ⟨more, hmore, hq⟩ | ⟨more, hmore, hq⟩
  · cases more with
    | nil => exact ⟨p', [], rfl, by rw [List.append_nil] at hmore ⊢; exact hmore.symm⟩
    | cons b more =>
      have hmem : (62 : Byte) ∈ b :: more := by
        have hlast : (p' ++ t).getLast? = (b :: more).getLast? := by
          rw [hmore, List.getLast?_append_of_ne_nil _ (List.cons_ne_nil _ _)]
        rw [hfront, ← List.append_assoc, List.getLast?_concat] at hlast
        exact List.mem_of_getLast? hlast.symm
      exact absurd rfl (htrail 62 (by rw [hq]; exact List.mem_append_left _ hmem))
  · exact ⟨p', more, rfl, by rw [hmore, List.append_assoc]⟩

end DiscoveryLemmas

/-- Blanks around a document do not hide its root. -/
theorem rootIs_trimmed {doc : String} {tag p t q : Bytes} {es : List Event} {ev : Event} {o o' : List Bytes}
    (hdoc : utf8 doc = p ++ (t ++ q)) (hlex : Lex [] p es o) (hes : ∀ ev ∈ es, ahead ev)
    (htoken : Token o t ev o') (hroot : isRoot tag ev) :
    rootIs ((trim doc.toList).flatMap encode) tag = .ok () := by
  obtain ⟨lead, trail, hcs, hlead, htrail⟩ := trim_around doc.toList
  have hbytes := congrArg (List.flatMap encode) hcs
  rw [List.flatMap_append, List.flatMap_append, ← utf8_eq, hdoc] at hbytes
  obtain ⟨p', q', rfl, hmid⟩ := append_between hbytes (fun b hb => (blank_bytes hlead b hb).1)
    (fun b hb => (blank_bytes htrail b hb).2) (token_ends htoken).1 (root_bracket htoken hroot)
  obtain ⟨es', hlex', hes'⟩ := lex_drop hlex (fun b hb => (blank_bytes hlead b hb).1) hes
  rw [hmid, rootIs]
  refine rootFrom_lex hlex' hes' htoken hroot ?_
  rw [List.length_append]
  omega

/-! ## What is configured -/

namespace DiscoveryLemmas

variable {tag text : Bytes} {d : Nat} {s e : Event} {es es₁ es₂ es₃ rest : List Event}

/-- All of a document in which one element is named is passed over, but for the start of the element. -/
theorem namedInside_quiet (h : NamedInside tag d es text) : quiet tag d es = true := by
  obtain ⟨es₂, e, es₃, rfl, hclose, _, hquiet, hafter, _⟩ := h
  have hpasses : passes tag (es₂.foldl depthAfter d, e) = true := by
    unfold passes
    rw [hclose.1]
  have hdepth : depthAfter (es₂.foldl depthAfter d) e = es₂.foldl depthAfter d - 1 := by
    unfold depthAfter
    rw [hclose.1]
  rw [quiet_append, hquiet, quiet_cons, hpasses, hdepth, hafter]
  rfl

theorem passes_start (hs : isStart tag s) : passes tag (d, s) = false := by
  unfold passes
  rw [hs.1, hs.2]
  simp

/-- The element that is named is the first of its name. -/
theorem named_iff (hs : isStart tag s) :
    Named tag d (es₁ ++ s :: rest) text ↔
      quiet tag d es₁ = true ∧ es₁.foldl depthAfter d < maxDepth ∧
        NamedInside tag (es₁.foldl depthAfter d + 1) rest text := by
  induction es₁ generalizing d with
  | nil =>
    rw [List.nil_append, named_cons, passes_start hs, List.foldl_nil]
    refine ⟨fun h => ?_, fun h => .inl ⟨hs, h.2⟩⟩
    rcases h with h | h
    · exact ⟨rfl, h.2⟩
    · cases h.1
  | cons ev es₁ ih =>
    rw [List.cons_append, named_cons, ih, quiet_cons, List.foldl_cons, Bool.and_eq_true]
    constructor
    · rintro (⟨_, _, hinside⟩ | ⟨hpasses, hquiet, hrest⟩)
      · -- the start tag would stand inside of another element of the name
        have hquiet := namedInside_quiet hinside
        rw [quiet_append, quiet_cons, passes_start hs, Bool.false_and, Bool.and_false] at hquiet
        cases hquiet
      · exact ⟨⟨hpasses, hquiet⟩, hrest⟩
    · rintro ⟨⟨hpasses, hquiet⟩, hrest⟩
      exact .inr ⟨hpasses, hquiet, hrest⟩

/-- The element ends with its first end tag. -/
theorem namedInside_iff (he : isClose tag e) (hnone : ∀ ev ∈ es₂, ¬ isClose tag ev) :
    NamedInside tag d (es₂ ++ e :: es₃) text ↔
      quiet tag d es₂ = true ∧ quiet tag (es₂.foldl depthAfter d - 1) es₃ = true ∧ text = textOf es₂ := by
  refine ⟨fun h => ?_, fun ⟨hquiet, hafter, htext⟩ => ⟨es₂, e, es₃, rfl, he, hnone, hquiet, hafter, htext⟩⟩
  induction es₂ generalizing d text with
  | nil =>
    rcases (namedInside_cons).mp h with ⟨_, hquiet, htext⟩ | ⟨hopen, _⟩
    · exact ⟨rfl, hquiet, htext⟩
    · exact absurd he hopen
  | cons ev es₂ ih =>
    rw [List.cons_append] at h
    rcases (namedInside_cons).mp h with ⟨hclose, _⟩ | ⟨_, hpasses, body, hbody, rfl⟩
    · exact absurd hclose (hnone ev List.mem_cons_self)
    · obtain ⟨hquiet, hafter, rfl⟩ := ih (fun x hx => hnone x (List.mem_cons_of_mem _ hx)) hbody
      refine ⟨?_, hafter, (textOf_cons).symm⟩
      rw [quiet_cons, hpasses, hquiet]
      rfl

/-- A part in which no element of a name starts closes as many of them as it leaves fewer open. -/
theorem closes_count {o o' : List Bytes} {x : Bytes} (h : Lex o x es o') (hnone : ∀ ev ∈ es, ¬ isStart tag ev) :
    o'.count tag ≤ o.count tag ∧ (o'.count tag = o.count tag → ∀ ev ∈ es, ¬ isClose tag ev) := by
  induction h with
  | nil => exact ⟨Nat.le_refl _, fun _ => nofun⟩
  | @cons o o₁ o' t ev rest es hpiece _ ih =>
    obtain ⟨hle, hsame⟩ := ih fun x hx => hnone x (List.mem_cons_of_mem _ hx)
    have hkeep (hcount : o₁.count tag = o.count tag) (hopen : ¬ isClose tag ev) :
        o'.count tag ≤ o.count tag ∧ (o'.count tag = o.count tag → ∀ x ∈ ev :: es, ¬ isClose tag x) := by
      refine ⟨hcount ▸ hle, fun heq x hx => ?_⟩
      rcases List.mem_cons.mp hx with rfl | hx
      · exact hopen
      · exact hsame (heq.trans hcount.symm) x hx
    rcases piece_opened hpiece with ⟨hkind, rfl⟩ | ⟨hkind, rfl⟩ | ⟨_, hclose, rfl⟩
    · have hname : ev.name ≠ tag := fun heq => hnone ev List.mem_cons_self ⟨hkind, heq⟩
      exact hkeep (List.count_cons_of_ne hname) fun hclose => nomatch hkind.symm.trans hclose.1
    · by_cases hname : ev.name = tag
      · rw [hname, List.count_cons_self]
        exact ⟨Nat.le_succ_of_le hle, fun heq => by omega⟩
      · exact hkeep (List.count_cons_of_ne hname).symm fun hclose => hname hclose.2
    · exact hkeep rfl fun hc => hclose hc.1

theorem quiet_no_start (h : quiet tag d es = true) : ∀ ev ∈ es, ¬ isStart tag ev := by
  induction es generalizing d with
  | nil => exact nofun
  | cons ev es ih =>
    rw [quiet_cons, Bool.and_eq_true] at h
    intro x hx hstart
    rcases List.mem_cons.mp hx with rfl | hx
    · rw [passes_start hstart] at h
      cases h.1
    · exact ih h.2 x hx hstart

/-- The end tag of an element whose inside is a part of its own. -/
theorem namedInside_balanced {o : List Bytes} {x : Bytes} (he : isClose tag e) (hlex : Lex o x es₂ o) :
    NamedInside tag d (es₂ ++ e :: es₃) text ↔
      quiet tag d es₂ = true ∧ quiet tag (es₂.foldl depthAfter d - 1) es₃ = true ∧ text = textOf es₂ := by
  have hnone (hquiet : quiet tag d es₂ = true) : ∀ ev ∈ es₂, ¬ isClose tag ev :=
    (closes_count hlex (quiet_no_start hquiet)).2 rfl
  constructor
  · intro h
    have hquiet := namedInside_quiet h
    rw [quiet_append, Bool.and_eq_true] at hquiet
    exact (namedInside_iff he (hnone hquiet.1)).mp h
  · intro h
    exact (namedInside_iff he (hnone h.1)).mpr h

theorem accepted_iff {v : Bytes} :
    accepted text = some v ↔ text = v ∧ Valid v ∧ (parseDirectTarget v).isOk = true := by
  unfold accepted
  cases hutf8 : ofUtf8 text with
  | none =>
    refine ⟨fun h => (nomatch h), ?_⟩
    rintro ⟨rfl, hvalid, _⟩
    have := isSome_ofUtf8 hvalid
    rw [hutf8] at this
    cases this
  | some server =>
    have htext := utf8_of_ofUtf8 hutf8
    rw [Option.bind_some, htext]
    constructor
    · intro h
      split at h
      · next hok =>
        cases h
        exact ⟨rfl, ⟨server, htext⟩, hok⟩
      · cases h
    · rintro ⟨rfl, _, hok⟩
      exact if_pos hok

end DiscoveryLemmas

/-- The server that is configured by a document with a root: the text of its one element, when
the document is small enough and the text is an address that can be dialled. -/
theorem configuredServer_iff {x p t q v : Bytes} {es es₀ : List Event} {ev : Event} {o o₁ o₂ : List Bytes}
    (hvalid : Valid x) (hx : x = p ++ (t ++ q)) (hahead : Lex [] p es₀ o₁) (hes₀ : ∀ ev ∈ es₀, ahead ev)
    (htoken : Token o₁ t ev o₂) (hroot : isRoot settingsTag ev) (hlex : Lex [] x es o)
    (href : ∀ ev ∈ es, ev.kind ≠ .ref) :
    configuredServer (some x) = some v ↔
      x.length ≤ maxDocument ∧ Named serverTag 0 es v ∧ (parseDirectTarget v).isOk = true ∧ Valid v := by
  obtain ⟨doc, hdoc⟩ := hvalid
  subst hdoc
  unfold configuredServer readText readBounded
  by_cases hlong : maxDocument < (utf8 doc).length
  · simp only [hlong, if_true, bind, Except.bind]
    exact ⟨fun h => (nomatch h), fun h => absurd h.1 (Nat.not_le.mpr hlong)⟩
  · simp only [hlong, if_false, bind, Except.bind, ofUtf8_utf8, Option.elim_some]
    rw [rootIs_trimmed hx hahead hes₀ htoken hroot]
    have hsize := Nat.not_lt.mp hlong
    cases htext : uniqueText (utf8 doc) serverTag with
    | error e =>
      refine ⟨fun h => (nomatch h), fun ⟨_, hnamed, _⟩ => ?_⟩
      rw [(uniqueText_iff hlex href).mpr ⟨hsize, hnamed⟩] at htext
      cases htext
    | ok text =>
      rw [accepted_iff]
      constructor
      · rintro ⟨rfl, hvalid, hok⟩
        exact ⟨hsize, ((uniqueText_iff hlex href).mp htext).2, hok, hvalid⟩
      · rintro ⟨_, hnamed, hok, hvalid⟩
        rw [(uniqueText_iff hlex href).mpr ⟨hsize, hnamed⟩] at htext
        cases htext
        exact ⟨rfl, hvalid, hok⟩

end OmtClient.Receiver
