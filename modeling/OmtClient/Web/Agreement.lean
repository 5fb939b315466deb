import OmtClient.Receiver.Discovery
import OmtClient.Web.Settings

/-!
# The two readers of the settings

The Web frontend edits the `DiscoveryServer` child of the root of `settings.xml`; the receiver
looks for an element of that name at any depth, and refuses instructions, a second such
element and elements that are too deep. A document that the Web frontend has updated says the
new address to the receiver only when nothing around the edited element puts it off.

1. `receiver_reads_iff`: when the receiver reads the address that the Web frontend saved.
-/

namespace OmtClient.Web.Network

open OmtClient.Lib OmtClient.Common OmtClient.Common.Xml OmtClient.Common.Xml.XmlLemmas
open OmtClient.Omt (parseDirectTarget)
open OmtClient.Receiver (depthAfter depths passes quiet isStart isClose textOf Named NamedInside configuredServer ahead
  isRoot)
open SettingsLemmas Receiver.DiscoveryLemmas

/-! ## Where an event stands -/

/-- How deep an event stands, and whether inside the `DiscoveryServer` child of the root. -/
@[ext]
structure Stand where
  depth : Nat
  inside : Bool
  deriving DecidableEq, Repr

/-- The start tag of the child. -/
def opens (p : Stand × Event) : Bool := p.2.kind == .start && p.1.depth == 1 && p.2.name == serverTag

/-- Its end tag. -/
def closes (p : Stand × Event) : Bool := p.2.kind == .close && p.1.depth == 2 && p.2.name == serverTag

def Stand.after (p : Stand) (ev : Event) : Stand :=
  ⟨depthAfter p.depth ev, if opens (p, ev) then true else if closes (p, ev) then false else p.inside⟩

def Stand.init : Stand := ⟨0, false⟩

/-- The events, each with where it stands. -/
def stands : Stand → List Event → List (Stand × Event)
  | _, [] => []
  | p, ev :: es => (p, ev) :: stands (p.after ev) es

/-- The receiver passes over an event, as far as the place of the event tells. -/
def passed (p : Stand × Event) : Bool := passes serverTag (p.1.depth, p.2)

/-- The same around the child only. -/
def skipped (p : Stand × Event) : Bool := p.1.inside || opens p || passed p

/-- Around the child, the receiver passes over everything. -/
def legible (xml : Bytes) : Bool := (stands Stand.init (eventsOf xml)).all skipped

/-- In the child too. -/
def clear (xml : Bytes) : Bool := (stands Stand.init (eventsOf xml)).all fun p => opens p || passed p

/-- All the character data in the child, that of its own elements too. -/
def content (xml : Bytes) : Bytes :=
  textOf (((stands Stand.init (eventsOf xml)).filter (·.1.inside)).map (·.2))

/-- The receiver can dial an address. -/
def dialable (v : Bytes) : Bool := (parseDirectTarget v).isOk

/-- What a document must be like for the receiver to read from it what the Web frontend
saved. A document that says the address already stays as it is; any other gets it written. -/
def Agrees (xml v : Bytes) : Prop :=
  (parseServer xml ≠ .ok v ∧ (v = [] ∨ (legible xml = true ∧ dialable v = true))) ∨
  (parseServer xml = .ok v ∧ v ≠ [] ∧ xml.length ≤ maxDocument ∧ clear xml = true ∧ content xml = v ∧
    dialable v = true) ∨
  (parseServer xml = .ok v ∧ v = [] ∧
    ∀ t, xml.length ≤ maxDocument → Named serverTag 0 (eventsOf xml) t → Valid t → dialable t = false)

namespace AgreementLemmas

variable {p : Stand} {ev : Event} {es fs : List Event} {c c' : Core}

def stand (c : Core) : Stand := ⟨c.depth, c.inDiscovery⟩

theorem stands_append : stands p (es ++ fs) = stands p es ++ stands (es.foldl Stand.after p) fs := by
  induction es generalizing p with
  | nil => rfl
  | cons ev es ih =>
    rw [List.cons_append, stands, ih]
    rfl

theorem foldl_depth : (es.foldl Stand.after p).depth = es.foldl depthAfter p.depth := by
  induction es generalizing p with
  | nil => rfl
  | cons ev es ih => exact ih

theorem opens_iff : opens (p, ev) = true ↔ ev.kind = .start ∧ p.depth = 1 ∧ ev.name = serverTag := by
  simp only [opens, Bool.and_eq_true, beq_iff_eq, and_assoc]

theorem closes_iff : closes (p, ev) = true ↔ ev.kind = .close ∧ p.depth = 2 ∧ ev.name = serverTag := by
  simp only [closes, Bool.and_eq_true, beq_iff_eq, and_assoc]

/-- An event that is neither tag of the child leaves the walk where it is, but for its depth. -/
theorem after_other (hopens : ¬ (ev.kind = .start ∧ p.depth = 1 ∧ ev.name = serverTag))
    (hcloses : ¬ (ev.kind = .close ∧ p.depth = 2 ∧ ev.name = serverTag)) :
    p.after ev = ⟨depthAfter p.depth ev, p.inside⟩ := by
  rw [Stand.after, if_neg (fun h => hopens ((opens_iff).mp h)), if_neg (fun h => hcloses ((closes_iff).mp h))]

/-- What an event that the walk takes does to its place. -/
theorem coreStep_stand (h : coreStep c ev = .ok c') :
    (stand c).after ev = stand c' ∧ c.discoveryCount ≤ c'.discoveryCount ∧ ev.kind ≠ .ref ∧
      (opens (stand c, ev) = true → c'.discoveryCount = c.discoveryCount + 1) := by
  rw [opens_iff]
  unfold coreStep at h
  cases hkind : ev.kind with
  | doctype =>
    rw [hkind] at h
    cases h
  | ref =>
    rw [hkind] at h
    cases h
  | start =>
    rw [hkind] at h
    dsimp only at h
    have hother (hnot : ¬ (c.depth = 1 ∧ ev.name = serverTag)) : (stand c).after ev = ⟨c.depth + 1, c.inDiscovery⟩ := by
      rw [after_other (fun h => hnot h.2) (fun h => by cases hkind.symm.trans h.1), depthAfter, hkind]
      rfl
    split at h
    · cases h
    split at h
    · next hzero =>
      split at h
      · cases h
      cases h
      have hnot : ¬ (c.depth = 1 ∧ ev.name = serverTag) := fun h => Nat.zero_ne_one (hzero.symm.trans h.1)
      refine ⟨?_, Nat.le_refl _, (by rintro ⟨⟩), fun h => absurd h.2 hnot⟩
      rw [hother hnot, hzero]
      rfl
    split at h
    · next hserver =>
      cases h
      refine ⟨?_, Nat.le_succ _, (by rintro ⟨⟩), fun _ => rfl⟩
      rw [Stand.after, if_pos ((opens_iff).mpr ⟨hkind, hserver⟩), depthAfter, hkind]
      exact Stand.ext (congrArg (· + 1) hserver.1) rfl
    · next hnot =>
      cases h
      exact ⟨hother hnot, Nat.le_refl _, (by rintro ⟨⟩), fun h => absurd h.2 hnot⟩
  | close =>
    rw [hkind] at h
    cases h
    refine ⟨?_, Nat.le_refl _, (by rintro ⟨⟩), fun h => by cases h.1⟩
    rw [Stand.after, if_neg (fun h => (by cases hkind.symm.trans ((opens_iff).mp h).1)), depthAfter, hkind]
    refine Stand.ext rfl ?_
    have hsame : closes (stand c, ev) = true ↔ c.depth = 2 ∧ ev.name = serverTag :=
      (closes_iff).trans ⟨fun h => h.2, fun h => ⟨hkind, h⟩⟩
    by_cases hserver : c.depth = 2 ∧ ev.name = serverTag
    · rw [if_pos (hsame.mpr hserver)]
      exact (if_pos hserver).symm
    · rw [if_neg fun h => hserver (hsame.mp h)]
      exact (if_neg hserver).symm
  | _ =>
    have hafter : (stand c).after ev = stand c := by
      rw [after_other (fun h => by cases hkind.symm.trans h.1) (fun h => by cases hkind.symm.trans h.1), depthAfter, hkind]
    have hcore : c'.depth = c.depth ∧ c'.inDiscovery = c.inDiscovery ∧ c.discoveryCount ≤ c'.discoveryCount := by
      rw [hkind] at h
      dsimp only at h
      repeat' split at h
      all_goals cases h
      all_goals first
        | exact ⟨rfl, rfl, Nat.le_refl _⟩
        | exact ⟨rfl, rfl, Nat.le_succ _⟩
    exact ⟨hafter.trans (Stand.ext hcore.1.symm hcore.2.1.symm), hcore.2.2, (by rintro ⟨⟩), fun h => by cases h.1⟩

/-- No child starts among the events. -/
def calm (p : Stand) (es : List Event) : Prop := ∀ x ∈ stands p es, opens x = false

theorem fold_stand (h : es.foldlM coreStep c = .ok c') :
    es.foldl Stand.after (stand c) = stand c' ∧ c.discoveryCount ≤ c'.discoveryCount ∧ (∀ ev ∈ es, ev.kind ≠ .ref) ∧
      (c'.discoveryCount = c.discoveryCount → calm (stand c) es) := by
  induction es generalizing c with
  | nil =>
    cases h
    exact ⟨rfl, Nat.le_refl _, nofun, fun _ => nofun⟩
  | cons ev es ih =>
    obtain ⟨c₁, hstep, hrest⟩ := foldlM_cons_ok.mp h
    obtain ⟨hafter, hle, href, hopens⟩ := coreStep_stand hstep
    obtain ⟨hfold, hle', hrefs, hcalm⟩ := ih hrest
    refine ⟨?_, Nat.le_trans hle hle', ?_, fun hcount => ?_⟩
    · rw [List.foldl_cons, hafter, hfold]
    · intro x hx
      rcases List.mem_cons.mp hx with rfl | hx
      · exact href
      · exact hrefs x hx
    · have hsame : c₁.discoveryCount = c.discoveryCount := by omega
      intro x hx
      rcases List.mem_cons.mp hx with rfl | hx
      · refine Bool.eq_false_iff.mpr fun hopen => ?_
        have := hopens hopen
        omega
      · rw [hafter] at hx
        exact hcalm (hcount.trans hsame.symm) x hx

theorem calm_cons (h : calm p (ev :: es)) : opens (p, ev) = false ∧ calm (p.after ev) es :=
  ⟨h _ List.mem_cons_self, fun x hx => h x (List.mem_cons_of_mem _ hx)⟩

theorem after_outside (h : opens (p, ev) = false) (hout : p.inside = false) : (p.after ev).inside = false := by
  unfold Stand.after
  rw [if_neg (Bool.eq_false_iff.mp h)]
  dsimp only
  split
  · rfl
  · exact hout

/-- Outside, and without a start of the child, all the events stand outside. -/
theorem calm_outside (h : calm p es) (hout : p.inside = false) :
    (∀ x ∈ stands p es, x.1.inside = false) ∧ (es.foldl Stand.after p).inside = false := by
  induction es generalizing p with
  | nil => exact ⟨nofun, hout⟩
  | cons ev es ih =>
    obtain ⟨hopen, hrest⟩ := calm_cons h
    obtain ⟨hall, hend⟩ := ih hrest (after_outside hopen hout)
    refine ⟨fun x hx => ?_, hend⟩
    rcases List.mem_cons.mp hx with rfl | hx
    · exact hout
    · exact hall x hx

/-- Without a start of the child, a part that ends inside was inside all along. -/
theorem calm_inside (h : calm p es) (hin : (es.foldl Stand.after p).inside = true) :
    ∀ x ∈ stands p es, x.1.inside = true := by
  induction es generalizing p with
  | nil => exact nofun
  | cons ev es ih =>
    intro x hx
    rcases List.mem_cons.mp hx with rfl | hx
    · by_contra hout
      have := (calm_outside h (Bool.eq_false_iff.mpr hout)).2
      rw [hin] at this
      cases this
    · exact ih (calm_cons h).2 hin x hx

theorem quiet_stands : quiet serverTag p.depth es = (stands p es).all passed := by
  induction es generalizing p with
  | nil => rfl
  | cons ev es ih =>
    rw [quiet_cons, stands, List.all_cons, ← ih]
    rfl

theorem skipped_outside (h : calm p es) (hout : p.inside = false) :
    (stands p es).all skipped = quiet serverTag p.depth es := by
  rw [quiet_stands, Bool.eq_iff_iff, List.all_eq_true, List.all_eq_true]
  refine forall₂_congr fun x hx => ?_
  rw [skipped, (calm_outside h hout).1 x hx, h x hx, Bool.false_or, Bool.false_or]

theorem skipped_inside (h : calm p es) (hin : (es.foldl Stand.after p).inside = true) :
    (stands p es).all skipped = true := by
  refine List.all_eq_true.mpr fun x hx => ?_
  rw [skipped, calm_inside h hin x hx]
  rfl

theorem skipped_append : (stands p (es ++ fs)).all skipped =
    ((stands p es).all skipped && (stands (es.foldl Stand.after p) fs).all skipped) := by
  rw [stands_append, List.all_append]

theorem skipped_cons : (stands p (ev :: es)).all skipped = (skipped (p, ev) && (stands (p.after ev) es).all skipped) :=
  rfl

/-- Character data and empty elements change nothing. -/
theorem neutral (hkind : ev.kind = .text ∨ ev.kind = .empty) :
    p.after ev = p ∧ passed (p, ev) = true ∧ skipped (p, ev) = true := by
  have hpassed : passed (p, ev) = true := by
    unfold passed passes
    rcases hkind with hkind | hkind <;> rw [hkind]
  refine ⟨?_, hpassed, by rw [skipped, hpassed, Bool.or_true]⟩
  rcases hkind with hkind | hkind
  all_goals
    rw [after_other (fun h => by cases hkind.symm.trans h.1) (fun h => by cases hkind.symm.trans h.1), depthAfter, hkind]

theorem neutral_all (hdata : ∀ d ∈ es, d.kind = .text) :
    es.foldl Stand.after p = p ∧ (stands p es).all skipped = true ∧ (stands p es).all passed = true := by
  induction es with
  | nil => exact ⟨rfl, rfl, rfl⟩
  | cons ev es ih =>
    obtain ⟨hafter, hpassed, hskipped⟩ := neutral (p := p) (.inl (hdata ev List.mem_cons_self))
    obtain ⟨hfold, hall, hquiet⟩ := ih fun d hd => hdata d (List.mem_cons_of_mem _ hd)
    rw [List.foldl_cons, stands, List.all_cons, List.all_cons, hafter, hskipped, hpassed]
    exact ⟨hfold, hall, hquiet⟩

theorem after_serverStart {s : Event} (hs : s.kind = .start ∧ s.name = serverTag) :
    opens (⟨1, false⟩, s) = true ∧ Stand.after ⟨1, false⟩ s = ⟨2, true⟩ := by
  have hopens : opens (⟨1, false⟩, s) = true := (opens_iff).mpr ⟨hs.1, rfl, hs.2⟩
  refine ⟨hopens, ?_⟩
  rw [Stand.after, if_pos hopens, depthAfter, hs.1]

theorem after_serverEnd {e : Event} (he : e.kind = .close ∧ e.name = serverTag) :
    Stand.after ⟨2, true⟩ e = ⟨1, false⟩ := by
  rw [Stand.after, if_neg (fun h => nomatch he.1.symm.trans ((opens_iff).mp h).1),
    if_pos ((closes_iff).mpr ⟨he.1, rfl, he.2⟩), depthAfter, he.1]
  rfl

/-- What is known of the events around the place of the address. -/
structure Around (es₁ es₃ : List Event) : Prop where
  before : calm Stand.init es₁
  stop : es₁.foldl Stand.after Stand.init = ⟨1, false⟩
  after : calm ⟨1, false⟩ es₃
  refs : (∀ ev ∈ es₁, ev.kind ≠ .ref) ∧ ∀ ev ∈ es₃, ev.kind ≠ .ref

theorem around_frame {xml front back : Bytes} {shape : Shape} {es₁ es₃ : List Event} {s e : Event} {o₀ : List Bytes}
    (h : Frame xml shape es front back es₁ es₃ s e o₀) : Around es₁ es₃ := by
  obtain ⟨c, hfirst, hlast⟩ := foldlM_append_ok h.before.folds
  obtain ⟨hstand, hle, hrefs, hcalm⟩ := fold_stand hfirst
  obtain ⟨c₁, hstep, hlast⟩ := foldlM_cons_ok.mp hlast
  cases hlast
  obtain ⟨hafter, _, _, hopens⟩ := coreStep_stand hstep
  have hdepth : c.depth = 1 := by
    have := congrArg Stand.depth hafter
    rw [Stand.after, depthAfter, h.start.1] at this
    exact Nat.succ.inj this
  have hzero : c.discoveryCount = 0 := (Nat.succ.inj (hopens ((opens_iff).mpr ⟨h.start.1, hdepth, h.start.2⟩))).symm
  have hbefore := hcalm hzero
  have hout : c.inDiscovery = false := by
    have := (calm_outside hbefore rfl).2
    rwa [hstand] at this
  have hback := (h.after []).folds
  rw [List.foldlM_cons, step_serverEnd h.close] at hback
  obtain ⟨_, _, hrefs', hcalm'⟩ := fold_stand (c := behindServer []) hback
  exact ⟨hbefore, hstand.trans (Stand.ext hdepth hout), hcalm' rfl, hrefs, hrefs'⟩

theorem skipped_kept {es₁ es₃ : List Event} (h : Around es₁ es₃) (hkept : Kept es es₁ es₃) :
    (stands Stand.init es).all skipped =
      ((stands Stand.init es₁).all skipped && (stands ⟨1, false⟩ es₃).all skipped) := by
  have hstop := h.stop
  cases hkept with
  | @element _ es₂ _ s e o₀ raw b hs he hinner =>
    obtain ⟨hopens, hinside⟩ := after_serverStart hs
    obtain ⟨hstand, _, _, hcalm⟩ := fold_stand hinner.folds
    have hes₂ := skipped_inside (hcalm rfl) (by rw [hstand]; rfl)
    have hstart : skipped (⟨1, false⟩, s) = true := by
      rw [skipped, hopens]
      rfl
    rw [skipped_append, hstop, skipped_cons, hstart, hinside, skipped_append]
    rw [show stand (inServer []) = ⟨2, true⟩ from rfl] at hstand hes₂
    rw [hes₂, hstand, skipped_cons, show stand (inServer raw) = ⟨2, true⟩ from rfl, after_serverEnd he]
    rfl
  | empty hev =>
    obtain ⟨hafter, _, hskipped⟩ := neutral (p := ⟨1, false⟩) (.inr hev)
    rw [skipped_append, hstop, skipped_cons, hskipped, hafter, Bool.true_and]
  | @root es₁ es₃ ev hev =>
    -- the root's own tags stand around the place of the address
    have hne : settingsTag ≠ serverTag := by decide
    have hzero : es₁.foldl Stand.after Stand.init = Stand.init := by
      have hafter := (@after_other (es₁.foldl Stand.after Stand.init) ⟨.start, settingsTag, []⟩)
        (fun h => hne h.2.2) (fun h => (nomatch h.1))
      rw [List.foldl_append, List.foldl_cons, List.foldl_cons, List.foldl_nil, (neutral (.inl rfl)).1, hafter] at hstop
      have hdepth : (es₁.foldl Stand.after Stand.init).depth + 1 = 1 := congrArg Stand.depth hstop
      have hinside : (es₁.foldl Stand.after Stand.init).inside = false := congrArg Stand.inside hstop
      exact Stand.ext (Nat.succ.inj hdepth) hinside
    have hopen : (stands Stand.init [⟨.start, settingsTag, []⟩, ⟨.text, [], utf8 "\n  "⟩]).all skipped = true := by decide
    have hclose : Stand.after ⟨1, false⟩ ⟨.close, settingsTag, []⟩ = Stand.init := by decide
    have hskip : skipped (⟨1, false⟩, ⟨.close, settingsTag, []⟩) = true := by decide
    obtain ⟨hafter, _, hskipped⟩ := neutral (p := Stand.init) (.inr hev)
    obtain ⟨hafter', _, hskipped'⟩ := (@neutral ⟨1, false⟩ ⟨.text, [], utf8 "\n"⟩) (.inl rfl)
    rw [skipped_append, hzero, skipped_cons, hskipped, hafter, skipped_append, hzero, hopen, skipped_cons, hskipped',
      hafter', skipped_cons, hskip, hclose, Bool.and_true, Bool.true_and, Bool.true_and]
  | @missing es₁ es₃ data₁ data₃ ev hev hdata₁ hdata₃ =>
    obtain ⟨hfold₁, hall₁, _⟩ := neutral_all (p := es₁.foldl Stand.after Stand.init) hdata₁
    obtain ⟨hfold₃, hall₃, _⟩ := neutral_all (p := ⟨1, false⟩) hdata₃
    rw [List.foldl_append, hfold₁] at hstop
    rw [skipped_append, skipped_append, hall₁, hstop, skipped_append, hall₃, hfold₃, Bool.true_and, Bool.and_true]

theorem legible_frame {xml front back : Bytes} {shape : Shape} {es₁ es₃ : List Event} {s e : Event} {o₀ : List Bytes}
    (h : Frame xml shape es front back es₁ es₃ s e o₀) :
    (stands Stand.init es).all skipped = (quiet serverTag 0 es₁ && quiet serverTag 1 es₃) := by
  have haround := around_frame h
  rw [skipped_kept haround h.kept, skipped_outside haround.before rfl, skipped_outside haround.after rfl]
  rfl

theorem quiet_data {d : Nat} (hdata : ∀ ev ∈ es, ev.kind = .text) :
    quiet serverTag d es = true ∧ es.foldl depthAfter d = d := by
  obtain ⟨hfold, _, hquiet⟩ := neutral_all (p := ⟨d, false⟩) hdata
  rw [← quiet_stands] at hquiet
  exact ⟨hquiet, (foldl_depth).symm.trans (congrArg Stand.depth hfold)⟩

theorem textOf_dataEvents (v : Bytes) : textOf (dataEvents v) = v := by
  unfold dataEvents
  split
  · next h =>
    rw [h]
    rfl
  · exact List.append_nil v

/-- The address in a document that it has been written to. -/
theorem named_written {es₁ es₃ newline : List Event} {s e : Event} {v t : Bytes} (haround : Around es₁ es₃)
    (hs : s.kind = .start ∧ s.name = serverTag) (he : e.kind = .close ∧ e.name = serverTag)
    (hnewline : ∀ d ∈ newline, d.kind = .text) :
    Named serverTag 0 (es₁ ++ s :: (dataEvents v ++ e :: (es₃ ++ newline))) t ↔
      (quiet serverTag 0 es₁ && quiet serverTag 1 es₃) = true ∧ t = v := by
  have hone : es₁.foldl depthAfter 0 = 1 := (foldl_depth).symm.trans (congrArg Stand.depth haround.stop)
  have hvalue := (@quiet_data (dataEvents v) (1 + 1)) fun _ => mem_dataEvents
  have hnone : ∀ ev ∈ dataEvents v, ¬ isClose serverTag ev := fun ev hev hclose =>
    nomatch (mem_dataEvents hev).symm.trans hclose.1
  have hafter : quiet serverTag ((dataEvents v).foldl depthAfter (1 + 1) - 1) (es₃ ++ newline) = quiet serverTag 1 es₃ := by
    rw [hvalue.2, quiet_append, (quiet_data hnewline).1, Bool.and_true]
  rw [named_iff hs, hone, namedInside_iff he hnone, hafter, textOf_dataEvents, Bool.and_eq_true]
  exact ⟨fun h => ⟨⟨h.1, h.2.2.2.1⟩, h.2.2.2.2⟩, fun h => ⟨h.1.1, by decide, hvalue.1, h.1.2, h.2⟩⟩

/-- What the walk takes in front of the root. -/
theorem coreStep_unseen (h : coreStep c ev = .ok c') (hzero : c.depth = 0) (hunseen : c.rootSeen = false) :
    isRoot settingsTag ev ∨ (ahead ev ∧ c'.depth = 0 ∧ c'.rootSeen = false) := by
  have hnot : ¬ c.rootSeen = true := Bool.eq_false_iff.mp hunseen
  unfold coreStep at h
  cases hkind : ev.kind with
  | doctype =>
    rw [hkind] at h
    cases h
  | ref =>
    rw [hkind] at h
    cases h
  | start =>
    rw [hkind] at h
    dsimp only at h
    rw [if_neg fun hseen => hnot hseen.2, if_pos hzero] at h
    split at h
    · cases h
    · next hname => exact .inl ⟨.inl hkind, not_not.mp hname⟩
  | empty =>
    rw [hkind] at h
    dsimp only at h
    rw [if_pos hzero, if_neg hnot] at h
    split at h
    · cases h
    · next hname => exact .inl ⟨.inr hkind, not_not.mp hname⟩
  | _ =>
    have hahead : ahead ev := by
      unfold ahead
      rw [hkind]
      exact ⟨nofun, nofun, nofun⟩
    rw [hkind] at h
    cases h
    refine .inr ⟨hahead, ?_⟩
    first
    | exact ⟨hzero, hunseen⟩
    | exact ⟨by rw [hzero], hunseen⟩
    | (split <;> exact ⟨hzero, hunseen⟩)

/-- The root of a document, with what is in front of it. -/
theorem root_of_part {o o' : List Bytes} {x : Bytes} (hlex : Lex o x es o') (hfold : es.foldlM coreStep c = .ok c')
    (hzero : c.depth = 0) (hunseen : c.rootSeen = false) (hseen : c'.rootSeen = true) :
    ∃ p t q es₀ ev o₁ o₂, x = p ++ (t ++ q) ∧ Lex o p es₀ o₁ ∧ (∀ ev ∈ es₀, ahead ev) ∧ Token o₁ t ev o₂ ∧
      isRoot settingsTag ev := by
  induction hlex generalizing c with
  | nil =>
    cases hfold
    cases hunseen.symm.trans hseen
  | @cons o o₁ o' a ev rest es hpiece _ ih =>
    obtain ⟨c₁, hstep, hrest⟩ := foldlM_cons_ok.mp hfold
    rcases coreStep_unseen hstep hzero hunseen with hroot | ⟨hahead, hzero₁, hunseen₁⟩
    · cases hpiece with
      | data _ _ => rcases hroot.1 with h | h <;> cases h
      | token htoken => exact ⟨[], a, rest, [], ev, o, o₁, rfl, .nil, nofun, htoken, hroot⟩
    · obtain ⟨p, t, q, es₀, root, o₂, o₃, rfl, hlex, hes₀, htoken, hroot⟩ := ih hrest hzero₁ hunseen₁
      refine ⟨a ++ p, t, q, ev :: es₀, root, o₂, o₃, (List.append_assoc _ _ _).symm, .cons hpiece hlex, ?_, htoken, hroot⟩
      intro y hy
      rcases List.mem_cons.mp hy with rfl | hy
      · exact hahead
      · exact hes₀ y hy

/-- What the receiver reads from a document that the walk takes. -/
theorem configured_of_part {x v : Bytes} (hvalid : Valid x) (hpart : Part [] Walk.init.core x es [] c)
    (hseen : c.rootSeen = true) :
    configuredServer (some x) = some v ↔
      x.length ≤ maxDocument ∧ Named serverTag 0 es v ∧ dialable v = true ∧ Valid v := by
  obtain ⟨p, t, q, es₀, ev, o₁, o₂, hx, hahead, hes₀, htoken, hroot⟩ :=
    root_of_part hpart.lex hpart.folds rfl rfl hseen
  exact Receiver.configuredServer_iff hvalid hx hahead hes₀ htoken hroot hpart.lex (fold_stand hpart.folds).2.2.1

theorem clear_calm (h : calm p es) :
    ((stands p es).all fun x => opens x || passed x) = quiet serverTag p.depth es := by
  rw [quiet_stands, Bool.eq_iff_iff, List.all_eq_true, List.all_eq_true]
  refine forall₂_congr fun x hx => ?_
  rw [h x hx, Bool.false_or]

theorem map_stands : (stands p es).map (·.2) = es := by
  induction es generalizing p with
  | nil => rfl
  | cons ev es ih => rw [stands, List.map_cons, ih]

/-- What the receiver reads from a document whose child holds character data. -/
theorem named_kept {xml t : Bytes} {w : Walk} (h : Finished xml es w) (hraw : w.core.raw ≠ []) :
    Named serverTag 0 es t ↔
      ((stands Stand.init es).all fun x => opens x || passed x) = true ∧
        textOf (((stands Stand.init es).filter (·.1.inside)).map (·.2)) = t := by
  cases h.walked.child h.count with
  | absent _ _ _ _ hnil => exact absurd hnil hraw
  | empty _ _ _ _ hnil _ _ _ => exact absurd hnil hraw
  | inside _ _ hin _ _ _ _ _ _ => exact absurd (hin.symm.trans (finished_out h)) (by decide)
  | @complete a a' b b' rest es₁ es₂ es₃ s e o₀ raw hcount _ _ _ _ hes _ _ _ hstart hinner hclose hafter =>
    obtain ⟨hstand₁, _, _, hcalm₁⟩ := fold_stand hstart.before.folds
    obtain ⟨hstand₂, _, _, hcalm₂⟩ := fold_stand hinner.folds
    obtain ⟨_, _, _, hcalm₃⟩ := fold_stand hafter.folds
    have hcalm₁ : calm Stand.init es₁ := hcalm₁ rfl
    have hcalm₂ : calm ⟨2, true⟩ es₂ := hcalm₂ rfl
    have hcalm₃ : calm ⟨1, false⟩ es₃ := hcalm₃ hcount
    have hstand₁ : es₁.foldl Stand.after Stand.init = ⟨1, false⟩ := hstand₁
    have hstand₂ : es₂.foldl Stand.after ⟨2, true⟩ = ⟨2, true⟩ := hstand₂
    have hs : isStart serverTag s := ⟨hstart.kind, hstart.name⟩
    have he : isClose serverTag e := ⟨hclose.kind, hclose.name⟩
    have hopens := after_serverStart hs
    have hpassed : passed (⟨2, true⟩, e) = true := by
      unfold passed passes
      rw [he.1]
    -- the events of the document, each with where it stands
    have hstands : stands Stand.init es = stands Stand.init es₁ ++
        (⟨1, false⟩, s) :: (stands ⟨2, true⟩ es₂ ++ (⟨2, true⟩, e) :: stands ⟨1, false⟩ es₃) := by
      rw [hes, stands_append, hstand₁, stands, hopens.2, stands_append, hstand₂, stands, after_serverEnd he]
    have hall : ((stands Stand.init es).all fun x => opens x || passed x) =
        (quiet serverTag 0 es₁ && (quiet serverTag 2 es₂ && quiet serverTag 1 es₃)) := by
      rw [hstands, List.all_append, List.all_cons, List.all_append, List.all_cons, hopens.1, hpassed, clear_calm hcalm₁,
        clear_calm hcalm₂, clear_calm hcalm₃, Bool.or_true, Bool.true_or, Bool.true_and, Bool.true_and]
      rfl
    have hfilter : ((stands Stand.init es).filter (·.1.inside)).map (·.2) = es₂ ++ [e] := by
      have hnone₁ : (stands Stand.init es₁).filter (·.1.inside) = [] :=
        List.filter_eq_nil_iff.mpr fun x hx => Bool.eq_false_iff.mp ((calm_outside hcalm₁ rfl).1 x hx)
      have hnone₃ : (stands ⟨1, false⟩ es₃).filter (·.1.inside) = [] :=
        List.filter_eq_nil_iff.mpr fun x hx => Bool.eq_false_iff.mp ((calm_outside hcalm₃ rfl).1 x hx)
      have hall₂ : (stands ⟨2, true⟩ es₂).filter (·.1.inside) = stands ⟨2, true⟩ es₂ :=
        List.filter_eq_self.mpr (calm_inside hcalm₂ (by rw [hstand₂]))
      rw [hstands, List.filter_append, hnone₁, List.nil_append, List.filter_cons_of_neg Bool.false_ne_true, List.filter_append,
        hall₂, List.filter_cons_of_pos rfl, hnone₃, List.map_append, map_stands]
      rfl
    have htext : textOf (es₂ ++ [e]) = textOf es₂ := by
      have hnot : ¬ e.kind = .text := by
        rw [he.1]
        rintro ⟨⟩
      rw [textOf, List.flatMap_append, List.flatMap_cons, List.flatMap_nil, if_neg hnot]
      exact List.append_nil _
    have hone : es₁.foldl depthAfter 0 = 1 := (foldl_depth).symm.trans (congrArg Stand.depth hstand₁)
    have htwo : es₂.foldl depthAfter 2 = 2 := (foldl_depth).symm.trans (congrArg Stand.depth hstand₂)
    rw [hall, hfilter, htext, hes, named_iff hs, hone, namedInside_balanced he hinner.lex, htwo, Bool.and_eq_true,
      Bool.and_eq_true]
    constructor
    · rintro ⟨hq₁, _, hq₂, hq₃, ht⟩
      exact ⟨⟨hq₁, hq₂, hq₃⟩, ht.symm⟩
    · rintro ⟨⟨hq₁, hq₂, hq₃⟩, ht⟩
      exact ⟨hq₁, by decide, hq₂, hq₃, ht.symm⟩

theorem parseServer_ok {xml v : Bytes} (h : parseServer xml = .ok v) :
    ∃ w, Finished xml (eventsOf xml) w ∧ (v ≠ [] → w.core.raw ≠ []) := by
  unfold parseServer at h
  cases hwalk : walk xml with
  | error e =>
    rw [hwalk] at h
    cases h
  | ok p =>
    obtain ⟨shape, text⟩ := p
    rw [hwalk] at h
    obtain ⟨w, hfinished, _, htext⟩ := walk_finished hwalk
    refine ⟨w, hfinished, fun hne hnil => hne ?_⟩
    have hempty : normalizeServer (fromUtf8Lossy []) = .ok [] := by decide +kernel
    rw [← htext, hnil] at h
    exact Except.ok.inj (h.symm.trans hempty)

/-- A document that stays as it is. -/
theorem receiver_reads_kept {xml v : Bytes} (h : parseServer xml = .ok v) (hvalid : Valid v) :
    configuredServer (some xml) = (if v = [] then none else some v) ↔ Agrees xml v := by
  obtain ⟨w, hfinished, hraw⟩ := parseServer_ok h
  have hreads (t : Bytes) := configured_of_part (v := t) hfinished.walked.valid hfinished.walked.part hfinished.seen
  by_cases hnil : v = []
  · rw [if_pos hnil, Option.eq_none_iff_forall_ne_some]
    constructor
    · intro hnone
      refine .inr (.inr ⟨h, hnil, fun t hsize hnamed ht => Bool.eq_false_iff.mpr fun hdial => ?_⟩)
      exact hnone t ((hreads t).mpr ⟨hsize, hnamed, hdial, ht⟩)
    · rintro (⟨hne, _⟩ | ⟨_, hne, _⟩ | ⟨_, _, hnone⟩) t ht
      · exact hne h
      · exact hne hnil
      · obtain ⟨hsize, hnamed, hdial, hvalid⟩ := (hreads t).mp ht
        exact Bool.false_ne_true ((hnone t hsize hnamed hvalid).symm.trans hdial)
  · rw [if_neg hnil, hreads, named_kept hfinished (hraw hnil)]
    constructor
    · rintro ⟨hsize, ⟨hclear, hcontent⟩, hdial, _⟩
      exact .inr (.inl ⟨h, hnil, hsize, hclear, hcontent, hdial⟩)
    · rintro (⟨hne, _⟩ | ⟨_, _, hsize, hclear, hcontent, hdial⟩ | ⟨_, heq, _⟩)
      · exact absurd h hne
      · exact ⟨hsize, ⟨hclear, hcontent⟩, hdial, hvalid⟩
      · exact absurd heq hnil

/-- A document that gets the address written. -/
theorem receiver_reads_written {value : String} {xml v out : Bytes} (hv : normalizeServer value = .ok v)
    (h : updateSettingsXml xml v = .ok (some out)) :
    configuredServer (some out) = (if v = [] then none else some v) ↔ Agrees xml v := by
  obtain ⟨hvalid, hdata⟩ := normalized_data hv
  obtain ⟨shape, text, hwalk, rfl, hsize, hne⟩ := updateSettingsXml_some h
  obtain ⟨w, hfinished, rfl, _⟩ := walk_finished hwalk
  obtain ⟨front, back, es₁, es₃, s, e, o₀, hframe⟩ := exists_frame hfinished
  obtain ⟨newline, hnewline, hpart⟩ := lex_terminated hframe hdata
  have hreads (t : Bytes) : configuredServer (some (terminated (splice xml w.shape v))) = some t ↔
      legible xml = true ∧ t = v ∧ dialable t = true ∧ Valid t := by
    rw [configured_of_part (valid_terminated hframe hvalid) hpart rfl,
      named_written (around_frame hframe) hframe.start hframe.close hnewline, ← legible_frame hframe, and_assoc]
    exact ⟨fun h => h.2, fun h => ⟨hsize, h⟩⟩
  by_cases hnil : v = []
  · rw [if_pos hnil, Option.eq_none_iff_forall_ne_some]
    refine ⟨fun _ => .inl ⟨hne, .inl hnil⟩, fun _ t ht => ?_⟩
    obtain ⟨_, rfl, hdial, _⟩ := (hreads t).mp ht
    rw [hnil] at hdial
    exact absurd hdial (by decide)
  · rw [if_neg hnil, hreads]
    constructor
    · rintro ⟨hlegible, _, hdial, _⟩
      exact .inl ⟨hne, .inr ⟨hlegible, hdial⟩⟩
    · rintro (⟨_, heq | ⟨hlegible, hdial⟩⟩ | ⟨heq, _⟩ | ⟨heq, _⟩)
      · exact absurd heq hnil
      · exact ⟨hlegible, rfl, hdial, hvalid⟩
      · exact absurd heq hne
      · exact absurd heq hne

end AgreementLemmas

open AgreementLemmas

/-- **When the receiver reads what the Web frontend saved.** For every text that normalises to
an address and every document that the update takes, the receiver reads that address (or
none, when it is empty) from the document that results exactly when the two readers agree on
it: nothing around the edited element puts the receiver off, and it can dial the address; and
when the document stays as it was, its element says the address to the letter. -/
theorem receiver_reads_iff (value : String) (v : Bytes) (hv : normalizeServer value = .ok v) (xml : Bytes)
    (update : Option Bytes) (hupdate : updateSettingsXml xml v = .ok update) :
    configuredServer (some (update.getD xml)) = (if v = [] then none else some v) ↔ Agrees xml v := by
  cases update with
  | none => exact receiver_reads_kept (updateSettingsXml_none.mp hupdate) (normalized_data hv).1
  | some out => exact receiver_reads_written hv hupdate

theorem new_server_read :
    configuredServer (some (utf8 "<Settings><DiscoveryServer>omt://new.example:6399</DiscoveryServer></Settings>\n")) =
      some (utf8 "omt://new.example:6399") :=
  (receiver_reads_iff "new.example" (utf8 "omt://new.example:6399") (by decide +kernel) (utf8 "<Settings></Settings>")
    (some (utf8 "<Settings><DiscoveryServer>omt://new.example:6399</DiscoveryServer></Settings>\n"))
    (by decide +kernel)).mpr (.inl ⟨by decide +kernel, .inr ⟨by decide +kernel, by decide +kernel⟩⟩)

/-- An instruction, which the Web frontend skips and the receiver refuses. -/
theorem instruction_hides_server :
    normalizeServer "new.example" = .ok (utf8 "omt://new.example:6399") ∧
      updateSettingsXml (utf8 "<Settings><?note x?></Settings>") (utf8 "omt://new.example:6399") =
        .ok (some (utf8
          "<Settings><?note x?><DiscoveryServer>omt://new.example:6399</DiscoveryServer></Settings>\n")) ∧
      configuredServer (some (utf8
        "<Settings><?note x?><DiscoveryServer>omt://new.example:6399</DiscoveryServer></Settings>\n")) = none := by
  decide +kernel

end OmtClient.Web.Network
