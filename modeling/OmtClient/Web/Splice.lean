import OmtClient.Common.XmlUnique
import OmtClient.Web.Settings

/-!
# What an update leaves alone

`update_settings_xml` of `crates/omt-web/src/network.rs` against what it is for: the new document
is the old one with another content of the `DiscoveryServer` child of the root, or with that child
where there was none (`Edit`). A self-closing tag becomes a start tag with what stood behind its
name, and gets an end tag.

The update writes the self-closing tags that it opens anew, so that it drops what stood behind
their names.

1. `marks_edit`: an edit keeps what stands behind the names in the tags of the root and of the
   child.
2. `edit_of_bare`: where the tag that is opened is bare, the update is an edit.
3. `update_frame`: it is one only there.
4. `attribute_lost`: a document that loses an attribute.
-/

namespace OmtClient.Web.Network

open OmtClient.Lib OmtClient.Common OmtClient.Common.Xml OmtClient.Common.Xml.XmlLemmas
  OmtClient.Common.Xml.UniqueLemmas SettingsLemmas

/-! ## Edits -/

/-- `Edit v xml new`: `new` is `xml` but for the content `v` of the child of the root that names the
server, or but for that child. The events are those of the parts, with the names that are open
between them, innermost first. -/
inductive Edit (v : Bytes) : Bytes → Bytes → Prop
  /-- Between the tags of the child. -/
  | content {root front b back : Bytes} {es₁ es₂ es₃ : List Event} {s e : Event}
    (hfront : Lex [] front (es₁ ++ [s]) [serverTag, root]) (hstart : s.kind = .start)
    (hinner : Lex [serverTag, root] b es₂ [serverTag, root]) (hback : Lex [serverTag, root] back (e :: es₃) [])
    (hend : untilEnd 0 (es₂ ++ e :: es₃) = some es₂) :
    Edit v (front ++ (b ++ back)) (front ++ (v ++ back))
  /-- In a self-closing child. -/
  | opened {root a inner rest : Bytes} {es₁ es₃ : List Event} (hfront : Lex [] a es₁ [root])
    (hempty : TagText serverTag (inner ++ [47])) (hopen : TagText serverTag inner) (hlast : inner.getLast? ≠ some 47)
    (hrest : Lex [root] rest es₃ []) :
    Edit v (a ++ (60 :: (serverTag ++ (inner ++ [47] ++ [62])) ++ rest))
      (a ++ (60 :: (serverTag ++ (inner ++ [62])) ++ (v ++ (utf8 "</DiscoveryServer>" ++ rest))))
  /-- A child in a self-closing root. -/
  | filled {root a inner rest before after : Bytes} {es₁ es₃ : List Event} (hfront : Lex [] a es₁ [])
    (hempty : TagText root (inner ++ [47])) (hopen : TagText root inner) (hlast : inner.getLast? ≠ some 47)
    (hfirst : root.head? ≠ some 33 ∧ root.head? ≠ some 63) (hrest : Lex [] rest es₃ [])
    (hblank : ∀ c ∈ before ++ after, isSpace c = true) :
    Edit v (a ++ (60 :: (root ++ (inner ++ [47] ++ [62])) ++ rest))
      (a ++ (60 :: (root ++ (inner ++ [62])) ++ (before ++ (element v ++ (after ++
        (60 :: 47 :: (root ++ [62]) ++ rest))))))
  /-- A child in the root. -/
  | inserted {root a b before after : Bytes} {es₁ es₃ : List Event} (hfront : Lex [] a es₁ [root])
    (hrest : Lex [root] b es₃ []) (hblank : ∀ c ∈ before ++ after, isSpace c = true) :
    Edit v (a ++ b) (a ++ (before ++ (element v ++ (after ++ b))))

/-- The new document is an edit of the old one, but for a final newline. -/
def Framed (v xml out : Bytes) : Prop := ∃ new, Edit v xml new ∧ (out = new ∨ out = new ++ [10])

/-- The self-closing tag that the update opens, if any, has nothing behind its name. -/
def Bare (xml : Bytes) (shape : Shape) : Prop :=
  shape.hasElement = false →
    (shape.hasEmpty = true → (xml.take shape.emptyEnd).drop shape.emptyStart = utf8 "<DiscoveryServer/>") ∧
    (shape.hasEmpty = false → shape.rootEmpty = true →
      (xml.take shape.rootEnd).drop shape.rootStart = utf8 "<Settings/>")

/-! ## What stands in the tags -/

/-- How deep it is behind an event. -/
def level (depth : Nat) (ev : Event) : Nat :=
  if ev.kind = .start then depth + 1 else if ev.kind = .close then depth - 1 else depth

/-- What stands behind the name in a tag of the root or of its child. -/
def mark (depth : Nat) (ev : Event) : Bytes :=
  if (ev.kind = .start ∨ ev.kind = .empty) ∧ (depth = 0 ∨ depth = 1 ∧ ev.name = serverTag) then ev.content else []

/-- All of it. -/
def marks : Nat → List Event → Bytes
  | _, [] => []
  | depth, ev :: es => mark depth ev ++ marks (level depth ev) es

namespace SpliceLemmas

variable {o o' : List Bytes} {x y t v : Bytes} {es es' : List Event} {ev : Event} {d : Nat}

theorem marks_append (h : Lex o x es o') (fs : List Event) :
    marks o.length (es ++ fs) = marks o.length es ++ marks o'.length fs := by
  induction h with
  | nil => rfl
  | @cons o o₁ o' t ev rest es hpiece _ ih =>
    have hlevel : level o.length ev = o₁.length := by
      rw [level]
      rcases piece_opened hpiece with ⟨hkind, rfl⟩ | ⟨hkind, rfl⟩ | ⟨hstart, hclose, rfl⟩
      · rw [if_pos hkind]
        rfl
      · rw [if_neg (by rw [hkind]; decide), if_pos hkind]
        rfl
      · rw [if_neg hstart, if_neg hclose]
    rw [List.cons_append, marks, marks, hlevel, ih, List.append_assoc]

/-- The loop that collects them. -/
def marksStep (c : Nat × Bytes) (ev : Event) : Except Unit (Nat × Bytes) := .ok (level c.1 ev, c.2 ++ mark c.1 ev)

theorem fold_marks (es : List Event) : ∀ d acc, ∃ d', es.foldlM marksStep (d, acc) = .ok (d', acc ++ marks d es) := by
  induction es with
  | nil =>
    intro d acc
    exact ⟨d, by rw [marks, List.append_nil]; rfl⟩
  | cons ev es ih =>
    intro d acc
    obtain ⟨d', hd'⟩ := ih (level d ev) (acc ++ mark d ev)
    refine ⟨d', ?_⟩
    rw [marks, ← List.append_assoc]
    exact hd'

/-- However a document is read, the same stands in its tags. -/
theorem marks_unique (h : Lex o x es o') {o'' : List Bytes} (h' : Lex o x es' o'') (d : Nat) : marks d es = marks d es' := by
  have hadd : Additive marksStep := by
    intro c a b _ _
    show Except.ok _ = Except.ok _
    have hmark (d : Nat) (t : Bytes) : mark d ⟨.text, [], t⟩ = [] := if_neg (by rintro ⟨h | h, -⟩ <;> cases h)
    simp only [hmark, List.append_nil]
    rfl
  have hscan := (@scan_lex _ _ (fun _ => ()) marksStep) hadd h (Nat.lt_succ_self _) (d, [])
  have hscan' := (@scan_lex _ _ (fun _ => ()) marksStep) hadd h' (Nat.lt_succ_self _) (d, [])
  obtain ⟨d₁, h₁⟩ := fold_marks es d []
  obtain ⟨d₂, h₂⟩ := fold_marks es' d []
  have heq := hscan.symm.trans hscan'
  rw [h₁, h₂] at heq
  exact (Prod.mk.inj (Except.ok.inj heq)).2

theorem mark_deep (ev : Event) (h : 2 ≤ d) : mark d ev = [] := by
  refine if_neg ?_
  rintro ⟨-, h0 | ⟨h1, -⟩⟩ <;> omega

/-- Nothing inside the child is marked. -/
theorem marks_inside {rest : List Event} : ∀ {k : Nat} {es : List Event}, untilEnd k (es ++ rest) = some es → marks (k + 2) es = [] := by
  intro k es
  induction es generalizing k with
  | nil => exact fun _ => rfl
  | cons ev es ih =>
    intro h
    rw [List.cons_append, untilEnd] at h
    have hstep {j : Nat} (h : (untilEnd j (es ++ rest)).map (ev :: ·) = some (ev :: es)) (hlevel : level (k + 2) ev = j + 2) :
        marks (k + 2) (ev :: es) = [] := by
      obtain ⟨es', hes', heq⟩ := Option.map_eq_some_iff.mp h
      obtain rfl := (List.cons.inj heq).2
      rw [marks, mark_deep ev (Nat.le_add_left 2 k), hlevel, ih hes']
      rfl
    by_cases hclose : ev.kind = .close
    · rw [if_pos hclose] at h
      by_cases hzero : k = 0
      · rw [if_pos hzero] at h
        cases h
      · rw [if_neg hzero] at h
        refine hstep h ?_
        rw [level, if_neg (by rw [hclose]; decide), if_pos hclose]
        omega
    · rw [if_neg hclose] at h
      by_cases hstart : ev.kind = .start
      · rw [if_pos hstart] at h
        refine hstep h ?_
        rw [level, if_pos hstart]
      · rw [if_neg hstart] at h
        refine hstep h ?_
        rw [level, if_neg hstart, if_neg hclose]

theorem data_of_blank (h : ∀ c ∈ t, isSpace c = true) : ∀ c ∈ t, isData c = true := by
  intro c hc
  have hspace := h c hc
  simp only [isSpace, Bool.or_eq_true, beq_iff_eq] at hspace
  rcases hspace with ((rfl | rfl) | rfl) | rfl
  · rfl
  · rfl
  · rfl
  · rfl

/-- The events of the child as the update writes it. -/
def elementEvents (v : Bytes) : List Event := ⟨.start, serverTag, []⟩ :: (dataEvents v ++ [⟨.close, serverTag, []⟩])

theorem lex_element (hone : o.length = 1) (hdata : ∀ b ∈ v, isData b = true) : Lex o (element v) (elementEvents v) o := by
  rw [element, List.append_assoc, elementEvents]
  exact .cons (piece_serverStart hone) (.append (.data hdata) (.single piece_serverEnd))

/-- An event that is followed by others. -/
theorem marks_start {ev : Event} (hkind : ev.kind = .start) (hat : d = 0 ∨ d = 1 ∧ ev.name = serverTag) (es : List Event) :
    marks d (ev :: es) = ev.content ++ marks (d + 1) es := by
  rw [marks, mark, if_pos ⟨.inl hkind, hat⟩, level, if_pos hkind]

theorem marks_empty {ev : Event} (hkind : ev.kind = .empty) (hat : d = 0 ∨ d = 1 ∧ ev.name = serverTag) (es : List Event) :
    marks d (ev :: es) = ev.content ++ marks d es := by
  rw [marks, mark, if_pos ⟨.inr hkind, hat⟩, level, if_neg (by rw [hkind]; decide), if_neg (by rw [hkind]; decide)]

theorem marks_close {ev : Event} (hkind : ev.kind = .close) (es : List Event) :
    marks (d + 1) (ev :: es) = marks d es := by
  rw [marks, mark, if_neg (by rintro ⟨h | h, -⟩ <;> exact absurd (hkind.symm.trans h) (by decide)), level,
    if_neg (by rw [hkind]; decide), if_pos hkind]
  rfl

/-- Character data in front of other events. -/
theorem marks_after_data (d : Nat) (t : Bytes) (es : List Event) : marks d (dataEvents t ++ es) = marks d es := by
  rw [dataEvents]
  split
  · rfl
  · have hmark : mark d ⟨.text, [], t⟩ = [] := if_neg (by rintro ⟨h | h, -⟩ <;> cases h)
    rw [List.cons_append, marks, hmark]
    rfl

theorem marks_after_element (v : Bytes) (es : List Event) : marks 1 (elementEvents v ++ es) = marks 1 es := by
  rw [elementEvents, List.cons_append, marks_start rfl (.inr ⟨rfl, rfl⟩), List.append_assoc, marks_after_data,
    List.cons_append, marks_close rfl]
  rfl

/-- An edit keeps what stands in the tags. -/
theorem marks_edit (h : Edit v x y) (hdata : ∀ b ∈ v, isData b = true) :
    ∃ es es', Lex [] x es [] ∧ Lex [] y es' [] ∧ marks 0 es = marks 0 es' := by
  have hnil (fs : List Event) : marks 0 fs = marks ([] : List Bytes).length fs := rfl
  cases h with
  | @content root front b back es₁ es₂ es₃ s e hfront hstart hinner hback hend =>
    refine ⟨_, _, hfront.append (hinner.append hback), hfront.append ((Lex.data hdata).append hback), ?_⟩
    have hnone : marks [serverTag, root].length es₂ = [] := marks_inside hend
    rw [hnil, hnil, marks_append hfront, marks_append hfront, marks_append hinner, hnone, marks_after_data]
    rfl
  | @opened root a inner rest es₁ es₃ hfront hempty hopen hlast hrest =>
    have hroom : 1 < stack := by decide
    have hempty' : Piece [root] (60 :: (serverTag ++ (inner ++ [47] ++ [62]))) ⟨.empty, serverTag, inner⟩ [root] :=
      .token (.empty hempty (by decide))
    have hopen' : Piece [root] (60 :: (serverTag ++ (inner ++ [62]))) ⟨.start, serverTag, inner⟩ (serverTag :: [root]) :=
      .token (.start hopen (by decide) hlast hroom)
    refine ⟨_, _, hfront.append (.cons hempty' hrest),
      hfront.append (.cons hopen' ((Lex.data hdata).append (.cons piece_serverEnd hrest))), ?_⟩
    rw [hnil, hnil, marks_append hfront, marks_append hfront]
    show _ ++ marks 1 _ = _ ++ marks 1 _
    rw [marks_empty rfl (.inr ⟨rfl, rfl⟩), marks_start rfl (.inr ⟨rfl, rfl⟩), marks_after_data, marks_close rfl]
  | @filled root a inner rest before after es₁ es₃ hfront hempty hopen hlast hfirst hrest hblank =>
    have hblanks := data_of_blank hblank
    have hempty' : Piece [] (60 :: (root ++ (inner ++ [47] ++ [62]))) ⟨.empty, root, inner⟩ [] :=
      .token (.empty hempty hfirst)
    have hopen' : Piece [] (60 :: (root ++ (inner ++ [62]))) ⟨.start, root, inner⟩ [root] :=
      .token (.start hopen hfirst hlast (by decide))
    have hclose' : Piece [root] (60 :: 47 :: (root ++ [62])) ⟨.close, root, []⟩ [] :=
      piece_close ⟨hopen.ne_nil, hopen.named, by rintro b ⟨⟩, rfl⟩
    refine ⟨_, _, hfront.append (.cons hempty' hrest), hfront.append (.cons hopen'
      ((Lex.data fun c hc => hblanks c (List.mem_append_left _ hc)).append ((lex_element rfl hdata).append
        ((Lex.data fun c hc => hblanks c (List.mem_append_right _ hc)).append (.cons hclose' hrest))))), ?_⟩
    rw [hnil, hnil, marks_append hfront, marks_append hfront]
    show _ ++ marks 0 _ = _ ++ marks 0 _
    rw [marks_empty rfl (.inl rfl), marks_start rfl (.inl rfl), marks_after_data, marks_after_element, marks_after_data,
      marks_close rfl]
  | @inserted root a b before after es₁ es₃ hfront hrest hblank =>
    have hblanks := data_of_blank hblank
    refine ⟨_, _, hfront.append hrest, hfront.append
      ((Lex.data fun c hc => hblanks c (List.mem_append_left _ hc)).append ((lex_element rfl hdata).append
        ((Lex.data fun c hc => hblanks c (List.mem_append_right _ hc)).append hrest))), ?_⟩
    rw [hnil, hnil, marks_append hfront, marks_append hfront]
    show _ ++ marks 1 _ = _ ++ marks 1 _
    rw [marks_after_data, marks_after_element, marks_after_data]

/-- So does a final newline. -/
theorem marks_framed {out : Bytes} (h : Framed v x out) (hdata : ∀ b ∈ v, isData b = true) (hx : Lex [] x es [])
    (hout : Lex [] out es' []) : marks 0 es = marks 0 es' := by
  obtain ⟨new, hedit, hnew⟩ := h
  obtain ⟨fs, fs', hfs, hfs', heq⟩ := marks_edit hedit hdata
  rw [marks_unique hx hfs, heq]
  rcases hnew with rfl | rfl
  · exact marks_unique hfs' hout 0
  · have hline : Lex [] [10] (dataEvents [10]) [] := .data (by decide)
    rw [marks_unique hout (hfs'.append hline), show marks 0 (fs' ++ _) = _ from marks_append hfs' _]
    exact (List.append_nil _).symm

/-! ## The parts of the document -/

/-- One event for the walk, in terms of its core. -/
theorem core_move {o₁ : List Bytes} {c c₁ : Core} (hpiece : Piece o t ev o₁) (hdepth : c.depth = o.length)
    (h : coreStep c ev = .ok c₁) : ∃ w', Move 0 o ⟨c, Walk.init.shape⟩ 0 ev 0 o₁ w' ∧ w'.core = c₁ := by
  have hstep : walkStep 0 ⟨c, Walk.init.shape⟩ 0 ev 0 = .ok ⟨c₁, shapeStep 0 c Walk.init.shape 0 ev 0⟩ := by
    rw [walkStep, h]
    rfl
  exact ⟨_, walkStep_move hpiece hdepth hstep, rfl⟩

theorem fold_cons {c c' : Core} (h : (ev :: es).foldlM coreStep c = .ok c') :
    ∃ c₁, coreStep c ev = .ok c₁ ∧ es.foldlM coreStep c₁ = .ok c' := foldlM_cons_ok.mp h

theorem count_mono (es : List Event) : ∀ {c c' : Core}, es.foldlM coreStep c = .ok c' →
    c.discoveryCount ≤ c'.discoveryCount := by
  induction es with
  | nil =>
    rintro c c' ⟨⟩
    exact Nat.le_refl _
  | cons ev es ih =>
    intro c c' h
    obtain ⟨c₁, hstep, hrest⟩ := fold_cons h
    obtain ⟨s, k, -, hk, -⟩ := coreStep_shift hstep
    exact le_trans (hk ▸ Nat.le_add_right _ _) (ih hrest)

/-- The walk enters a child only by counting it. -/
theorem enters_counts (h : Lex o x es o') : ∀ {c c' : Core}, c.depth = o.length → es.foldlM coreStep c = .ok c' →
    c.inDiscovery = false → c'.inDiscovery = true → c.discoveryCount < c'.discoveryCount := by
  induction h with
  | nil =>
    rintro c c' - ⟨⟩ hout hin
    exact absurd (hout.symm.trans hin) (by decide)
  | @cons o o₁ o' t ev rest es hpiece _ ih =>
    intro c c' hdepth hfold hout hin
    obtain ⟨c₁, hstep, hrest⟩ := fold_cons hfold
    obtain ⟨w', hmove, rfl⟩ := core_move hpiece hdepth hstep
    have hdepth' := move_depth hmove hdepth
    have hkeep (hsame : w'.core.inDiscovery = c.inDiscovery) : c.discoveryCount < c'.discoveryCount := by
      have hlater := ih hdepth' hrest (hsame.trans hout) hin
      obtain ⟨s, k, -, hk, -⟩ := coreStep_shift hstep
      omega
    cases hmove with
    | openServer _ _ _ => exact count_mono es hrest
    | skip => exact hkeep rfl
    | collect _ _ _ => exact hkeep rfl
    | openRoot _ _ _ _ => exact hkeep rfl
    | openOther _ _ _ => exact hkeep rfl
    | emptyRoot _ _ _ _ => exact hkeep rfl
    | emptyServer _ _ _ => exact hkeep rfl
    | closeRoot _ _ _ => exact hkeep rfl
    | closeServer _ _ _ _ => exact hkeep hout.symm
    | closeOther _ _ _ _ => exact hkeep rfl

/-- What is read inside the child is what it holds: its end tag comes next. -/
theorem untilEnd_inner {o₀ : List Bytes} {e : Event} {raw : Bytes} (he : e.kind = .close) (rest : List Event)
    (h : Lex o x es o') : ∀ {k : Nat} {pre : List Bytes} {c : Core}, o = pre ++ serverTag :: o₀ → pre.length = k →
      o₀.length = 1 → c.depth = o.length → c.inDiscovery = true → c.discoveryCount = 1 →
      es.foldlM coreStep c = .ok (inServer raw) → untilEnd k (es ++ e :: rest) = some es := by
  induction h with
  | nil =>
    rintro k pre c rfl rfl hone hdepth hin hcount ⟨⟩
    have hnil : pre.length = 0 := by
      rw [List.length_append, List.length_cons, hone] at hdepth
      exact (Nat.add_right_cancel (show 0 + 2 = pre.length + 2 from hdepth)).symm
    rw [hnil, List.nil_append, untilEnd, if_pos he]
    rfl
  | @cons o o₁ o' t ev rest' es hpiece hlex ih =>
    intro k pre c ho hk hone hdepth hin hcount hfold
    obtain ⟨c₁, hstep, hrest⟩ := fold_cons hfold
    obtain ⟨w', hmove, rfl⟩ := core_move hpiece hdepth hstep
    have hdepth' := move_depth hmove hdepth
    have htwo : c.depth = k + 2 := by
      rw [hdepth, ho, List.length_append, List.length_cons, hone, hk]
    have hplain (hopen : o₁ = o) (hin' : w'.core.inDiscovery = true) (hcount' : w'.core.discoveryCount = 1) :
        untilEnd k (ev :: es ++ e :: rest) = some (ev :: es) := by
      rcases piece_opened hpiece with ⟨-, h⟩ | ⟨-, h⟩ | ⟨hstart, hclose, -⟩
      · exact absurd (congrArg List.length (hopen.symm.trans h)) (Nat.ne_of_lt (Nat.lt_succ_self _))
      · exact absurd (congrArg List.length (hopen.trans h)) (Nat.ne_of_lt (Nat.lt_succ_self _))
      · rw [List.cons_append, untilEnd, if_neg hclose, if_neg hstart,
          ih (hopen.trans ho) hk hone hdepth' hin' hcount' hrest]
        rfl
    cases hmove with
    | skip => exact hplain rfl hin hcount
    | collect _ _ _ => exact hplain rfl hin hcount
    | openRoot _ hzero _ _ => exact absurd (htwo.symm.trans hzero) (Nat.succ_ne_zero _)
    | openServer _ h1 _ => exact absurd (htwo.symm.trans h1) (by omega)
    | openOther hkind _ _ =>
      have hopen : ev.name :: o = (ev.name :: pre) ++ serverTag :: o₀ := by rw [ho, List.cons_append]
      rw [List.cons_append, untilEnd, if_neg (by rw [hkind]; decide), if_pos hkind,
        ih hopen (by rw [List.length_cons, hk]) hone hdepth' hin hcount hrest]
      rfl
    | emptyRoot _ hzero _ _ => exact absurd (htwo.symm.trans hzero) (Nat.succ_ne_zero _)
    | emptyServer _ h1 _ => exact absurd (htwo.symm.trans h1) (by omega)
    | closeRoot _ h1 _ => exact absurd (htwo.symm.trans h1) (by omega)
    | closeServer _ _ _ _ =>
      -- having left the child, the walk would have to count a second one to be in it again
      have hmore := enters_counts hlex hdepth' hrest rfl rfl
      dsimp only [inServer] at hmore
      omega
    | closeOther hkind _ hother hopen =>
      cases pre with
      | nil =>
        obtain rfl : k = 0 := hk.symm
        refine absurd ⟨htwo, ?_⟩ hother
        rw [List.nil_append, hopen] at ho
        exact (List.cons.inj ho).1
      | cons p pre =>
        rw [hopen, List.cons_append] at ho
        rw [List.length_cons] at hk
        rw [List.cons_append, untilEnd, if_pos hkind, if_neg (by omega),
          ih (List.cons.inj ho).2 (show pre.length = k - 1 by omega) hone hdepth' hin hcount hrest]
        rfl

/-- The piece of a self-closing tag. -/
theorem piece_selfClosing (h : Piece o t ev o') (hkind : ev.kind = .empty) :
    ∃ name inner, t = 60 :: (name ++ (inner ++ [47] ++ [62])) ∧ ev = ⟨.empty, name, inner⟩ ∧
      TagText name (inner ++ [47]) ∧ (name.head? ≠ some 33 ∧ name.head? ≠ some 63) := by
  cases h with
  | data _ _ => cases hkind
  | token htoken =>
    cases htoken with
    | empty htag hfirst => exact ⟨_, _, rfl, rfl, htag, hfirst⟩
    | instruction _ =>
      split at hkind <;> cases hkind
    | _ => cases hkind

theorem terminated_cases (out : Bytes) : terminated out = out ∨ terminated out = out ++ [10] := by
  rw [terminated]
  split
  · exact .inl rfl
  · exact .inr rfl

/-- A document with a final newline has the same tags. -/
theorem lex_terminated_marks {out : Bytes} (h : Lex [] out es []) :
    ∃ es', Lex [] (terminated out) es' [] ∧ marks 0 es' = marks 0 es := by
  rcases terminated_cases out with heq | heq
  · exact ⟨es, by rw [heq]; exact h, rfl⟩
  · refine ⟨es ++ dataEvents [10], by rw [heq]; exact h.append (.data (by decide)), ?_⟩
    rw [show marks 0 (es ++ _) = _ from marks_append h _]
    exact List.append_nil _

/-- An update that is an edit up to a final newline keeps the tags of what it writes. -/
theorem marks_kept {out : Bytes} (h : Framed v x (terminated out)) (hdata : ∀ b ∈ v, isData b = true)
    (hx : Lex [] x es []) (hout : Lex [] out es' []) : marks 0 es = marks 0 es' := by
  obtain ⟨fs, hfs, heq⟩ := lex_terminated_marks hout
  rw [← heq]
  exact marks_framed h hdata hx hfs

theorem framed_of_edit {out : Bytes} (h : Edit v x out) : Framed v x (terminated out) := ⟨out, h, terminated_cases out⟩

variable {w : Walk} {xml : Bytes}

/-- Between the tags of the child only its content is replaced. -/
theorem framed_element (h : Finished xml es w) (helement : w.shape.hasElement = true) (hcount : w.core.discoveryCount = 1)
    {a t b t' rest raw : Bytes} {es₁ es₂ es₃ : List Event} {s e : Event} {o₀ : List Bytes} (hraw : w.core.raw = raw)
    (hdone : xml = a ++ (t ++ (b ++ (t' ++ rest)))) (hes : es = es₁ ++ s :: (es₂ ++ e :: es₃))
    (hcontent : w.shape.contentStart = (a ++ t).length) (hend : w.shape.contentEnd = (a ++ (t ++ b)).length)
    (hvalid : Valid (a ++ (t ++ b))) (hstart : ServerStart a t es₁ s o₀)
    (hinner : Part (serverTag :: o₀) (inServer []) b es₂ (serverTag :: o₀) (inServer raw))
    (hclose : ServerEnd t' e o₀) (hafter : Part o₀ (behindServer raw) rest es₃ [] w.core) :
    Edit v xml (splice xml w.shape v) := by
  have hframe := frame_element h helement hcount hraw hdone hes hcontent hend hvalid hstart hinner hclose hafter
  obtain ⟨root, rfl⟩ := List.length_eq_one_iff.mp hstart.one
  have hxml : xml = (a ++ t) ++ (b ++ (t' ++ rest)) := by rw [hdone, List.append_assoc]
  rw [hframe.spliced v]
  nth_rewrite 1 [hxml]
  exact .content hframe.before.lex hstart.kind hinner.lex (.cons hclose.piece hafter.lex)
    (untilEnd_inner hclose.kind es₃ hinner.lex (List.nil_append _).symm rfl rfl rfl rfl rfl hinner.folds)

/-- The parts of a document around a piece, by its positions. -/
theorem cut_at {a t rest : Bytes} {start stop : Nat} (hdone : xml = a ++ (t ++ rest)) (hstart : start = a.length)
    (hstop : stop = (a ++ t).length) :
    xml.take start = a ∧ xml.drop stop = rest ∧ (xml.take stop).drop start = t := by
  have hwhole : xml = (a ++ t) ++ rest := by rw [hdone, List.append_assoc]
  refine ⟨?_, ?_, ?_⟩
  · rw [hstart, hdone, List.take_left]
  · rw [hstop, hwhole, List.drop_left]
  · rw [hstart, hstop, hwhole, List.take_left, List.drop_left]

theorem bare_inner {name inner whole : Bytes} (hwhole : whole.length = name.length + 3)
    (hbare : 60 :: (name ++ (inner ++ [47] ++ [62])) = whole) : inner = [] := by
  have hlen := congrArg List.length hbare
  simp only [List.length_cons, List.length_append, List.length_nil] at hlen
  exact List.length_eq_zero_iff.mp (by omega)

/-- A self-closing child is opened as it is only where it is bare. -/
theorem framed_empty {o₁ : List Bytes} {ev : Event} (helement : w.shape.hasElement = false)
    (hempty : w.shape.hasEmpty = true) (hone : o₁.length = 1) (hkind : ev.kind = .empty)
    (hmark : Mark xml es [] w.core w.shape.emptyStart w.shape.emptyEnd o₁ ⟨1, 0, true, false, []⟩ ev o₁
      (behindServer [])) (hdata : ∀ b ∈ v, isData b = true) :
    Framed v xml (terminated (splice xml w.shape v)) ↔
      (xml.take w.shape.emptyEnd).drop w.shape.emptyStart = utf8 "<DiscoveryServer/>" := by
  obtain @⟨a, t, rest, es₁, es₃, hdone, hes, hstart, hstop, -, hbefore, hpiece, hstep, hafter⟩ := hmark
  obtain ⟨root, rfl⟩ := List.length_eq_one_iff.mp hone
  obtain ⟨htake, hdrop, hspan⟩ := cut_at hdone hstart hstop
  obtain ⟨name, inner, rfl, rfl, htag, -⟩ := piece_selfClosing hpiece hkind
  obtain rfl : name = serverTag := by
    by_contra hne
    have hpass : coreStep ⟨1, 0, true, false, []⟩ ⟨.empty, name, inner⟩ = .ok ⟨1, 0, true, false, []⟩ := by
      unfold coreStep
      dsimp only
      rw [if_neg (by decide), if_neg (fun h => hne h.2)]
    cases hpass.symm.trans hstep
  have hsplice : splice xml w.shape v = a ++ (element v ++ rest) := by
    rw [splice, if_neg (Bool.eq_false_iff.mp helement), if_pos hempty, htake, hdrop, List.append_assoc]
  rw [hspan, hsplice]
  constructor
  · intro hframed
    have hmarks := marks_kept hframed hdata
      (hdone ▸ hbefore.lex.append (.cons hpiece hafter.lex)) (hbefore.lex.append ((lex_element rfl hdata).append hafter.lex))
    rw [show marks 0 (es₁ ++ _) = _ from marks_append hbefore.lex _,
      show marks 0 (es₁ ++ _) = _ from marks_append hbefore.lex _] at hmarks
    have hrest := List.append_cancel_left hmarks
    have hread : inner ++ marks 1 es₃ = marks 1 (elementEvents v ++ es₃) :=
      (marks_empty rfl (.inr ⟨rfl, rfl⟩) es₃).symm.trans hrest
    rw [marks_after_element] at hread
    obtain rfl : inner = [] := List.append_left_eq_self.mp hread
    decide
  · intro hbare
    obtain rfl := bare_inner (by decide) hbare
    refine framed_of_edit ?_
    rw [hdone]
    have hopen : element v ++ rest = 60 :: (serverTag ++ ([] ++ [62])) ++ (v ++ (utf8 "</DiscoveryServer>" ++ rest)) := by
      rw [element, serverOpen]
      simp only [List.append_assoc]
      rfl
    rw [hopen]
    exact .opened hbefore.lex htag serverTag_text (by decide) hafter.lex

/-- So is a self-closing root. -/
theorem framed_root {ev : Event} (helement : w.shape.hasElement = false)
    (hempty : w.shape.hasEmpty = false) (hroot : w.shape.rootEmpty = true) (hkind : ev.kind = .empty)
    (hmark : Mark xml es [] w.core w.shape.rootStart w.shape.rootEnd [] Walk.init.core ev [] ⟨0, 0, true, false, []⟩)
    (hdata : ∀ b ∈ v, isData b = true) :
    Framed v xml (terminated (splice xml w.shape v)) ↔
      (xml.take w.shape.rootEnd).drop w.shape.rootStart = utf8 "<Settings/>" := by
  obtain @⟨a, t, rest, es₁, es₃, hdone, hes, hstart, hstop, -, hbefore, hpiece, hstep, hafter⟩ := hmark
  obtain ⟨htake, hdrop, hspan⟩ := cut_at hdone hstart hstop
  obtain ⟨name, inner, rfl, rfl, htag, hfirst⟩ := piece_selfClosing hpiece hkind
  obtain rfl : name = settingsTag := by
    by_contra hne
    have hrefused : coreStep Walk.init.core ⟨.empty, name, inner⟩ = .error badRoot := by
      unfold coreStep
      dsimp only
      rw [if_pos (show Walk.init.core.depth = 0 from rfl), if_neg (show ¬ Walk.init.core.rootSeen = true by decide),
        if_pos hne]
    cases hrefused.symm.trans hstep
  have hclose : utf8 "\n</Settings>" = [10] ++ 60 :: 47 :: (settingsTag ++ [62]) := by decide
  have hopen : utf8 "<Settings>\n  " = 60 :: (settingsTag ++ ([] ++ [62])) ++ [10, 32, 32] := by decide
  have hsplice : splice xml w.shape v = a ++ (60 :: (settingsTag ++ ([] ++ [62])) ++ ([10, 32, 32] ++ (element v ++ ([10] ++
      (60 :: 47 :: (settingsTag ++ [62]) ++ rest))))) := by
    rw [splice, if_neg (Bool.eq_false_iff.mp helement), if_neg (Bool.eq_false_iff.mp hempty),
      if_pos hroot, htake, hdrop, hopen, hclose]
    simp only [List.append_assoc]
  rw [hspan, hsplice]
  constructor
  · intro hframed
    have hstartTag : Piece [] (60 :: (settingsTag ++ ([] ++ [62]))) ⟨.start, settingsTag, []⟩ [settingsTag] :=
      .token (.start settingsTag_text hfirst (by decide) (by decide))
    have hendTag : Piece [settingsTag] (60 :: 47 :: (settingsTag ++ [62])) ⟨.close, settingsTag, []⟩ [] :=
      piece_close settingsTag_text
    have hmarks := marks_kept hframed hdata (hdone ▸ hbefore.lex.append (.cons hpiece hafter.lex))
      (hbefore.lex.append (.cons hstartTag ((Lex.data (by decide)).append ((lex_element rfl hdata).append
        ((Lex.data (by decide)).append (.cons hendTag hafter.lex))))))
    rw [show marks 0 (es₁ ++ _) = _ from marks_append hbefore.lex _,
      show marks 0 (es₁ ++ _) = _ from marks_append hbefore.lex _] at hmarks
    have hrest := List.append_cancel_left hmarks
    have hread : inner ++ marks 0 es₃ = marks 0 es₃ := by
      have hleft : marks 0 (⟨.empty, settingsTag, inner⟩ :: es₃) = inner ++ marks 0 es₃ := marks_empty rfl (.inl rfl) es₃
      refine hleft.symm.trans (hrest.trans ?_)
      show marks 0 _ = _
      rw [marks_start rfl (.inl rfl), marks_after_data, marks_after_element, marks_after_data, marks_close rfl]
      rfl
    obtain rfl : inner = [] := List.append_left_eq_self.mp hread
    decide
  · intro hbare
    obtain rfl := bare_inner (by decide) hbare
    refine framed_of_edit ?_
    rw [hdone]
    exact .filled hbefore.lex htag settingsTag_text (by decide) hfirst hafter.lex (by decide)

/-- A child that is inserted leaves everything alone. -/
theorem framed_missing {o₁ : List Bytes} {ev : Event} {stop : Nat}
    (helement : w.shape.hasElement = false) (hempty : w.shape.hasEmpty = false) (hroot : w.shape.rootEmpty = false)
    (hone : o₁.length = 1)
    (hmark : Mark xml es [] w.core w.shape.settingsEndStart stop o₁ { w.core with depth := 1 } ev [] w.core) :
    Edit v xml (splice xml w.shape v) := by
  obtain @⟨a, t, rest, es₁, es₃, hdone, hes, hstart, hstop, -, hbefore, hpiece, -, hafter⟩ := hmark
  obtain ⟨root, rfl⟩ := List.length_eq_one_iff.mp hone
  have htake : xml.take w.shape.settingsEndStart = a := by rw [hstart, hdone, List.take_left]
  have hdrop : xml.drop w.shape.settingsEndStart = t ++ rest := by rw [hstart, hdone, List.drop_left]
  rw [splice, if_neg (Bool.eq_false_iff.mp helement), if_neg (Bool.eq_false_iff.mp hempty),
    if_neg (Bool.eq_false_iff.mp hroot)]
  dsimp only
  rw [htake, hdrop, hdone]
  simp only [List.append_assoc]
  refine .inserted hbefore.lex (.cons hpiece hafter.lex) ?_
  split
  · decide
  · decide

/-- The update is an edit exactly where the tag that it opens is bare. -/
theorem framed_iff (h : Finished xml es w) (hdata : ∀ b ∈ v, isData b = true) :
    Framed v xml (terminated (splice xml w.shape v)) ↔ Bare xml w.shape := by
  have hnever (hedit : Edit v xml (splice xml w.shape v)) (hbare : Bare xml w.shape) :
      Framed v xml (terminated (splice xml w.shape v)) ↔ Bare xml w.shape :=
    ⟨fun _ => hbare, fun _ => framed_of_edit hedit⟩
  cases h.walked.child h.count with
  | absent hcount helement hempty _ hraw =>
    cases h.walked.root with
    | unseen hcore _ =>
      have hseen := h.seen
      rw [hcore] at hseen
      cases hseen
    | empty hcore hroot hkind hmark =>
      rw [framed_root helement hempty hroot hkind hmark hdata]
      refine ⟨fun hbare _ => ⟨fun hthere => ?_, fun _ _ => hbare⟩, fun hbare => (hbare helement).2 hempty hroot⟩
      rw [hempty] at hthere
      cases hthere
    | opened _ hdepth _ => exact absurd h.depth hdepth
    | closed _ _ _ hroot hone hkind hmark =>
      refine hnever (framed_missing helement hempty hroot hone hmark) fun _ => ⟨fun hthere => ?_, fun _ hthere => ?_⟩
      · rw [hempty] at hthere
        cases hthere
      · rw [hroot] at hthere
        cases hthere
  | inside _ _ hin _ _ _ _ _ _ => exact absurd (hin.symm.trans (finished_out h)) (by decide)
  | complete hcount helement _ hraw hdone hes hcontent hend hvalid hstart hinner hclose hafter =>
    refine hnever (framed_element h helement hcount hraw hdone hes hcontent hend hvalid hstart hinner hclose hafter)
      fun hthere => ?_
    rw [helement] at hthere
    cases hthere
  | empty hcount helement hempty _ hraw hone hkind hmark =>
    rw [framed_empty helement hempty hone hkind hmark hdata]
    refine ⟨fun hbare _ => ⟨fun _ => hbare, fun hthere => ?_⟩, fun hbare => (hbare helement).1 hempty⟩
    rw [hempty] at hthere
    cases hthere

end SpliceLemmas

open SpliceLemmas

/-- **The operator's file is kept.** For every address and every document that is updated: the new
document differs from the old one only in the content of the child that names the server, or in
that child, and in at most a final newline, if and only if the self-closing tag that had to be
opened for it, if any, has nothing behind its name. -/
theorem update_frame (value : String) (v : Bytes) (hv : normalizeServer value = .ok v) (xml out : Bytes)
    (h : updateSettingsXml xml v = .ok (some out)) :
    Framed v xml out ↔ ∀ shape text, walk xml = .ok (shape, text) → Bare xml shape := by
  obtain ⟨-, hdata⟩ := normalized_data hv
  obtain ⟨shape, text, hwalk, rfl, -, -⟩ := updateSettingsXml_some h
  obtain ⟨w, hfinished, rfl, -⟩ := walk_finished hwalk
  rw [framed_iff hfinished hdata]
  constructor
  · intro hbare shape' text' hwalk'
    cases hwalk.symm.trans hwalk'
    exact hbare
  · exact fun hbare => hbare _ _ hwalk

theorem bare_child_kept : Framed (utf8 "omt://new.example:6399") (utf8 "<Settings><DiscoveryServer/></Settings>")
    (utf8 "<Settings><DiscoveryServer>omt://new.example:6399</DiscoveryServer></Settings>\n") := by
  have hout : updateSettingsXml (utf8 "<Settings><DiscoveryServer/></Settings>") (utf8 "omt://new.example:6399") = .ok
      (some (utf8 "<Settings><DiscoveryServer>omt://new.example:6399</DiscoveryServer></Settings>\n")) := by decide +kernel
  have hread : walk (utf8 "<Settings><DiscoveryServer/></Settings>") =
      .ok (⟨0, 0, false, true, 10, 28, false, 0, 0, 28⟩, "") := by decide +kernel
  refine (update_frame "new.example" _ (by decide +kernel) _ _ hout).mpr fun shape text hwalk => ?_
  cases hread.symm.trans hwalk
  exact fun _ => ⟨fun _ => by decide, fun hnone => by cases hnone⟩

/-- What the operator wrote in the tag of an empty child is lost. -/
theorem attribute_lost : ¬ ∀ (value : String) (v xml out : Bytes), normalizeServer value = .ok v →
    updateSettingsXml xml v = .ok (some out) → Framed v xml out := by
  intro h
  have hout : updateSettingsXml (utf8 "<Settings><DiscoveryServer mode='static'/></Settings>") (utf8 "omt://a.b:6399") = .ok
      (some (utf8 "<Settings><DiscoveryServer>omt://a.b:6399</DiscoveryServer></Settings>\n")) := by decide +kernel
  have hv : normalizeServer "a.b" = .ok (utf8 "omt://a.b:6399") := by decide +kernel
  have hold : walk (utf8 "<Settings><DiscoveryServer mode='static'/></Settings>") =
      .ok (⟨0, 0, false, true, 10, 42, false, 0, 0, 42⟩, "") := by decide +kernel
  have hnew : walk (utf8 "<Settings><DiscoveryServer>omt://a.b:6399</DiscoveryServer></Settings>\n") =
      .ok (⟨27, 41, true, false, 0, 0, false, 0, 0, 59⟩, "omt://a.b:6399") := by decide +kernel
  obtain ⟨w, hw, -⟩ := walk_finished hold
  obtain ⟨w', hw', -⟩ := walk_finished hnew
  have hmarks := marks_framed (h _ _ _ _ hv hout) (normalized_data hv).2 hw.walked.part.lex hw'.walked.part.lex
  have hlost : marks 0 (eventsOf (utf8 "<Settings><DiscoveryServer mode='static'/></Settings>")) ≠
      marks 0 (eventsOf (utf8 "<Settings><DiscoveryServer>omt://a.b:6399</DiscoveryServer></Settings>\n")) := by
    decide +kernel
  exact hlost hmarks

end OmtClient.Web.Network
