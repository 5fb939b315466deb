import OmtClient.Common.XmlLex
import OmtClient.Web.Network

/-!
# The settings document

`walk`, `parse_server` and `update_settings_xml` of `crates/omt-web/src/network.rs`: the
operator's `settings.xml`, of which the Web frontend edits the one `DiscoveryServer` child of
the root. The walk is a loop over the events of the document; what it decides (`Core`) is
kept apart from the positions that it records (`Shape`).

1. `update_reads_back`: an updated document says the new address, and updating it again
   changes nothing.
-/

namespace OmtClient.Web.Network

open OmtClient.Lib OmtClient.Common OmtClient.Common.Xml OmtClient.Common.Xml.XmlLemmas

def settingsLimit : Nat := 64 * 1024

def settingsTag : Bytes := utf8 "Settings"
def serverTag : Bytes := utf8 "DiscoveryServer"

/-! ## The walk -/

/-- Where the parts of a document are. -/
structure Shape where
  contentStart : Nat
  contentEnd : Nat
  /-- A `DiscoveryServer` child with content. -/
  hasElement : Bool
  /-- A self-closing `DiscoveryServer` child. -/
  hasEmpty : Bool
  emptyStart : Nat
  emptyEnd : Nat
  /-- A self-closing root. -/
  rootEmpty : Bool
  rootStart : Nat
  rootEnd : Nat
  /-- Where the end tag of the root starts. -/
  settingsEndStart : Nat
  deriving DecidableEq, Repr

/-- What the walk knows of the document so far. -/
@[ext]
structure Core where
  depth : Nat
  discoveryCount : Nat
  rootSeen : Bool
  inDiscovery : Bool
  raw : Bytes
  deriving DecidableEq, Repr

structure Walk where
  core : Core
  shape : Shape
  deriving DecidableEq, Repr

def Walk.init : Walk := ⟨⟨0, 0, false, false, []⟩, ⟨0, 0, false, false, 0, 0, false, 0, 0, 0⟩⟩

def oneRoot : String := "OMT settings XML must contain exactly one root element."
def badRoot : String := "OMT settings root must be <Settings>."

/-- What one event tells the walk. -/
def coreStep (c : Core) (ev : Event) : Except String Core :=
  match ev.kind with
  | .doctype | .ref => .error "OMT settings XML must not declare a doctype or entities."
  | .start =>
    if c.depth = 0 ∧ c.rootSeen = true then .error oneRoot
    else if c.depth = 0 then
      if ev.name ≠ settingsTag then .error badRoot else .ok { c with depth := 1, rootSeen := true }
    else if c.depth = 1 ∧ ev.name = serverTag then
      .ok { c with depth := 2, discoveryCount := c.discoveryCount + 1, inDiscovery := true }
    else .ok { c with depth := c.depth + 1 }
  | .empty =>
    if c.depth = 0 then
      if c.rootSeen then .error oneRoot
      else if ev.name ≠ settingsTag then .error badRoot
      else .ok { c with rootSeen := true }
    else if c.depth = 1 ∧ ev.name = serverTag then .ok { c with discoveryCount := c.discoveryCount + 1 }
    else .ok c
  | .text => .ok (if c.inDiscovery ∧ c.depth = 2 then { c with raw := c.raw ++ ev.content } else c)
  | .close =>
    .ok { c with
      depth := c.depth - 1
      inDiscovery := if c.depth = 2 ∧ ev.name = serverTag then false else c.inDiscovery }
  | _ => .ok c

/-- The positions that the walk records at an event of a document of `size` bytes. -/
def shapeStep (size : Nat) (c : Core) (shape : Shape) (before : Nat) (ev : Event) (after : Nat) : Shape :=
  match ev.kind with
  | .start =>
    if c.depth = 1 ∧ ev.name = serverTag then { shape with hasElement := true, contentStart := size - after }
    else shape
  | .empty =>
    if c.depth = 0 then { shape with rootEmpty := true, rootStart := size - before, rootEnd := size - after }
    else if c.depth = 1 ∧ ev.name = serverTag then
      { shape with hasEmpty := true, emptyStart := size - before, emptyEnd := size - after }
    else shape
  | .close =>
    { shape with
      contentEnd :=
        if c.depth = 2 ∧ ev.name = serverTag ∧ c.inDiscovery = true then size - before else shape.contentEnd
      settingsEndStart := if c.depth = 1 then size - before else shape.settingsEndStart }
  | _ => shape

def walkStep (size : Nat) (w : Walk) (before : Nat) (ev : Event) (after : Nat) : Except String Walk :=
  (coreStep w.core ev).map fun core => ⟨core, shapeStep size w.core w.shape before ev after⟩

/-- What the end of the document must find. -/
def finish (c : Core) : Except String Bytes :=
  if !c.rootSeen || c.depth != 0 then .error "OMT settings XML is invalid."
  else if 1 < c.discoveryCount then .error "OMT settings contain duplicate DiscoveryServer entries."
  else .ok c.raw

/-- `walk`: the shape of a document and the text of its server. -/
def walk (xml : Bytes) : Except String (Shape × String) :=
  if (ofUtf8 xml).isNone then .error "OMT settings XML is invalid: invalid UTF-8"
  else do
    let w ← scan (fun _ => "OMT settings XML is invalid: ill-formed document") (walkStep xml.length)
      (xml.length + 1) ⟨xml, []⟩ Walk.init
    let raw ← finish w.core
    .ok (w.shape, fromUtf8Lossy raw)

/-- `parse_server`. -/
def parseServer (xml : Bytes) : Except String Bytes := do
  let (_, raw) ← walk xml
  normalizeServer raw

/-! ## The update -/

/-- The element that holds an address. -/
def element (normalized : Bytes) : Bytes :=
  utf8 "<DiscoveryServer>" ++ normalized ++ utf8 "</DiscoveryServer>"

/-- The document with the new address spliced in. -/
def splice (xml : Bytes) (shape : Shape) (normalized : Bytes) : Bytes :=
  if shape.hasElement then xml.take shape.contentStart ++ normalized ++ xml.drop shape.contentEnd
  else if shape.hasEmpty then xml.take shape.emptyStart ++ element normalized ++ xml.drop shape.emptyEnd
  else if shape.rootEmpty then
    xml.take shape.rootStart ++ (utf8 "<Settings>\n  " ++ element normalized ++ utf8 "\n</Settings>") ++
      xml.drop shape.rootEnd
  else
    -- indent like the line the closing tag starts, when it starts one
    let at_ := shape.settingsEndStart
    let lineStart := at_ = 0 ∨ (xml.take at_).getLast? = some 10
    xml.take at_ ++ (if lineStart then utf8 "  " else []) ++ element normalized ++
      (if lineStart then [10] else []) ++ xml.drop at_

/-- The document ends with a newline. -/
def terminated (out : Bytes) : Bytes := if out.getLast? = some 10 then out else out ++ [10]

/-- `update_settings_xml`; none when the document already says the same. -/
def updateSettingsXml (xml normalized : Bytes) : Except String (Option Bytes) := do
  if (← parseServer xml) = normalized then .ok none
  else
    let (shape, _) ← walk xml
    let out := terminated (splice xml shape normalized)
    if settingsLimit < out.length then .error "updated OMT settings exceed their size limit"
    else .ok (some out)

/-! ## What one event does -/

/-- What an event does to the names that are open, to what the walk knows and to the positions
that it records, for a document that the walk does not refuse. -/
inductive Move (size : Nat) (o : List Bytes) (w : Walk) (before : Nat) (ev : Event) (after : Nat) :
    List Bytes → Walk → Prop
  | skip : Move size o w before ev after o w
  | collect (hkind : ev.kind = .text) (hin : w.core.inDiscovery = true) (hdepth : w.core.depth = 2) :
    Move size o w before ev after o { w with core := { w.core with raw := w.core.raw ++ ev.content } }
  | openRoot (hkind : ev.kind = .start) (hdepth : w.core.depth = 0) (hroot : w.core.rootSeen = false)
    (hname : ev.name = settingsTag) :
    Move size o w before ev after (ev.name :: o) { w with core := { w.core with depth := 1, rootSeen := true } }
  | openServer (hkind : ev.kind = .start) (hdepth : w.core.depth = 1) (hname : ev.name = serverTag) :
    Move size o w before ev after (ev.name :: o)
      ⟨{ w.core with depth := 2, discoveryCount := w.core.discoveryCount + 1, inDiscovery := true },
        { w.shape with hasElement := true, contentStart := size - after }⟩
  | openOther (hkind : ev.kind = .start) (hdepth : w.core.depth ≠ 0)
    (hother : ¬ (w.core.depth = 1 ∧ ev.name = serverTag)) :
    Move size o w before ev after (ev.name :: o) { w with core := { w.core with depth := w.core.depth + 1 } }
  | emptyRoot (hkind : ev.kind = .empty) (hdepth : w.core.depth = 0) (hroot : w.core.rootSeen = false)
    (hname : ev.name = settingsTag) :
    Move size o w before ev after o
      ⟨{ w.core with rootSeen := true },
        { w.shape with rootEmpty := true, rootStart := size - before, rootEnd := size - after }⟩
  | emptyServer (hkind : ev.kind = .empty) (hdepth : w.core.depth = 1) (hname : ev.name = serverTag) :
    Move size o w before ev after o
      ⟨{ w.core with discoveryCount := w.core.discoveryCount + 1 },
        { w.shape with hasEmpty := true, emptyStart := size - before, emptyEnd := size - after }⟩
  | closeRoot {o'} (hkind : ev.kind = .close) (hdepth : w.core.depth = 1) (hopen : o = ev.name :: o') :
    Move size o w before ev after o'
      ⟨{ w.core with depth := 0 }, { w.shape with settingsEndStart := size - before }⟩
  | closeServer {o'} (hkind : ev.kind = .close) (hdepth : w.core.depth = 2) (hname : ev.name = serverTag)
    (hopen : o = ev.name :: o') :
    Move size o w before ev after o'
      ⟨{ w.core with depth := 1, inDiscovery := false },
        { w.shape with contentEnd := if w.core.inDiscovery = true then size - before else w.shape.contentEnd }⟩
  | closeOther {o'} (hkind : ev.kind = .close) (hdepth : 2 ≤ w.core.depth)
    (hother : ¬ (w.core.depth = 2 ∧ ev.name = serverTag)) (hopen : o = ev.name :: o') :
    Move size o w before ev after o' { w with core := { w.core with depth := w.core.depth - 1 } }

namespace SettingsLemmas

theorem walkStep_move {size before after : Nat} {o o' : List Bytes} {t : Bytes} {ev : Event} {w w' : Walk}
    (hpiece : Piece o t ev o') (hdepth : w.core.depth = o.length)
    (h : walkStep size w before ev after = .ok w') : Move size o w before ev after o' w' := by
  obtain ⟨c, shape⟩ := w
  dsimp only at hdepth
  unfold walkStep at h
  cases hcore : coreStep c ev with
  | error e =>
    rw [hcore] at h
    cases h
  | ok c' =>
    rw [hcore] at h
    cases h
    unfold coreStep at hcore
    unfold shapeStep
    rcases piece_opened hpiece with ⟨hkind, rfl⟩ | ⟨hkind, rfl⟩ | ⟨hstart, hclose, rfl⟩
    · rw [hkind] at hcore ⊢
      dsimp only at hcore ⊢
      split at hcore
      · cases hcore
      next hroot =>
      split at hcore
      · next hzero =>
        split at hcore
        · cases hcore
        next hname =>
        cases hcore
        rw [if_neg fun h => Nat.zero_ne_one (hzero.symm.trans h.1)]
        exact .openRoot hkind hzero (Bool.eq_false_iff.mpr fun h => hroot ⟨hzero, h⟩) (not_not.mp hname)
      next hzero =>
      split at hcore
      · next hserver =>
        cases hcore
        rw [if_pos hserver]
        exact .openServer hkind hserver.1 hserver.2
      · next hserver =>
        cases hcore
        rw [if_neg hserver]
        exact .openOther hkind hzero hserver
    · rw [hkind] at hcore ⊢
      dsimp only at hcore ⊢
      cases hcore
      rw [List.length_cons] at hdepth
      by_cases hone : c.depth = 1
      · rw [if_neg (fun h => by omega), if_pos hone, if_neg (fun h => by omega), hone]
        exact .closeRoot hkind hone rfl
      · rw [if_neg hone]
        by_cases hserver : c.depth = 2 ∧ ev.name = serverTag
        · have hend : (if c.depth = 2 ∧ ev.name = serverTag ∧ c.inDiscovery = true then size - before
              else shape.contentEnd) = if c.inDiscovery = true then size - before else shape.contentEnd := by
            simp only [hserver.1, hserver.2, true_and]
          rw [if_pos hserver, hend, hserver.1]
          exact .closeServer hkind hserver.1 hserver.2 rfl
        · rw [if_neg hserver, if_neg fun h => hserver ⟨h.1, h.2.1⟩]
          exact .closeOther hkind (by show 2 ≤ c.depth; omega) hserver rfl
    · cases hkind : ev.kind with
      | start => exact absurd hkind hstart
      | close => exact absurd hkind hclose
      | doctype =>
        rw [hkind] at hcore
        cases hcore
      | ref =>
        rw [hkind] at hcore
        cases hcore
      | text =>
        rw [hkind] at hcore
        cases hcore
        split
        · next hin => exact .collect hkind hin.1 hin.2
        · exact .skip
      | empty =>
        rw [hkind] at hcore
        dsimp only at hcore ⊢
        split at hcore
        · next hzero =>
          split at hcore
          · cases hcore
          next hroot =>
          split at hcore
          · cases hcore
          next hname =>
          cases hcore
          rw [if_pos hzero]
          exact .emptyRoot hkind hzero (Bool.eq_false_iff.mpr hroot) (not_not.mp hname)
        next hzero =>
        split at hcore
        · next hserver =>
          cases hcore
          rw [if_neg hzero, if_pos hserver]
          exact .emptyServer hkind hserver.1 hserver.2
        · next hserver =>
          cases hcore
          rw [if_neg hzero, if_neg hserver]
          exact .skip
      | _ =>
        rw [hkind] at hcore
        cases hcore
        exact .skip

theorem coreStep_of_walkStep {size before after : Nat} {ev : Event} {w w' : Walk}
    (h : walkStep size w before ev after = .ok w') : coreStep w.core ev = .ok w'.core := by
  unfold walkStep at h
  cases hcore : coreStep w.core ev with
  | error e =>
    rw [hcore] at h
    cases h
  | ok c =>
    rw [hcore] at h
    cases h
    rfl

theorem additive_coreStep : Additive coreStep := by
  intro c a b _ _
  unfold coreStep
  dsimp only [Except.bind]
  by_cases h : c.inDiscovery = true ∧ c.depth = 2
  · rw [if_pos h, if_pos h, if_pos (show _ = true ∧ _ from h), List.append_assoc]
  · rw [if_neg h, if_neg h, if_neg h]

end SettingsLemmas

open SettingsLemmas

/-! ## The parts of a document -/

/-- A part of a document that takes the walk from one state to another. -/
structure Part (o₁ : List Bytes) (c₁ : Core) (part : Bytes) (es : List Event) (o : List Bytes) (c : Core) : Prop where
  lex : Lex o₁ part es o
  folds : es.foldlM coreStep c₁ = .ok c

/-- A piece of what has been read, between two positions, with the states of the walk before it
and after it. -/
inductive Mark (done : Bytes) (es : List Event) (o : List Bytes) (c : Core) (start stop : Nat) (o₁ : List Bytes)
    (c₁ : Core) (ev : Event) (o₂ : List Bytes) (c₂ : Core) : Prop
  | intro {a t rest : Bytes} {es₁ es₂ : List Event} (hdone : done = a ++ (t ++ rest)) (hes : es = es₁ ++ ev :: es₂)
    (hstart : start = a.length) (hstop : stop = (a ++ t).length) (hvalid : Valid a ∧ Valid (a ++ t))
    (hbefore : Part [] Walk.init.core a es₁ o₁ c₁) (hpiece : Piece o₁ t ev o₂) (hstep : coreStep c₁ ev = .ok c₂)
    (hafter : Part o₂ c₂ rest es₂ o c)

/-- The start tag of the server's element, and the part before it. -/
structure ServerStart (a t : Bytes) (es₁ : List Event) (s : Event) (o₀ : List Bytes) : Prop where
  valid : Valid (a ++ t)
  before : Part [] Walk.init.core a es₁ o₀ ⟨1, 0, true, false, []⟩
  piece : Piece o₀ t s (serverTag :: o₀)
  kind : s.kind = .start
  name : s.name = serverTag
  one : o₀.length = 1

/-- The end tag of the server's element, and the part after it. -/
structure ServerEnd (t : Bytes) (e : Event) (o₀ : List Bytes) : Prop where
  piece : Piece (serverTag :: o₀) t e o₀
  kind : e.kind = .close
  name : e.name = serverTag

/-- The state of the walk right inside the server's element. -/
def inServer (raw : Bytes) : Core := ⟨2, 1, true, true, raw⟩

/-- The state of the walk right behind it. -/
def behindServer (raw : Bytes) : Core := ⟨1, 1, true, false, raw⟩

/-- The root of the document, as far as the walk has seen it. -/
inductive Root (done : Bytes) (es : List Event) (o : List Bytes) (w : Walk) : Prop
  | unseen (hcore : w.core = Walk.init.core) (hempty : w.shape.rootEmpty = false)
  | empty {ev : Event} (hcore : w.core = ⟨0, 0, true, false, []⟩) (hempty : w.shape.rootEmpty = true)
    (hkind : ev.kind = .empty)
    (hmark : Mark done es o w.core w.shape.rootStart w.shape.rootEnd [] Walk.init.core ev []
      ⟨0, 0, true, false, []⟩)
  | opened (hseen : w.core.rootSeen = true) (hdepth : w.core.depth ≠ 0) (hempty : w.shape.rootEmpty = false)
  | closed {o₁ : List Bytes} {ev : Event} {stop : Nat} (hseen : w.core.rootSeen = true) (hdepth : w.core.depth = 0)
    (hout : w.core.inDiscovery = false) (hempty : w.shape.rootEmpty = false) (hone : o₁.length = 1)
    (hkind : ev.kind = .close)
    (hmark : Mark done es o w.core w.shape.settingsEndStart stop o₁ { w.core with depth := 1 } ev [] w.core)

/-- The child that names the server, as far as the walk has seen it. -/
inductive Child (done : Bytes) (es : List Event) (o : List Bytes) (w : Walk) : Prop
  | absent (hcount : w.core.discoveryCount = 0) (helement : w.shape.hasElement = false)
    (hempty : w.shape.hasEmpty = false) (hout : w.core.inDiscovery = false) (hraw : w.core.raw = [])
  | inside {a t b : Bytes} {es₁ es₂ : List Event} {s : Event} {o₀ pre : List Bytes}
    (hcount : w.core.discoveryCount = 1) (helement : w.shape.hasElement = true) (hin : w.core.inDiscovery = true)
    (hopen : o = pre ++ serverTag :: o₀) (hdone : done = a ++ (t ++ b)) (hes : es = es₁ ++ s :: es₂)
    (hcontent : w.shape.contentStart = (a ++ t).length) (hstart : ServerStart a t es₁ s o₀)
    (hinner : Part (serverTag :: o₀) (inServer []) b es₂ o w.core)
  | complete {a t b t' rest : Bytes} {es₁ es₂ es₃ : List Event} {s e : Event} {o₀ : List Bytes} {raw : Bytes}
    (hcount : w.core.discoveryCount = 1) (helement : w.shape.hasElement = true)
    (hout : w.core.inDiscovery = false) (hraw : w.core.raw = raw)
    (hdone : done = a ++ (t ++ (b ++ (t' ++ rest)))) (hes : es = es₁ ++ s :: (es₂ ++ e :: es₃))
    (hcontent : w.shape.contentStart = (a ++ t).length) (hend : w.shape.contentEnd = (a ++ (t ++ b)).length)
    (hvalid : Valid (a ++ (t ++ b))) (hstart : ServerStart a t es₁ s o₀)
    (hinner : Part (serverTag :: o₀) (inServer []) b es₂ (serverTag :: o₀) (inServer raw))
    (hclose : ServerEnd t' e o₀) (hafter : Part o₀ (behindServer raw) rest es₃ o w.core)
  | empty {o₁ : List Bytes} {ev : Event} (hcount : w.core.discoveryCount = 1) (helement : w.shape.hasElement = false)
    (hempty : w.shape.hasEmpty = true) (hout : w.core.inDiscovery = false) (hraw : w.core.raw = [])
    (hone : o₁.length = 1) (hkind : ev.kind = .empty)
    (hmark : Mark done es o w.core w.shape.emptyStart w.shape.emptyEnd o₁ ⟨1, 0, true, false, []⟩ ev o₁
      (behindServer []))

/-- What the walk has established when it has read `done`. -/
structure Walked (done : Bytes) (es : List Event) (o : List Bytes) (w : Walk) : Prop where
  part : Part [] Walk.init.core done es o w.core
  valid : Valid done
  depth : w.core.depth = o.length
  inside : w.core.inDiscovery = true → ∃ pre o₀, o = pre ++ serverTag :: o₀ ∧ o₀.length = 1
  root : Root done es o w
  child : w.core.discoveryCount ≤ 1 → Child done es o w

namespace SettingsLemmas

variable {done t rest : Bytes} {es : List Event} {ev : Event} {o₁ o₂ o o' : List Bytes} {c₁ c₂ c c' : Core} {w w' : Walk}

theorem part_nil : Part o c [] [] o c := ⟨.nil, rfl⟩

theorem part_append {part part' : Bytes} {es' : List Event} (h : Part o₁ c₁ part es o c)
    (h' : Part o c part' es' o' c') : Part o₁ c₁ (part ++ part') (es ++ es') o' c' := by
  refine ⟨h.lex.append h'.lex, ?_⟩
  rw [List.foldlM_append, h.folds]
  exact h'.folds

theorem part_single (hpiece : Piece o t ev o') (hstep : coreStep c ev = .ok c') : Part o c t [ev] o' c' := by
  refine ⟨.single hpiece, ?_⟩
  rw [List.foldlM_cons, hstep]
  rfl

theorem part_step {part : Bytes} (h : Part o₁ c₁ part es o c) (hpiece : Piece o t ev o')
    (hstep : coreStep c ev = .ok c') : Part o₁ c₁ (part ++ t) (es ++ [ev]) o' c' :=
  part_append h (part_single hpiece hstep)

theorem mark_step {ev' : Event} {start stop : Nat} (h : Mark done es o c start stop o₁ c₁ ev' o₂ c₂)
    (hpiece : Piece o t ev o') (hstep : coreStep c ev = .ok c') :
    Mark (done ++ t) (es ++ [ev]) o' c' start stop o₁ c₁ ev' o₂ c₂ := by
  obtain ⟨hdone, hes, hstart, hstop, hvalid, hbefore, hpiece', hstep', hafter⟩ := h
  refine .intro ?_ ?_ hstart hstop hvalid hbefore hpiece' hstep' (part_step hafter hpiece hstep)
  · rw [hdone, List.append_assoc, List.append_assoc]
  · rw [hes, List.append_assoc, List.cons_append]

/-- The piece that has just been read. -/
theorem mark_here (h : Walked done es o w) (hvalid : Valid (done ++ t)) (hpiece : Piece o t ev o')
    (hstep : coreStep w.core ev = .ok c') :
    Mark (done ++ t) (es ++ [ev]) o' c' done.length (done ++ t).length o w.core ev o' c' :=
  (@Mark.intro _ _ _ _ _ _ _ _ _ _ _ _ _ [] _ []) (by rw [List.append_nil]) rfl rfl rfl ⟨h.valid, hvalid⟩ h.part hpiece hstep part_nil

theorem walked_init : Walked [] [] [] Walk.init where
  part := part_nil
  valid := ⟨"", rfl⟩
  depth := rfl
  inside := nofun
  root := .unseen rfl rfl
  child := fun _ => .absent rfl rfl rfl rfl rfl

theorem walked_deep (h : Walked done es o w) (hin : w.core.inDiscovery = true) : 2 ≤ w.core.depth := by
  obtain ⟨pre, o₀, ho, hone⟩ := h.inside hin
  rw [h.depth, ho, List.length_append, List.length_cons, hone]
  exact Nat.le_add_left 2 _

/-- An end tag other than the server's leaves the server open. -/
theorem opened_close {pre o₀ : List Bytes} (ho : o = pre ++ serverTag :: o₀) (hone : o₀.length = 1)
    (hopen : o = ev.name :: o') (hother : ¬ (o.length = 2 ∧ ev.name = serverTag)) :
    ∃ pre', o' = pre' ++ serverTag :: o₀ := by
  rw [hopen] at ho hother
  cases pre with
  | nil =>
    rw [List.nil_append] at ho
    obtain ⟨hname, hrest⟩ := List.cons.inj ho
    refine absurd ⟨?_, hname⟩ hother
    rw [List.length_cons, hrest, hone]
  | cons p pre =>
    rw [List.cons_append] at ho
    exact ⟨pre, (List.cons.inj ho).2⟩

theorem walked_seen (h : Walked done es o w) (hdepth : w.core.depth ≠ 0) :
    w.core.rootSeen = true ∧ w.shape.rootEmpty = false := by
  cases h.root with
  | unseen hcore _ => exact absurd (congrArg Core.depth hcore) hdepth
  | empty hcore _ _ _ => exact absurd (congrArg Core.depth hcore) hdepth
  | opened hseen _ hempty => exact ⟨hseen, hempty⟩
  | closed _ hzero _ _ _ _ _ => exact absurd hzero hdepth

/-- Where a piece starts and ends, told by the bytes that are left. -/
theorem positions {size : Nat} (hsize : size = (done ++ t ++ rest).length) :
    size - (t ++ rest).length = done.length ∧ size - rest.length = (done ++ t).length := by
  rw [List.length_append] at hsize
  rw [List.length_append, List.length_append]
  rw [List.length_append] at hsize
  omega

/-- An event keeps what the walk knows of the root. -/
theorem root_move {size : Nat} (h : Walked done es o w) (hvalid : Valid (done ++ t)) (hpiece : Piece o t ev o')
    (hcore : coreStep w.core ev = .ok w'.core) (hsize : size = (done ++ t ++ rest).length)
    (hmove : Move size o w (t ++ rest).length ev rest.length o' w') : Root (done ++ t) (es ++ [ev]) o' w' := by
  obtain ⟨hbefore, hafter⟩ := positions hsize
  have hhere := mark_here h hvalid hpiece hcore
  have hopened (hdepth : w.core.depth ≠ 0) (hdepth' : w'.core.depth ≠ 0) (hseen : w'.core.rootSeen = w.core.rootSeen)
      (hempty : w'.shape.rootEmpty = w.shape.rootEmpty) : Root (done ++ t) (es ++ [ev]) o' w' := by
    obtain ⟨hs, he⟩ := walked_seen h hdepth
    exact .opened (hseen.trans hs) hdepth' (hempty.trans he)
  have hunseen (hseen : w.core.rootSeen = false) : w.core = Walk.init.core ∧ w.shape.rootEmpty = false := by
    cases h.root with
    | unseen hinit hempty => exact ⟨hinit, hempty⟩
    | empty hinit _ _ _ =>
      rw [hinit] at hseen
      cases hseen
    | opened hs _ _ => exact absurd (hs.symm.trans hseen) (by decide)
    | closed hs _ _ _ _ _ _ => exact absurd (hs.symm.trans hseen) (by decide)
  cases hmove with
  | skip =>
    cases h.root with
    | unseen hinit hempty => exact .unseen hinit hempty
    | empty hinit hempty hkind hmark => exact .empty hinit hempty hkind (mark_step hmark hpiece hcore)
    | opened hseen hdepth hempty => exact .opened hseen hdepth hempty
    | closed hseen hdepth hout hempty hone hkind hmark =>
      exact .closed hseen hdepth hout hempty hone hkind (mark_step hmark hpiece hcore)
  | collect _ _ hdepth =>
    have hne : w.core.depth ≠ 0 := by omega
    exact hopened hne hne rfl rfl
  | openRoot _ _ hroot _ => exact .opened rfl Nat.one_ne_zero (hunseen hroot).2
  | openServer _ hdepth _ => exact hopened (by omega) (Nat.succ_ne_zero 1) rfl rfl
  | openOther _ hdepth _ => exact hopened hdepth (Nat.succ_ne_zero _) rfl rfl
  | emptyRoot hkind hdepth hroot _ =>
    have ho : o = [] := List.eq_nil_of_length_eq_zero (h.depth.symm.trans hdepth)
    obtain ⟨hinit, _⟩ := hunseen hroot
    subst ho
    have hnow : ({ w.core with rootSeen := true } : Core) = ⟨0, 0, true, false, []⟩ := by rw [hinit]; rfl
    refine .empty hnow rfl hkind ?_
    rw [hbefore, hafter, ← hnow, ← hinit]
    exact hhere
  | emptyServer _ hdepth _ =>
    have hne : w.core.depth ≠ 0 := by omega
    exact hopened hne hne rfl rfl
  | closeRoot hkind hdepth hopen =>
    obtain ⟨hseen, hempty⟩ := walked_seen h (by omega)
    have hout : w.core.inDiscovery = false := by
      by_contra hin
      have := walked_deep h (Bool.eq_true_of_not_eq_false hin)
      omega
    have hlen : o.length = 1 := h.depth.symm.trans hdepth
    have hnil : o' = [] := by
      rw [hopen, List.length_cons] at hlen
      exact List.eq_nil_of_length_eq_zero (Nat.succ.inj hlen)
    have hsame : ({ w.core with depth := 1 } : Core) = w.core := by rw [← hdepth]
    subst hnil
    refine (@Root.closed _ _ _ _ o _ (done ++ t).length) hseen rfl hout hempty hlen hkind ?_
    rw [hbefore, hsame]
    exact hhere
  | closeServer _ hdepth _ _ => exact hopened (by omega) Nat.one_ne_zero rfl rfl
  | closeOther _ hdepth _ _ => exact hopened (by omega) (show w.core.depth - 1 ≠ 0 by omega) rfl rfl

/-- An event keeps what the walk knows of the child. -/
theorem child_move {size : Nat} (h : Walked done es o w) (hvalid : Valid (done ++ t)) (hpiece : Piece o t ev o')
    (hcore : coreStep w.core ev = .ok w'.core) (hsize : size = (done ++ t ++ rest).length)
    (hmove : Move size o w (t ++ rest).length ev rest.length o' w') (hcount : w'.core.discoveryCount ≤ 1) :
    Child (done ++ t) (es ++ [ev]) o' w' := by
  obtain ⟨hbefore, hafter⟩ := positions hsize
  have hhere := mark_here h hvalid hpiece hcore
  -- an event that neither starts nor ends a server
  have hkeep (hcount' : w'.core.discoveryCount = w.core.discoveryCount)
      (helement : w'.shape.hasElement = w.shape.hasElement) (hempty : w'.shape.hasEmpty = w.shape.hasEmpty)
      (hcs : w'.shape.contentStart = w.shape.contentStart) (hce : w'.shape.contentEnd = w.shape.contentEnd)
      (hes : w'.shape.emptyStart = w.shape.emptyStart) (hee : w'.shape.emptyEnd = w.shape.emptyEnd)
      (hin : w'.core.inDiscovery = w.core.inDiscovery)
      (hraw : w.core.inDiscovery = false → w'.core.raw = w.core.raw)
      (hopen : w.core.inDiscovery = true → ∀ pre o₀, o = pre ++ serverTag :: o₀ → o₀.length = 1 →
        ∃ pre', o' = pre' ++ serverTag :: o₀) : Child (done ++ t) (es ++ [ev]) o' w' := by
    cases h.child (hcount' ▸ hcount) with
    | absent h0 h1 h2 h3 h4 =>
      exact .absent (hcount'.trans h0) (helement.trans h1) (hempty.trans h2) (hin.trans h3) ((hraw h3).trans h4)
    | inside h0 h1 h2 h3 h4 h5 h6 h7 h8 =>
      obtain ⟨pre', hpre⟩ := hopen h2 _ _ h3 h7.one
      refine .inside (hcount'.trans h0) (helement.trans h1) (hin.trans h2) hpre ?_ ?_ (hcs.trans h6) h7
        (part_step h8 hpiece hcore)
      · rw [h4, List.append_assoc, List.append_assoc]
      · rw [h5, List.append_assoc, List.cons_append]
    | complete h0 h1 h2 h3 h4 h5 h6 h7 h8 h9 h10 h11 h12 =>
      refine .complete (hcount'.trans h0) (helement.trans h1) (hin.trans h2) ((hraw h2).trans h3) ?_ ?_
        (hcs.trans h6) (hce.trans h7) h8 h9 h10 h11 (part_step h12 hpiece hcore)
      · rw [h4]
        simp only [List.append_assoc]
      · rw [h5]
        simp only [List.append_assoc, List.cons_append]
    | empty h0 h1 h2 h3 h4 h5 h6 h7 =>
      exact .empty (hcount'.trans h0) (helement.trans h1) (hempty.trans h2) (hin.trans h3) ((hraw h3).trans h4) h5 h6
        (hes ▸ hee ▸ mark_step h7 hpiece hcore)
  have hdepth := h.depth
  have hfirst (hzero : w.core.discoveryCount + 1 ≤ 1) (hone : w.core.depth = 1) :
      w.core = ⟨1, 0, true, false, []⟩ ∧ w.shape.hasElement = false := by
    obtain ⟨hseen, _⟩ := walked_seen h (by omega)
    cases h.child (by omega) with
    | absent h0 h1 h2 h3 h4 => exact ⟨Core.ext hone h0 hseen h3 h4, h1⟩
    | inside h0 _ _ _ _ _ _ _ _ => omega
    | complete h0 _ _ _ _ _ _ _ _ _ _ _ _ => omega
    | empty h0 _ _ _ _ _ _ _ => omega
  cases hmove with
  | skip => exact hkeep rfl rfl rfl rfl rfl rfl rfl rfl (fun _ => rfl) fun _ pre _ ho _ => ⟨pre, ho⟩
  | collect _ hin _ =>
    exact hkeep rfl rfl rfl rfl rfl rfl rfl rfl (fun hout => absurd (hin.symm.trans hout) (by decide))
      fun _ pre _ ho _ => ⟨pre, ho⟩
  | openRoot _ hzero _ _ =>
    refine hkeep rfl rfl rfl rfl rfl rfl rfl rfl (fun _ => rfl) fun _ pre o₀ ho hlen => ?_
    exact ⟨ev.name :: pre, by rw [ho]; rfl⟩
  | openServer hkind hone hname =>
    obtain ⟨hnow, _⟩ := hfirst hcount hone
    have hpart := h.part
    rw [hnow] at hpart
    have hafter' : ({ w.core with depth := 2, discoveryCount := w.core.discoveryCount + 1, inDiscovery := true } : Core) =
        inServer [] := by
      rw [hnow]
      rfl
    rw [hname] at hpiece ⊢
    refine (@Child.inside _ _ _ _ _ _ [] _ [] _ o []) ?_ rfl rfl rfl (by rw [List.append_nil]) rfl hafter
      ⟨hvalid, hpart, hpiece, hkind, hname, hdepth.symm.trans hone⟩ ?_
    · show w.core.discoveryCount + 1 = 1
      rw [hnow]
    · show Part _ _ _ _ _ { w.core with depth := 2, discoveryCount := w.core.discoveryCount + 1, inDiscovery := true }
      rw [hafter']
      exact part_nil
  | openOther _ hne hother =>
    refine hkeep rfl rfl rfl rfl rfl rfl rfl rfl (fun _ => rfl) fun _ pre o₀ ho hlen => ?_
    exact ⟨ev.name :: pre, by rw [ho]; rfl⟩
  | emptyRoot _ hzero _ _ =>
    exact hkeep rfl rfl rfl rfl rfl rfl rfl rfl (fun _ => rfl) fun _ pre _ ho _ => ⟨pre, ho⟩
  | emptyServer hkind hone hname =>
    obtain ⟨hnow, helement⟩ := hfirst hcount hone
    refine (@Child.empty _ _ _ _ o) ?_ helement rfl ?_ ?_ (hdepth.symm.trans hone) hkind ?_
    · show w.core.discoveryCount + 1 = 1
      rw [hnow]
    · show w.core.inDiscovery = false
      rw [hnow]
    · show w.core.raw = []
      rw [hnow]
    · show Mark _ _ _ _ (size - (t ++ rest).length) (size - rest.length) _ _ _ _ _
      have hcore' : behindServer [] = { w.core with discoveryCount := w.core.discoveryCount + 1 } := by
        rw [hnow]
        rfl
      rw [hbefore, hafter, hcore', ← hnow]
      exact hhere
  | closeRoot _ hone hopen =>
    refine hkeep rfl rfl rfl rfl rfl rfl rfl rfl (fun _ => rfl) fun hin => ?_
    have := walked_deep h hin
    omega
  | closeServer hkind htwo hname hopen =>
    by_cases hin : w.core.inDiscovery = true
    · obtain ⟨hseen, _⟩ := walked_seen h (by omega)
      cases h.child hcount with
      | absent _ _ _ hout _ => exact absurd (hin.symm.trans hout) (by decide)
      | complete _ _ hout _ _ _ _ _ _ _ _ _ _ => exact absurd (hin.symm.trans hout) (by decide)
      | empty _ _ _ hout _ _ _ _ => exact absurd (hin.symm.trans hout) (by decide)
      | @inside a t₀ b es₁ es₂ s o₀ pre h0 h1 _ h3 h4 h5 h6 h7 h8 =>
        have hpre : pre = [] := by
          have hlen := congrArg List.length h3
          rw [List.length_append, List.length_cons, h7.one] at hlen
          exact List.eq_nil_of_length_eq_zero (by omega)
        rw [hpre, List.nil_append] at h3
        have ho : o' = o₀ := by
          rw [hopen] at h3
          exact (List.cons.inj h3).2
        subst ho
        have hnow : w.core = inServer w.core.raw := Core.ext htwo h0 hseen hin rfl
        have hafter' : ({ w.core with depth := 1, inDiscovery := false } : Core) = behindServer w.core.raw :=
          Core.ext rfl h0 hseen rfl rfl
        rw [h3] at h8 hpiece
        refine (@Child.complete _ _ _ _ a t₀ b t [] es₁ es₂ [] s ev o' w.core.raw) h0 h1 rfl rfl ?_ ?_ h6 ?_ ?_ h7 ?_ ⟨hpiece, hkind, hname⟩ ?_
        · rw [h4, List.append_nil]
          simp only [List.append_assoc]
        · rw [h5, List.append_assoc, List.cons_append]
        · show (if w.core.inDiscovery = true then size - (t ++ rest).length else w.shape.contentEnd) = _
          rw [if_pos hin, hbefore, h4]
        · rw [← h4]
          exact h.valid
        · rw [← hnow]
          exact h8
        · show Part _ _ _ _ _ { w.core with depth := 1, inDiscovery := false }
          rw [hafter']
          exact part_nil
    · refine hkeep rfl rfl rfl rfl (if_neg hin) rfl rfl (Bool.eq_false_iff.mpr hin).symm (fun _ => rfl) fun hin' => ?_
      exact absurd hin' hin
  | closeOther _ htwo hother hopen =>
    refine hkeep rfl rfl rfl rfl rfl rfl rfl rfl (fun _ => rfl) fun _ pre o₀ ho hlen => ?_
    exact opened_close ho hlen hopen (hdepth ▸ hother)

/-- The walk is as deep as there are names open. -/
theorem move_depth {size before after : Nat} (hmove : Move size o w before ev after o' w')
    (hdepth : w.core.depth = o.length) : w'.core.depth = o'.length := by
  cases hmove with
  | skip => exact hdepth
  | collect _ _ _ => exact hdepth
  | openRoot _ hzero _ _ =>
    rw [List.length_cons, ← hdepth, hzero]
  | openServer _ hone _ => rw [List.length_cons, ← hdepth, hone]
  | openOther _ _ _ => rw [List.length_cons, ← hdepth]
  | emptyRoot _ _ _ _ => exact hdepth
  | emptyServer _ _ _ => exact hdepth
  | closeRoot _ hone hopen =>
    rw [hone, hopen, List.length_cons] at hdepth
    exact Nat.succ.inj hdepth
  | closeServer _ htwo _ hopen =>
    rw [htwo, hopen, List.length_cons] at hdepth
    exact Nat.succ.inj hdepth
  | closeOther _ _ _ hopen =>
    rw [hopen, List.length_cons] at hdepth
    show w.core.depth - 1 = _
    omega

theorem walked_step {doc : Bytes} (hdoc : doc = done ++ t ++ rest) (hvalid : Valid (done ++ t))
    (hpiece : Piece o t ev o') (h : Walked done es o w)
    (hstep : walkStep doc.length w (t ++ rest).length ev rest.length = .ok w') :
    Walked (done ++ t) (es ++ [ev]) o' w' := by
  have hcore := coreStep_of_walkStep hstep
  have hmove := walkStep_move hpiece h.depth hstep
  have hsize : doc.length = (done ++ t ++ rest).length := by rw [hdoc]
  refine ⟨part_step h.part hpiece hcore, hvalid, ?_, ?_, root_move h hvalid hpiece hcore hsize hmove,
    child_move h hvalid hpiece hcore hsize hmove⟩
  · exact move_depth hmove h.depth
  · intro hin
    have hpush : (∃ pre o₀, o = pre ++ serverTag :: o₀ ∧ o₀.length = 1) →
        ∃ pre o₀, ev.name :: o = pre ++ serverTag :: o₀ ∧ o₀.length = 1 :=
      fun ⟨pre, o₀, ho, hone⟩ => ⟨ev.name :: pre, o₀, congrArg (ev.name :: ·) ho, hone⟩
    cases hmove with
    | skip => exact h.inside hin
    | collect _ _ _ => exact h.inside hin
    | openRoot _ _ _ _ => exact hpush (h.inside hin)
    | openServer _ hone hname => exact ⟨[], o, congrArg (· :: o) hname, h.depth.symm.trans hone⟩
    | openOther _ _ _ => exact hpush (h.inside hin)
    | emptyRoot _ _ _ _ => exact h.inside hin
    | emptyServer _ _ _ => exact h.inside hin
    | closeRoot _ hone _ =>
      have := walked_deep h hin
      omega
    | closeServer _ _ _ _ => cases hin
    | closeOther _ _ hother hopen =>
      obtain ⟨pre, o₀, ho, hone⟩ := h.inside hin
      obtain ⟨pre', hpre⟩ := opened_close ho hone hopen (h.depth ▸ hother)
      exact ⟨pre', o₀, hpre, hone⟩

theorem scan_core {size n : Nat} {fail : Status → String} {r : Reader} {c : Core}
    (h : scan fail (fun c _ ev _ => coreStep c ev) n r w.core = .ok c) :
    ∃ w', scan fail (walkStep size) n r w = .ok w' ∧ w'.core = c := by
  induction n generalizing r w with
  | zero =>
    cases h
    exact ⟨w, rfl, rfl⟩
  | succ n ih =>
    rw [scan] at h ⊢
    split at h
    · cases h
    · next ev r' hread =>
      split at h
      · next heof =>
        cases h
        exact ⟨w, if_pos heof, rfl⟩
      · next heof =>
        rw [if_neg heof]
        cases hcore : coreStep w.core ev with
        | error e =>
          rw [hcore] at h
          cases h
        | ok c₁ =>
          rw [hcore] at h
          obtain ⟨w', hscan, hw'⟩ :=
            ih (w := ⟨c₁, shapeStep size w.core w.shape r.rest.length ev r'.rest.length⟩) h
          refine ⟨w', ?_, hw'⟩
          rw [walkStep, hcore]
          exact hscan

/-- What the walk of a document has established at its end. -/
theorem walk_ok {xml : Bytes} {shape : Shape} {text : String} (h : walk xml = .ok (shape, text)) :
    ∃ w, Walked xml (eventsOf xml) [] w ∧ w.shape = shape ∧ fromUtf8Lossy w.core.raw = text ∧
      w.core.rootSeen = true ∧ w.core.depth = 0 ∧ w.core.discoveryCount ≤ 1 := by
  unfold walk at h
  split at h
  · cases h
  next hutf8 =>
  have hvalid : Valid xml := by
    rw [Bool.not_eq_true, Option.isNone_eq_false_iff, Option.isSome_iff_exists] at hutf8
    obtain ⟨s, hs⟩ := hutf8
    exact ⟨s, utf8_of_ofUtf8 hs⟩
  cases hscan : scan (fun _ => "OMT settings XML is invalid: ill-formed document") (walkStep xml.length)
      (xml.length + 1) ⟨xml, []⟩ Walk.init with
  | error e =>
    rw [hscan] at h
    cases h
  | ok w =>
    rw [hscan] at h
    obtain ⟨o, hwalked⟩ := scan_invariant (I := Walked)
      (fun done t rest es o ev o' w w' hdoc hcut hpiece hw hstep => walked_step hdoc (hcut hvalid) hpiece hw hstep)
      walked_init hscan
    dsimp only [bind, Except.bind] at h
    cases hfinish : finish w.core with
    | error e =>
      rw [hfinish] at h
      cases h
    | ok raw =>
      rw [hfinish] at h
      cases h
      unfold finish at hfinish
      split at hfinish
      · cases hfinish
      next hroot =>
      split at hfinish
      · cases hfinish
      next hcount =>
      cases hfinish
      simp only [Bool.or_eq_true, Bool.not_eq_true', bne_iff_ne, ne_eq, not_or, Bool.not_eq_false, not_not] at hroot
      have ho : o = [] := List.eq_nil_of_length_eq_zero (hwalked.depth.symm.trans hroot.2)
      subst ho
      exact ⟨w, hwalked, rfl, rfl, hroot.1, hroot.2, Nat.not_lt.mp hcount⟩

/-- A document that is a sequence of pieces with a finished walk. -/
theorem walk_of_lex {xml : Bytes} {o : List Bytes} {es : List Event} {c : Core} {raw : Bytes} (hvalid : Valid xml)
    (hlex : Lex [] xml es o) (hfold : es.foldlM coreStep Walk.init.core = .ok c) (hfinish : finish c = .ok raw) :
    ∃ shape, walk xml = .ok (shape, fromUtf8Lossy raw) := by
  have hscan := (@scan_lex _ _ (fun _ => "OMT settings XML is invalid: ill-formed document")) additive_coreStep hlex
    (Nat.lt_succ_self _) Walk.init.core
  rw [hfold] at hscan
  obtain ⟨w, hwalk, rfl⟩ := (@scan_core Walk.init xml.length) hscan
  refine ⟨w.shape, ?_⟩
  have hsome : ¬ (ofUtf8 xml).isNone = true := by
    rw [Bool.not_eq_true, Option.isNone_eq_false_iff]
    exact isSome_ofUtf8 hvalid
  rw [walk, if_neg hsome, hwalk]
  dsimp only [bind, Except.bind]
  rw [hfinish]

/-- The walk never looks at the text that it has collected nor at its count. -/
theorem coreStep_shift (h : coreStep c ev = .ok c') :
    ∃ s k, c'.raw = c.raw ++ s ∧ c'.discoveryCount = c.discoveryCount + k ∧
      ∀ r n, coreStep { c with raw := r, discoveryCount := n } ev =
        .ok { c' with raw := r ++ s, discoveryCount := n + k } := by
  have hsame (hraw : c'.raw = c.raw) (hcount : c'.discoveryCount = c.discoveryCount)
      (hstep : ∀ r n, coreStep { c with raw := r, discoveryCount := n } ev =
        .ok { c' with raw := r, discoveryCount := n }) :
      ∃ s k, c'.raw = c.raw ++ s ∧ c'.discoveryCount = c.discoveryCount + k ∧
        ∀ r n, coreStep { c with raw := r, discoveryCount := n } ev =
          .ok { c' with raw := r ++ s, discoveryCount := n + k } := by
    refine ⟨[], 0, by rw [hraw, List.append_nil], hcount, fun r n => ?_⟩
    rw [hstep, List.append_nil, Nat.add_zero]
  unfold coreStep at h hsame ⊢
  cases hkind : ev.kind with
  | doctype =>
    rw [hkind] at h
    cases h
  | ref =>
    rw [hkind] at h
    cases h
  | start =>
    simp only [hkind] at h hsame ⊢
    split at h
    · cases h
    next h0 =>
    split at h
    · next h1 =>
      split at h
      · cases h
      next h2 =>
      cases h
      refine hsame rfl rfl fun r n => ?_
      rw [if_neg h0, if_pos h1, if_neg h2]
    next h1 =>
    split at h
    · next h2 =>
      cases h
      refine ⟨[], 1, (List.append_nil _).symm, rfl, fun r n => ?_⟩
      rw [if_neg h0, if_neg h1, if_pos h2, List.append_nil]
    · next h2 =>
      cases h
      refine hsame rfl rfl fun r n => ?_
      rw [if_neg h0, if_neg h1, if_neg h2]
  | empty =>
    simp only [hkind] at h hsame ⊢
    split at h
    · next h0 =>
      split at h
      · cases h
      next h1 =>
      split at h
      · cases h
      next h2 =>
      cases h
      refine hsame rfl rfl fun r n => ?_
      rw [if_pos h0, if_neg h1, if_neg h2]
    next h0 =>
    split at h
    · next h1 =>
      cases h
      refine ⟨[], 1, (List.append_nil _).symm, rfl, fun r n => ?_⟩
      rw [if_neg h0, if_pos h1, List.append_nil]
    · next h1 =>
      cases h
      refine hsame rfl rfl fun r n => ?_
      rw [if_neg h0, if_neg h1]
  | text =>
    simp only [hkind] at h hsame ⊢
    cases h
    by_cases hin : c.inDiscovery = true ∧ c.depth = 2
    · refine ⟨ev.content, 0, by rw [if_pos hin], by rw [if_pos hin]; rfl, fun r n => ?_⟩
      rw [if_pos hin, if_pos hin]
      rfl
    · refine ⟨[], 0, by rw [if_neg hin, List.append_nil], by rw [if_neg hin]; rfl, fun r n => ?_⟩
      rw [if_neg hin, if_neg hin, List.append_nil]
      rfl
  | close =>
    simp only [hkind] at h hsame ⊢
    cases h
    exact hsame rfl rfl fun r n => rfl
  | _ =>
    simp only [hkind] at h hsame ⊢
    cases h
    exact hsame rfl rfl fun r n => rfl

/-- A part that collects nothing does so whatever has been collected before. -/
theorem part_relabel {part : Bytes} (h : Part o c part es o' c') (hraw : c'.raw = c.raw)
    (hcount : c'.discoveryCount = c.discoveryCount) (r : Bytes) (n : Nat) :
    Part o { c with raw := r, discoveryCount := n } part es o' { c' with raw := r, discoveryCount := n } := by
  have hshift : ∀ {c}, es.foldlM coreStep c = .ok c' → ∃ s k, c'.raw = c.raw ++ s ∧
      c'.discoveryCount = c.discoveryCount + k ∧
      ∀ r n, es.foldlM coreStep { c with raw := r, discoveryCount := n } =
        .ok { c' with raw := r ++ s, discoveryCount := n + k } := by
    clear hraw hcount h
    induction es with
    | nil =>
      intro c h
      cases h
      refine ⟨[], 0, (List.append_nil _).symm, rfl, fun r n => ?_⟩
      rw [List.append_nil, Nat.add_zero]
      rfl
    | cons ev es ih =>
      intro c h
      rw [List.foldlM_cons] at h
      cases hstep : coreStep c ev with
      | error e =>
        rw [hstep] at h
        cases h
      | ok c₁ =>
        rw [hstep] at h
        obtain ⟨s, k, hs, hk, hone⟩ := coreStep_shift hstep
        obtain ⟨s', k', hs', hk', hrest⟩ := ih h
        refine ⟨s ++ s', k + k', by rw [hs', hs, List.append_assoc], by rw [hk', hk, Nat.add_assoc], fun r n => ?_⟩
        rw [List.foldlM_cons, hone]
        refine (hrest (r ++ s) (n + k)).trans ?_
        rw [List.append_assoc, Nat.add_assoc]
  obtain ⟨s, k, hs, hk, hfold⟩ := hshift h.folds
  have hnil : s = [] := by
    rw [hraw] at hs
    exact List.self_eq_append_right.mp hs
  have hzero : k = 0 := by omega
  have hnow := hfold r n
  rw [hnil, hzero, List.append_nil, Nat.add_zero] at hnow
  exact ⟨h.lex, hnow⟩

end SettingsLemmas

/-! ## The update -/

/-- How the events around the new element come from the events of the document: they stood
around the old element, around an empty one, around an empty root, or around the place
before the end of the root. -/
inductive Kept : List Event → List Event → List Event → Prop
  | element {es₁ es₂ es₃ : List Event} {s e : Event} {o₀ : List Bytes} {raw : Bytes}
    {b : Bytes} (hs : s.kind = .start ∧ s.name = serverTag) (he : e.kind = .close ∧ e.name = serverTag)
    (hinner : Part (serverTag :: o₀) (inServer []) b es₂ (serverTag :: o₀) (inServer raw)) :
    Kept (es₁ ++ s :: (es₂ ++ e :: es₃)) es₁ es₃
  | empty {es₁ es₃ : List Event} {ev : Event} (hev : ev.kind = .empty) :
    Kept (es₁ ++ ev :: es₃) es₁ es₃
  | root {es₁ es₃ : List Event} {ev : Event} (hev : ev.kind = .empty) :
    Kept (es₁ ++ ev :: es₃) (es₁ ++ [⟨.start, settingsTag, []⟩, ⟨.text, [], utf8 "\n  "⟩])
      (⟨.text, [], utf8 "\n"⟩ :: ⟨.close, settingsTag, []⟩ :: es₃)
  | missing {es₁ es₃ data₁ data₃ : List Event} {ev : Event} (hev : ev.kind = .close)
    (hdata₁ : ∀ d ∈ data₁, d.kind = .text) (hdata₃ : ∀ d ∈ data₃, d.kind = .text) :
    Kept (es₁ ++ ev :: es₃) (es₁ ++ data₁) (data₃ ++ ev :: es₃)

/-- The parts of a document around the place of the address. -/
structure Frame (xml : Bytes) (shape : Shape) (es : List Event) (front back : Bytes) (es₁ es₃ : List Event)
    (s e : Event) (o₀ : List Bytes) : Prop where
  spliced : ∀ v, splice xml shape v = front ++ (v ++ back)
  valid : Valid front ∧ Valid back
  before : Part [] Walk.init.core front (es₁ ++ [s]) (serverTag :: o₀) (inServer [])
  after : ∀ raw, Part (serverTag :: o₀) (inServer raw) back (e :: es₃) [] ⟨0, 1, true, false, raw⟩
  start : s.kind = .start ∧ s.name = serverTag
  close : e.kind = .close ∧ e.name = serverTag
  kept : Kept es es₁ es₃

namespace SettingsLemmas

variable {es es₁ es₃ : List Event} {o o₀ o₁ : List Bytes} {c c' : Core} {a t rest xml : Bytes} {shape : Shape} {w : Walk}

theorem tagText_plain {name : Bytes} (hne : name ≠ []) (hnamed : ∀ b ∈ name, isNameByte b = true) : TagText name [] :=
  ⟨hne, hnamed, nofun, rfl⟩

theorem serverTag_text : TagText serverTag [] := tagText_plain (by decide) (by decide)

theorem settingsTag_text : TagText settingsTag [] := tagText_plain (by decide) (by decide)

theorem piece_start {name : Bytes} (h : TagText name []) (hfirst : name.head? ≠ some 33 ∧ name.head? ≠ some 63)
    (hroom : o.length < stack) : Piece o (60 :: (name ++ [62])) ⟨.start, name, []⟩ (name :: o) :=
  .token (.start h hfirst nofun hroom)

theorem piece_close {name : Bytes} (h : TagText name []) :
    Piece (name :: o) (60 :: 47 :: (name ++ [62])) ⟨.close, name, []⟩ o :=
  .token (.close h rfl)

theorem serverOpen : utf8 "<DiscoveryServer>" = 60 :: (serverTag ++ [62]) := by decide
theorem serverClose : utf8 "</DiscoveryServer>" = 60 :: 47 :: (serverTag ++ [62]) := by decide

theorem step_serverStart {s : Event} (hs : s.kind = .start ∧ s.name = serverTag) :
    coreStep ⟨1, 0, true, false, []⟩ s = .ok (inServer []) := by
  unfold coreStep
  rw [hs.1]
  rw [if_neg (by decide), if_neg (by decide), if_pos ⟨rfl, hs.2⟩]
  rfl

theorem step_serverEnd {e : Event} (he : e.kind = .close ∧ e.name = serverTag) (raw : Bytes) :
    coreStep (inServer raw) e = .ok (behindServer raw) := by
  unfold coreStep
  rw [he.1]
  dsimp only
  rw [if_pos ⟨rfl, he.2⟩]
  rfl

theorem step_data {ev : Event} (hkind : ev.kind = .text) (hout : ¬ (c.inDiscovery = true ∧ c.depth = 2)) :
    coreStep c ev = .ok c := by
  unfold coreStep
  rw [hkind]
  rw [if_neg hout]

/-- Character data outside the server's element, which may be empty. -/
theorem part_data (hdata : ∀ b ∈ t, isData b = true) (hout : ¬ (c.inDiscovery = true ∧ c.depth = 2)) :
    Part o c t (dataEvents t) o c := by
  refine ⟨.data hdata, ?_⟩
  unfold dataEvents
  split
  · rfl
  · rw [List.foldlM_cons, step_data rfl hout]
    rfl

/-- The address as character data inside the element. -/
theorem part_value (hdata : ∀ b ∈ t, isData b = true) :
    Part o (inServer []) t (dataEvents t) o (inServer t) := by
  refine ⟨.data hdata, ?_⟩
  unfold dataEvents
  split
  · next ht =>
    rw [ht]
    rfl
  · rfl

/-- The end of a document whose walk finishes, as seen from a cut. -/
theorem part_final (h : Part o c rest es [] c') (hc : c'.raw = c.raw) (hn : c'.discoveryCount = c.discoveryCount)
    (hdepth : c'.depth = 0) (hseen : c'.rootSeen = true) (hout : c'.inDiscovery = false) (raw : Bytes) :
    Part o { c with raw := raw, discoveryCount := 1 } rest es [] ⟨0, 1, true, false, raw⟩ := by
  have hlabel := part_relabel h hc hn raw 1
  have hfinal : ({ c' with raw := raw, discoveryCount := 1 } : Core) = ⟨0, 1, true, false, raw⟩ :=
    Core.ext hdepth rfl hseen hout rfl
  rwa [hfinal] at hlabel

/-- What is known at the end of a finished walk. -/
structure Finished (xml : Bytes) (es : List Event) (w : Walk) : Prop where
  walked : Walked xml es [] w
  seen : w.core.rootSeen = true
  depth : w.core.depth = 0
  count : w.core.discoveryCount ≤ 1

theorem finished_out (h : Finished xml es w) : w.core.inDiscovery = false := by
  by_contra hin
  have := walked_deep h.walked (Bool.eq_true_of_not_eq_false hin)
  rw [h.depth] at this
  exact absurd this (by decide)

theorem part_serverStart {s : Event} {c : Core} (hbefore : Part [] Walk.init.core a es₁ o₀ c)
    (hc : c = ⟨1, 0, true, false, []⟩) (hpiece : Piece o₀ t s (serverTag :: o₀))
    (hs : s.kind = .start ∧ s.name = serverTag) :
    Part [] Walk.init.core (a ++ t) (es₁ ++ [s]) (serverTag :: o₀) (inServer []) := by
  subst hc
  exact part_step hbefore hpiece (step_serverStart hs)

theorem part_serverEnd {e : Event} {raw : Bytes} (hpiece : Piece (serverTag :: o₀) t e o₀)
    (he : e.kind = .close ∧ e.name = serverTag) (hafter : Part o₀ (behindServer raw) rest es₃ [] c) :
    Part (serverTag :: o₀) (inServer raw) (t ++ rest) (e :: es₃) [] c :=
  part_append (part_single hpiece (step_serverEnd he raw)) hafter

theorem ascii_valid (text : Bytes) (h : ∀ b ∈ text, b < 128) : Valid text :=
  valid_ascii fun b hb => UInt8.lt_iff_toNat_lt.mp (h b hb)

theorem frame_element {b t' raw : Bytes} {es₂ : List Event} {s e : Event} (h : Finished xml es w)
    (helement : w.shape.hasElement = true) (hcount : w.core.discoveryCount = 1) (hraw : w.core.raw = raw)
    (hdone : xml = a ++ (t ++ (b ++ (t' ++ rest)))) (hes : es = es₁ ++ s :: (es₂ ++ e :: es₃))
    (hcontent : w.shape.contentStart = (a ++ t).length) (hend : w.shape.contentEnd = (a ++ (t ++ b)).length)
    (hvalid : Valid (a ++ (t ++ b))) (hstart : ServerStart a t es₁ s o₀)
    (hinner : Part (serverTag :: o₀) (inServer []) b es₂ (serverTag :: o₀) (inServer raw))
    (hclose : ServerEnd t' e o₀) (hafter : Part o₀ (behindServer raw) rest es₃ [] w.core) :
    Frame xml w.shape es (a ++ t) (t' ++ rest) es₁ es₃ s e o₀ where
  spliced v := by
    have htake : xml.take (a ++ t).length = a ++ t := by
      rw [hdone, ← List.append_assoc, List.take_left]
    have hdrop : xml.drop (a ++ (t ++ b)).length = t' ++ rest := by
      have hassoc : a ++ (t ++ (b ++ (t' ++ rest))) = (a ++ (t ++ b)) ++ (t' ++ rest) := by
        simp only [List.append_assoc]
      rw [hdone, hassoc, List.drop_left]
    rw [splice, if_pos helement, hcontent, hend, htake, hdrop, List.append_assoc]
  valid := by
    refine ⟨hstart.valid, valid_of_append hvalid ?_⟩
    have hassoc : (a ++ (t ++ b)) ++ (t' ++ rest) = xml := by
      rw [hdone]
      simp only [List.append_assoc]
    rw [hassoc]
    exact h.walked.valid
  before := part_serverStart hstart.before rfl hstart.piece ⟨hstart.kind, hstart.name⟩
  after raw' := part_serverEnd hclose.piece ⟨hclose.kind, hclose.name⟩
    (part_final hafter hraw hcount h.depth h.seen (finished_out h) raw')
  start := ⟨hstart.kind, hstart.name⟩
  close := ⟨hclose.kind, hclose.name⟩
  kept := by
    rw [hes]
    exact .element ⟨hstart.kind, hstart.name⟩ ⟨hclose.kind, hclose.name⟩ hinner

/-- The pieces of a new element. -/
theorem piece_serverStart (hone : o₀.length = 1) :
    Piece o₀ (utf8 "<DiscoveryServer>") ⟨.start, serverTag, []⟩ (serverTag :: o₀) := by
  rw [serverOpen]
  exact piece_start serverTag_text (by decide) (by rw [hone]; decide)

theorem piece_serverEnd : Piece (serverTag :: o₀) (utf8 "</DiscoveryServer>") ⟨.close, serverTag, []⟩ o₀ := by
  rw [serverClose]
  exact piece_close serverTag_text

theorem frame_empty {ev : Event} (h : Finished xml es w) (helement : w.shape.hasElement = false)
    (hempty : w.shape.hasEmpty = true) (hcount : w.core.discoveryCount = 1) (hraw : w.core.raw = [])
    (hone : o₁.length = 1) (hkind : ev.kind = .empty)
    (hmark : Mark xml es [] w.core w.shape.emptyStart w.shape.emptyEnd o₁ ⟨1, 0, true, false, []⟩ ev o₁
      (behindServer [])) :
    ∃ front back es₁ es₃ s e o₀, Frame xml w.shape es front back es₁ es₃ s e o₀ := by
  obtain @⟨a, t, rest, es₁, es₃, hdone, hes, hstart, hstop, hvalid, hbefore, _, _, hafter⟩ := hmark
  refine ⟨a ++ utf8 "<DiscoveryServer>", utf8 "</DiscoveryServer>" ++ rest, es₁, es₃, ⟨.start, serverTag, []⟩,
    ⟨.close, serverTag, []⟩, o₁, ?_, ⟨?_, ?_⟩, ?_, ?_, ⟨rfl, rfl⟩, ⟨rfl, rfl⟩, hes ▸ .empty hkind⟩
  · intro v
    have htake : xml.take a.length = a := by rw [hdone, List.take_left]
    have hdrop : xml.drop (a ++ t).length = rest := by rw [hdone, ← List.append_assoc, List.drop_left]
    rw [splice, if_neg (Bool.eq_false_iff.mp helement), if_pos hempty, hstart, hstop, htake, hdrop, element]
    simp only [List.append_assoc]
  · exact valid_append hvalid.1 ⟨_, rfl⟩
  · refine valid_append ⟨_, rfl⟩ (valid_of_append hvalid.2 ?_)
    rw [List.append_assoc, ← hdone]
    exact h.walked.valid
  · exact part_serverStart hbefore rfl (piece_serverStart hone) ⟨rfl, rfl⟩
  · exact fun raw => part_serverEnd piece_serverEnd ⟨rfl, rfl⟩
      (part_final hafter hraw hcount h.depth h.seen (finished_out h) raw)

theorem frame_root {ev : Event} (h : Finished xml es w) (helement : w.shape.hasElement = false)
    (hempty : w.shape.hasEmpty = false) (hroot : w.shape.rootEmpty = true) (hcore : w.core = ⟨0, 0, true, false, []⟩)
    (hkind : ev.kind = .empty)
    (hmark : Mark xml es [] w.core w.shape.rootStart w.shape.rootEnd [] Walk.init.core ev [] ⟨0, 0, true, false, []⟩) :
    ∃ front back es₁ es₃ s e o₀, Frame xml w.shape es front back es₁ es₃ s e o₀ := by
  obtain @⟨a, t, rest, es₁, es₃, hdone, hes, hstart, hstop, hvalid, hbefore, _, _, hafter⟩ := hmark
  have hopen : utf8 "<Settings>\n  " = 60 :: (settingsTag ++ [62]) ++ utf8 "\n  " := by decide
  have hclose : utf8 "\n</Settings>" = utf8 "\n" ++ 60 :: 47 :: (settingsTag ++ [62]) := by decide
  have hroom : ([] : List Bytes).length < stack := by decide
  refine ⟨a ++ utf8 "<Settings>\n  " ++ utf8 "<DiscoveryServer>",
    utf8 "</DiscoveryServer>" ++ (utf8 "\n</Settings>" ++ rest),
    es₁ ++ [⟨.start, settingsTag, []⟩, ⟨.text, [], utf8 "\n  "⟩],
    ⟨.text, [], utf8 "\n"⟩ :: ⟨.close, settingsTag, []⟩ :: es₃, ⟨.start, serverTag, []⟩,
    ⟨.close, serverTag, []⟩, [settingsTag], ?_, ⟨?_, ?_⟩, ?_, ?_, ⟨rfl, rfl⟩, ⟨rfl, rfl⟩, hes ▸ .root hkind⟩
  · intro v
    have htake : xml.take a.length = a := by rw [hdone, List.take_left]
    have hdrop : xml.drop (a ++ t).length = rest := by rw [hdone, ← List.append_assoc, List.drop_left]
    rw [splice, if_neg (Bool.eq_false_iff.mp helement), if_neg (Bool.eq_false_iff.mp hempty),
      if_pos hroot, hstart, hstop, htake, hdrop, element]
    simp only [List.append_assoc]
  · exact valid_append (valid_append hvalid.1 ⟨_, rfl⟩) ⟨_, rfl⟩
  · refine valid_append ⟨_, rfl⟩ (valid_append ⟨_, rfl⟩ (valid_of_append hvalid.2 ?_))
    rw [List.append_assoc, ← hdone]
    exact h.walked.valid
  · refine part_serverStart ?_ rfl (piece_serverStart rfl) ⟨rfl, rfl⟩
    rw [hopen, ← List.append_assoc]
    have htag := part_step hbefore (piece_start settingsTag_text (by decide) hroom)
      (show coreStep Walk.init.core _ = .ok ⟨1, 0, true, false, []⟩ from rfl)
    have hdata : Piece [settingsTag] (utf8 "\n  ") ⟨.text, [], utf8 "\n  "⟩ [settingsTag] :=
      .data (by decide) (by decide)
    have hboth := part_step htag hdata (step_data rfl (by decide))
    rw [List.append_assoc es₁] at hboth
    exact hboth
  · intro raw
    refine part_serverEnd piece_serverEnd ⟨rfl, rfl⟩ ?_
    rw [hclose, List.append_assoc]
    have hdata : Piece [settingsTag] (utf8 "\n") ⟨.text, [], utf8 "\n"⟩ [settingsTag] := .data (by decide) (by decide)
    refine part_append (part_single hdata (step_data rfl (by nofun)))
      (part_append ((@part_single _ _ _ _ _ ⟨0, 1, true, false, raw⟩) (piece_close settingsTag_text) rfl) ?_)
    have hraw : w.core.raw = [] := by rw [hcore]
    have hzero : w.core.discoveryCount = 0 := by rw [hcore]
    exact part_final hafter hraw hzero h.depth h.seen (finished_out h) raw

theorem frame_missing {ev : Event} {stop : Nat} (h : Finished xml es w) (helement : w.shape.hasElement = false)
    (hempty : w.shape.hasEmpty = false) (hroot : w.shape.rootEmpty = false) (hcount : w.core.discoveryCount = 0)
    (hraw : w.core.raw = []) (hone : o₁.length = 1) (hkind : ev.kind = .close)
    (hmark : Mark xml es [] w.core w.shape.settingsEndStart stop o₁ { w.core with depth := 1 } ev [] w.core) :
    ∃ front back es₁ es₃ s e o₀, Frame xml w.shape es front back es₁ es₃ s e o₀ := by
  obtain @⟨a, t, rest, es₁, es₃, hdone, hes, hstart, hstop, hvalid, hbefore, hpiece, hstep, hafter⟩ := hmark
  have hnow : ({ w.core with depth := 1 } : Core) = ⟨1, 0, true, false, []⟩ :=
    Core.ext rfl hcount h.seen (finished_out h) hraw
  rw [hnow] at hbefore hstep
  -- the indentation and the newline, when the end tag starts a line
  obtain ⟨indent, hindent⟩ : ∃ i, i = if w.shape.settingsEndStart = 0 ∨
      (xml.take w.shape.settingsEndStart).getLast? = some 10 then utf8 "  " else [] := ⟨_, rfl⟩
  obtain ⟨newline, hnewline⟩ : ∃ n, n = if w.shape.settingsEndStart = 0 ∨
      (xml.take w.shape.settingsEndStart).getLast? = some 10 then ([10] : Bytes) else [] := ⟨_, rfl⟩
  have hblank : (∀ b ∈ indent, isData b = true ∧ b < 128) ∧ ∀ b ∈ newline, isData b = true ∧ b < 128 := by
    rw [hindent, hnewline]
    split
    · exact ⟨by decide, by decide⟩
    · exact ⟨nofun, nofun⟩
  have hdata₁ : Part o₁ ⟨1, 0, true, false, []⟩ indent (dataEvents indent) o₁ ⟨1, 0, true, false, []⟩ :=
    part_data (fun b hb => (hblank.1 b hb).1) (by decide)
  have hdata₃ (raw : Bytes) : Part o₁ (behindServer raw) newline (dataEvents newline) o₁ (behindServer raw) :=
    part_data (fun b hb => (hblank.2 b hb).1) (fun hin => nomatch hin.1)
  refine ⟨a ++ indent ++ utf8 "<DiscoveryServer>", utf8 "</DiscoveryServer>" ++ (newline ++ (t ++ rest)),
    es₁ ++ dataEvents indent, dataEvents newline ++ ev :: es₃, ⟨.start, serverTag, []⟩,
    ⟨.close, serverTag, []⟩, o₁, ?_, ⟨?_, ?_⟩, ?_, ?_, ⟨rfl, rfl⟩, ⟨rfl, rfl⟩,
    hes ▸ .missing hkind (fun _ => mem_dataEvents) (fun _ => mem_dataEvents)⟩
  · intro v
    have htake : xml.take w.shape.settingsEndStart = a := by rw [hstart, hdone, List.take_left]
    have hdrop : xml.drop w.shape.settingsEndStart = t ++ rest := by rw [hstart, hdone, List.drop_left]
    rw [splice, if_neg (Bool.eq_false_iff.mp helement), if_neg (Bool.eq_false_iff.mp hempty),
      if_neg (Bool.eq_false_iff.mp hroot)]
    dsimp only
    rw [← hindent, ← hnewline, htake, hdrop, element]
    simp only [List.append_assoc]
  · exact valid_append (valid_append hvalid.1 (ascii_valid indent fun b hb => (hblank.1 b hb).2)) ⟨_, rfl⟩
  · refine valid_append ⟨_, rfl⟩ (valid_append (ascii_valid newline fun b hb => (hblank.2 b hb).2)
      (valid_of_append hvalid.1 ?_))
    rw [← hdone]
    exact h.walked.valid
  · exact part_serverStart (part_append hbefore hdata₁) rfl (piece_serverStart hone) ⟨rfl, rfl⟩
  · intro raw
    refine part_serverEnd piece_serverEnd ⟨rfl, rfl⟩ (part_append (hdata₃ raw) ?_)
    have hend : Part o₁ ⟨1, 0, true, false, []⟩ (t ++ rest) (ev :: es₃) [] w.core :=
      part_append (part_single hpiece hstep) hafter
    exact part_final hend hraw hcount h.depth h.seen (finished_out h) raw

theorem exists_frame (h : Finished xml es w) :
    ∃ front back es₁ es₃ s e o₀, Frame xml w.shape es front back es₁ es₃ s e o₀ := by
  cases h.walked.child h.count with
  | absent hcount helement hempty _ hraw =>
    cases h.walked.root with
    | unseen hcore _ =>
      have hseen := h.seen
      rw [hcore] at hseen
      cases hseen
    | empty hcore hroot hkind hmark => exact frame_root h helement hempty hroot hcore hkind hmark
    | opened _ hdepth _ => exact absurd h.depth hdepth
    | closed _ _ _ hroot hone hkind hmark =>
      exact frame_missing h helement hempty hroot hcount hraw hone hkind hmark
  | inside _ _ hin _ _ _ _ _ _ => exact absurd (hin.symm.trans (finished_out h)) (by decide)
  | complete hcount helement _ hraw hdone hes hcontent hend hvalid hstart hinner hclose hafter =>
    exact ⟨_, _, _, _, _, _, _, frame_element h helement hcount hraw hdone hes hcontent hend hvalid hstart hinner
      hclose hafter⟩
  | empty hcount helement hempty _ hraw hone hkind hmark =>
    exact frame_empty h helement hempty hcount hraw hone hkind hmark

end SettingsLemmas

open SettingsLemmas

/-- A finished walk over a document. -/
theorem walk_finished {xml : Bytes} {shape : Shape} {text : String} (h : walk xml = .ok (shape, text)) :
    ∃ w, Finished xml (eventsOf xml) w ∧ w.shape = shape ∧ fromUtf8Lossy w.core.raw = text := by
  obtain ⟨w, hwalked, hshape, htext, hseen, hdepth, hcount⟩ := walk_ok h
  exact ⟨w, ⟨hwalked, hseen, hdepth, hcount⟩, hshape, htext⟩

/-- The new document, as a sequence of pieces. -/
theorem lex_terminated {xml front back v : Bytes} {shape : Shape} {es es₁ es₃ : List Event} {s e : Event}
    {o₀ : List Bytes} (hframe : Frame xml shape es front back es₁ es₃ s e o₀) (hdata : ∀ b ∈ v, isData b = true) :
    ∃ newline, (∀ d ∈ newline, d.kind = .text) ∧
      Part [] Walk.init.core (terminated (splice xml shape v))
        (es₁ ++ s :: (dataEvents v ++ e :: (es₃ ++ newline))) [] ⟨0, 1, true, false, v⟩ := by
  have hpart := part_append hframe.before (part_append (part_value hdata) (hframe.after v))
  rw [← hframe.spliced] at hpart
  have hevents (newline : List Event) : es₁ ++ [s] ++ (dataEvents v ++ e :: es₃) ++ newline =
      es₁ ++ s :: (dataEvents v ++ e :: (es₃ ++ newline)) := by
    simp only [List.append_assoc, List.cons_append, List.nil_append]
  unfold terminated
  split
  · refine ⟨[], nofun, ?_⟩
    rw [← hevents, List.append_nil]
    exact hpart
  · refine ⟨dataEvents [10], fun _ => mem_dataEvents, ?_⟩
    rw [← hevents]
    exact part_append hpart (part_data (by decide) (fun hin => nomatch hin.1))

theorem valid_terminated {xml front back v : Bytes} {shape : Shape} {es es₁ es₃ : List Event} {s e : Event}
    {o₀ : List Bytes} (hframe : Frame xml shape es front back es₁ es₃ s e o₀) (hv : Valid v) :
    Valid (terminated (splice xml shape v)) := by
  have hout : Valid (splice xml shape v) := by
    rw [hframe.spliced]
    exact valid_append hframe.valid.1 (valid_append hv hframe.valid.2)
  unfold terminated
  split
  · exact hout
  · exact valid_append hout (valid_plain (by decide))

/-- What an update that changes the document does. -/
theorem updateSettingsXml_some {xml v out : Bytes} (h : updateSettingsXml xml v = .ok (some out)) :
    ∃ shape text, walk xml = .ok (shape, text) ∧ out = terminated (splice xml shape v) ∧
      out.length ≤ settingsLimit ∧ parseServer xml ≠ .ok v := by
  unfold updateSettingsXml at h
  cases hparse : parseServer xml with
  | error e =>
    rw [hparse] at h
    cases h
  | ok current =>
    rw [hparse] at h
    dsimp only [bind, Except.bind] at h
    split at h
    · cases h
    next hne =>
    cases hwalk : walk xml with
    | error e =>
      rw [hwalk] at h
      cases h
    | ok p =>
      obtain ⟨shape, text⟩ := p
      rw [hwalk] at h
      dsimp only at h
      split at h
      · cases h
      · next hsize =>
        cases h
        exact ⟨shape, text, rfl, rfl, Nat.not_lt.mp hsize, fun heq => hne (Except.ok.inj heq)⟩

theorem updateSettingsXml_none {xml v : Bytes} : updateSettingsXml xml v = .ok none ↔ parseServer xml = .ok v := by
  unfold updateSettingsXml
  cases parseServer xml with
  | error e => exact ⟨fun h => (nomatch h), fun h => (nomatch h)⟩
  | ok current =>
    dsimp only [bind, Except.bind]
    by_cases heq : current = v
    · rw [if_pos heq, heq]
      exact ⟨fun _ => rfl, fun _ => rfl⟩
    · rw [if_neg heq]
      refine ⟨fun h => ?_, fun h => absurd (Except.ok.inj h) heq⟩
      cases hwalk : walk xml with
      | error e =>
        rw [hwalk] at h
        cases h
      | ok p =>
        rw [hwalk] at h
        dsimp only at h
        split at h <;> cases h

/-- An address is plain character data. -/
theorem normalized_data {value : String} {v : Bytes} (hv : normalizeServer value = .ok v) :
    Valid v ∧ ∀ b ∈ v, isData b = true := by
  have hplain := normalizeServer_plain hv
  refine ⟨ascii_valid v fun b hb => (hplain b hb).1, fun b hb => ?_⟩
  obtain ⟨_, hlt, hamp⟩ := hplain b hb
  rw [isData, Bool.and_eq_true, bne_iff_ne, bne_iff_ne]
  exact ⟨hlt, hamp⟩

/-- **What the Web side writes is what it reads.** For every text that normalises to an
address, and every document: when the update makes a new document, that document says the
address, and updating it again changes nothing; when it reports no change, the document
says the address already. The address is its own normal form. -/
theorem update_reads_back (value : String) (v : Bytes) (hv : normalizeServer value = .ok v) (xml : Bytes) :
    (∀ out, updateSettingsXml xml v = .ok (some out) → parseServer out = .ok v ∧ updateSettingsXml out v = .ok none) ∧
      (updateSettingsXml xml v = .ok none → parseServer xml = .ok v) ∧
      ∃ t, utf8 t = v ∧ normalizeServer t = .ok v := by
  obtain ⟨⟨t, ht⟩, hdata⟩ := normalized_data hv
  have hnormal := normalizeServer_normal hv ht
  refine ⟨fun out hout => ?_, updateSettingsXml_none.mp, t, ht, hnormal⟩
  obtain ⟨shape, text, hwalk, rfl, _, _⟩ := updateSettingsXml_some hout
  obtain ⟨w, hfinished, rfl, _⟩ := walk_finished hwalk
  obtain ⟨front, back, es₁, es₃, s, e, o₀, hframe⟩ := exists_frame hfinished
  obtain ⟨newline, _, hpart⟩ := lex_terminated hframe hdata
  obtain ⟨shape', hread⟩ := walk_of_lex (valid_terminated hframe ⟨t, ht⟩) hpart.lex hpart.folds
    (show finish ⟨0, 1, true, false, v⟩ = .ok v from rfl)
  have hparse : parseServer (terminated (splice xml w.shape v)) = .ok v := by
    rw [parseServer, hread, ← ht, fromUtf8Lossy_utf8, ht]
    exact hnormal
  exact ⟨hparse, updateSettingsXml_none.mpr hparse⟩

theorem settings_update_reads_back :
    updateSettingsXml (utf8 "<Settings><Keep/></Settings>") (utf8 "omt://new.example:6399") =
        .ok (some (utf8 "<Settings><Keep/><DiscoveryServer>omt://new.example:6399</DiscoveryServer></Settings>\n")) ∧
      (∀ out, updateSettingsXml (utf8 "<Settings><Keep/></Settings>") (utf8 "omt://new.example:6399") =
        .ok (some out) → parseServer out = .ok (utf8 "omt://new.example:6399")) :=
  ⟨by decide +kernel, fun out hout =>
    ((update_reads_back "new.example" _ (by decide +kernel) _).1 out hout).1⟩

end OmtClient.Web.Network
