import OmtClient.Gui.Log

/-!
# The form of the deployer

`set_fields` of `crates/rpi-omt-deploy-gui/src/server.rs`, which checks all names of a request before
it changes any field, and the fields of the form in every state that the requests, the worker and the
polls lead to.

1. `edit_cases`: a request of the form changes nothing, or just what it names.
2. `event_form`: what an event can do to the form.
3. `fields_exact`: both, over every run.
-/

namespace OmtClient.Gui.Fields

open OmtClient.Lib OmtClient.Common OmtClient.Deploy OmtClient.Gui.AppLemmas

/-! ## The request, on the state -/

/-- Work on the state that may fail on the way, and leaves the state as it is by then. -/
abbrev Edit := App → Except String Unit × App

namespace Edit

def done : Edit := fun a => (.ok (), a)

def fail (problem : String) : Edit := fun a => (.error problem, a)

def change (f : App → App) : Edit := fun a => (.ok (), f a)

def andThen (x y : Edit) : Edit := fun a =>
  match x a with
  | (.ok (), a) => y a
  | (.error problem, a) => (.error problem, a)

/-- A loop over some members. -/
def each {α : Type} (body : α → Edit) : List α → Edit
  | [] => done
  | m :: members => (body m).andThen (each body members)

end Edit

section

variable {F : Type}

def checkField (m : String × Json.Value F) : Edit := fun a =>
  match m.2.asStr with
  | none => Edit.fail "A field value must be a string." a
  | some text =>
    if Field.fromName m.1 = none then Edit.fail "Unknown field." a
    else if fieldLimit < len text ∨ hasControl text = true then
      Edit.fail "A value is too long or holds a control character." a
    else Edit.done a

def checkToggle (m : String × Json.Value F) : Edit := fun a =>
  match asBool m.2 with
  | none => Edit.fail "A toggle must be true or false." a
  | some _ => if (Slot.fromName m.1).filter Slot.isToggle = none then Edit.fail "Unknown toggle." a else Edit.done a

/-- `set_fields`, with the state that it leaves behind. -/
def setFieldsEdit (body : Json.Value F) : Edit := fun a =>
  if body.onlyKeys ["fields", "toggles"] = false then Edit.fail "Unknown key." a
  else if a.busy then Edit.fail "A job is running; its settings cannot change now." a
  else
    match membersOf body "fields" "Bad fields." with
    | .error problem => Edit.fail problem a
    | .ok fields =>
      match membersOf body "toggles" "Bad toggles." with
      | .error problem => Edit.fail problem a
      | .ok toggles =>
        ((Edit.each checkField fields).andThen ((Edit.each checkToggle toggles).andThen
          ((Edit.each (fun m => .change fun a => applyField a m) fields).andThen
            (Edit.each (fun m => .change fun a => applyToggle a m) toggles)))) a

/-! ## What a request names -/

/-- The last text that the members give a field. -/
def givenText (members : List (String × Json.Value F)) (f : Field) : Option String :=
  members.reverse.findSome? fun m => if m.1 = f.name then m.2.asStr else none

/-- The last value that the members give a switch. -/
def givenSwitch (members : List (String × Json.Value F)) (s : Slot) : Option Bool :=
  members.reverse.findSome? fun m => if m.1 = s.name then asBool m.2 else none

/-- Nothing but the fields and the switches is changed. -/
structure Else (a a' : App) : Prop where
  shouldQuit : a'.shouldQuit = a.shouldQuit
  status : a'.status = a.status
  log : a'.log = a.log ∧ a'.logEnd = a.logEnd ∧ a'.pushed = a.pushed
  confirm : a'.confirm = a.confirm
  job : a'.job = a.job
  switchToPi : a'.switchToPiAfterJob = a.switchToPiAfterJob

theorem Else.refl (a : App) : Else a a := ⟨rfl, rfl, ⟨rfl, rfl, rfl⟩, rfl, rfl, rfl⟩

theorem Else.trans {a a' b : App} (h : Else a a') (h' : Else a' b) : Else a b :=
  ⟨h'.shouldQuit.trans h.shouldQuit, h'.status.trans h.status,
    ⟨h'.log.1.trans h.log.1, h'.log.2.1.trans h.log.2.1, h'.log.2.2.trans h.log.2.2⟩, h'.confirm.trans h.confirm,
    h'.job.trans h.job, h'.switchToPi.trans h.switchToPi⟩

/-- The named fields and switches have the values given, and all others are as they were. -/
structure Applied (fields toggles : List (String × Json.Value F)) (a a' : App) : Prop extends Else a a' where
  fieldNames : ∀ m ∈ fields, ∃ f : Field, m.1 = f.name
  toggleNames : ∀ m ∈ toggles, ∃ s : Slot, m.1 = s.name ∧ s.isToggle = true
  field : ∀ f, a'.form.field f = (givenText fields f).getD (a.form.field f)
  toggle : ∀ s, s.isToggle = true → a'.toggle s = (givenSwitch toggles s).getD (a.toggle s)

end

/-- No field is too long or has a control character. -/
def Clean (a : App) : Prop := ∀ f, len (a.form.field f) ≤ fieldLimit ∧ hasControl (a.form.field f) = false

/-- The job that was running has ended well and is no more. -/
def Completes (a a' : App) : Prop := ∃ w, a.job = some w ∧ w.result = some (.ok ()) ∧ a'.job = none

namespace FieldsLemmas

variable {F : Type} {a a' b : App} {fields toggles : List (String × Json.Value F)} {body : Json.Value F}

/-! ### Names -/

theorem field_fromName (f : Field) : Field.fromName f.name = some f := by
  cases f <;> decide +kernel

theorem field_name {name : String} {f : Field} (h : Field.fromName name = some f) : name = f.name := by
  unfold Field.fromName at h
  have hname := List.find?_some h
  exact (beq_iff_eq.mp hname).symm

theorem slot_fromName {s : Slot} (h : s.isToggle = true) : Slot.fromName s.name = some s := by
  revert h
  cases s <;> decide +kernel

theorem slot_name {name : String} {s : Slot} (h : Slot.fromName name = some s) : name = s.name := by
  unfold Slot.fromName at h
  have hname := List.find?_some h
  exact (beq_iff_eq.mp hname).symm

/-! ### The loops -/

theorem each_check {α : Type} {body : α → Edit} (hbody : ∀ m a, body m a = (.ok (), a) ∨ ∃ e, body m a = (.error e, a))
    (members : List α) (a : App) :
    (Edit.each body members a = (.ok (), a) ∧ ∀ m ∈ members, body m a = (.ok (), a)) ∨
      ∃ e, Edit.each body members a = (.error e, a) := by
  induction members with
  | nil => exact .inl ⟨rfl, fun m hm => by cases hm⟩
  | cons m members ih =>
    rw [Edit.each, Edit.andThen]
    rcases hbody m a with hm | ⟨e, hm⟩
    · rw [hm]
      exact ih.imp_left fun ⟨hall, hmembers⟩ => ⟨hall, List.forall_mem_cons.mpr ⟨hm, hmembers⟩⟩
    · rw [hm]
      exact .inr ⟨e, rfl⟩

theorem each_change {α : Type} (f : α → App → App) (members : List α) (a : App) :
    Edit.each (fun m => .change (f m)) members a = (.ok (), members.foldl (fun a m => f m a) a) := by
  induction members generalizing a with
  | nil => rfl
  | cons m members ih => exact ih (f m a)

theorem checkField_cases (m : String × Json.Value F) (a : App) :
    checkField m a = (.ok (), a) ∨ ∃ e, checkField m a = (.error e, a) := by
  unfold checkField
  split
  · exact .inr ⟨_, rfl⟩
  · split
    · exact .inr ⟨_, rfl⟩
    · split
      · exact .inr ⟨_, rfl⟩
      · exact .inl rfl

theorem checkToggle_cases (m : String × Json.Value F) (a : App) :
    checkToggle m a = (.ok (), a) ∨ ∃ e, checkToggle m a = (.error e, a) := by
  unfold checkToggle
  split
  · exact .inr ⟨_, rfl⟩
  · split
    · exact .inr ⟨_, rfl⟩
    · exact .inl rfl

/-- A field that passes is set to its text. -/
theorem checkField_ok {m : String × Json.Value F} (h : checkField m a = (.ok (), a)) :
    ∃ f text, m.1 = f.name ∧ m.2.asStr = some text ∧
      ∀ b : App, applyField b m = { b with form := { b.form with field := Function.update b.form.field f text } } := by
  unfold checkField at h
  split at h
  · cases h
  next text htext =>
    split at h
    · cases h
    next hname =>
      split at h
      · cases h
      next hfine =>
        obtain ⟨f, hf⟩ := Option.ne_none_iff_exists'.mp hname
        refine ⟨f, text, field_name hf, htext, fun b => ?_⟩
        rw [applyField, hf, htext]
        exact if_neg hfine

theorem checkToggle_ok {m : String × Json.Value F} (h : checkToggle m a = (.ok (), a)) :
    ∃ s on, m.1 = s.name ∧ s.isToggle = true ∧ asBool m.2 = some on ∧ ∀ b : App, applyToggle b m = b.setToggle on s := by
  unfold checkToggle at h
  split at h
  · cases h
  next on hon =>
    split at h
    · cases h
    next hname =>
      obtain ⟨s, hs⟩ := Option.ne_none_iff_exists'.mp hname
      obtain ⟨hs, htoggle⟩ := Option.filter_eq_some_iff.mp hs
      refine ⟨s, on, slot_name hs, htoggle, hon, fun b => ?_⟩
      rw [applyToggle, hs, hon]

theorem findSome_snoc {α β : Type} (f : α → Option β) (l : List α) (x : α) :
    (l ++ [x]).reverse.findSome? f = (f x).or (l.reverse.findSome? f) := by
  rw [List.reverse_append, List.reverse_singleton, List.singleton_append, List.findSome?_cons]
  cases f x <;> rfl

/-- The loop over the fields sets every one of them to the last text given. -/
theorem fields_applied (hfields : ∀ m ∈ fields, checkField m a = (.ok (), a)) (b : App) :
    Else b (fields.foldl applyField b) ∧ (∀ s, (fields.foldl applyField b).toggle s = b.toggle s) ∧
      ∀ f, (fields.foldl applyField b).form.field f = (givenText fields f).getD (b.form.field f) := by
  induction fields using List.reverseRecOn with
  | nil => exact ⟨Else.refl b, fun _ => rfl, fun _ => rfl⟩
  | append_singleton fields m ih =>
    obtain ⟨helse, htoggle, hfield⟩ := ih fun m hm => hfields m (List.mem_append_left _ hm)
    obtain ⟨g, text, hname, htext, happly⟩ := checkField_ok (hfields m (List.mem_append_right _ (List.mem_singleton_self m)))
    rw [List.foldl_append, List.foldl_cons, List.foldl_nil, happly]
    refine ⟨helse.trans ⟨rfl, rfl, ⟨rfl, rfl, rfl⟩, rfl, rfl, rfl⟩, fun s => ?_, fun f => ?_⟩
    · rw [← htoggle s]
      cases s <;> rfl
    · dsimp only
      rw [givenText, findSome_snoc, ← givenText, htext, hname]
      by_cases hsame : f = g
      · rw [hsame, if_pos rfl, Function.update_self]
        rfl
      · have hother : g.name ≠ f.name := by
          intro h
          have hg := field_fromName g
          rw [h, field_fromName f] at hg
          exact hsame (Option.some.inj hg)
        rw [if_neg hother, Function.update_of_ne hsame, hfield]
        rfl

theorem setToggle_else (a : App) (on : Bool) (s : Slot) :
    Else a (a.setToggle on s) ∧ (a.setToggle on s).form.field = a.form.field := by
  unfold App.setToggle
  split <;> exact ⟨⟨rfl, rfl, ⟨rfl, rfl, rfl⟩, rfl, rfl, rfl⟩, rfl⟩

theorem toggle_setToggle (a : App) (on : Bool) {s t : Slot} (hs : s.isToggle = true) (ht : t.isToggle = true) :
    (a.setToggle on s).toggle t = if t = s then on else a.toggle t := by
  have hcases : ∀ u : Slot, u.isToggle = true → u = .alpineApplyLogin ∨ u = .rotateWebPassword ∨ u = .wifiConnect ∨ u = .wifiPreserve := by
    intro u
    cases u <;> decide
  rcases hcases s hs with rfl | rfl | rfl | rfl <;> rcases hcases t ht with rfl | rfl | rfl | rfl <;> rfl

/-- The loop over the switches sets every one of them to the last value given. -/
theorem toggles_applied (htoggles : ∀ m ∈ toggles, checkToggle m a = (.ok (), a)) (b : App) :
    Else b (toggles.foldl applyToggle b) ∧ (toggles.foldl applyToggle b).form.field = b.form.field ∧
      ∀ s, s.isToggle = true → (toggles.foldl applyToggle b).toggle s = (givenSwitch toggles s).getD (b.toggle s) := by
  induction toggles using List.reverseRecOn with
  | nil => exact ⟨Else.refl b, rfl, fun _ _ => rfl⟩
  | append_singleton toggles m ih =>
    obtain ⟨helse, hfield, htoggle⟩ := ih fun m hm => htoggles m (List.mem_append_left _ hm)
    obtain ⟨t, on, hname, ht, hon, happly⟩ :=
      checkToggle_ok (htoggles m (List.mem_append_right _ (List.mem_singleton_self m)))
    rw [List.foldl_append, List.foldl_cons, List.foldl_nil, happly]
    obtain ⟨helse', hfield'⟩ := setToggle_else (toggles.foldl applyToggle b) on t
    refine ⟨helse.trans helse', hfield'.trans hfield, fun s hs => ?_⟩
    rw [toggle_setToggle _ on ht hs, givenSwitch, findSome_snoc, ← givenSwitch, hon, hname]
    by_cases hsame : s = t
    · rw [if_pos hsame, hsame, if_pos rfl]
      rfl
    · have hother : t.name ≠ s.name := by
        intro h
        have hself := slot_fromName ht
        rw [h, slot_fromName hs] at hself
        exact hsame (Option.some.inj hself)
      rw [if_neg hsame, if_neg hother, htoggle s hs]
      rfl

/-- A request of the form changes nothing, or just what it names. -/
theorem edit_cases (body : Json.Value F) (a : App) :
    (∃ problem, setFieldsEdit body a = (.error problem, a)) ∨
      ∃ fields toggles a', membersOf body "fields" "Bad fields." = .ok fields ∧
        membersOf body "toggles" "Bad toggles." = .ok toggles ∧ setFieldsEdit body a = (.ok (), a') ∧
        Applied fields toggles a a' := by
  unfold setFieldsEdit
  split
  · exact .inl ⟨_, rfl⟩
  · split
    · exact .inl ⟨_, rfl⟩
    · cases membersOf body "fields" "Bad fields." with
      | error problem => exact .inl ⟨_, rfl⟩
      | ok fields =>
        cases membersOf body "toggles" "Bad toggles." with
        | error problem => exact .inl ⟨_, rfl⟩
        | ok toggles =>
          dsimp only
          rcases each_check checkField_cases fields a with ⟨hfields, hok⟩ | ⟨e, hfields⟩
          · rcases each_check checkToggle_cases toggles a with ⟨htoggles, hok'⟩ | ⟨e, htoggles⟩
            · obtain ⟨helse, hswitch, htext⟩ := fields_applied hok a
              obtain ⟨helse', htext', hswitch'⟩ := toggles_applied hok' (fields.foldl applyField a)
              refine .inr ⟨fields, toggles, toggles.foldl applyToggle (fields.foldl applyField a), rfl, rfl, ?_, helse.trans helse',
                fun m hm => ?_, fun m hm => ?_, fun f => ?_, fun s hs => ?_⟩
              · rw [Edit.andThen, hfields]
                dsimp only
                rw [Edit.andThen, htoggles]
                dsimp only
                rw [Edit.andThen, each_change]
                exact each_change _ toggles _
              · obtain ⟨f, _, hname, _⟩ := checkField_ok (hok m hm)
                exact ⟨f, hname⟩
              · obtain ⟨s, _, hname, hs, _⟩ := checkToggle_ok (hok' m hm)
                exact ⟨s, hname, hs⟩
              · rw [htext', htext]
              · rw [hswitch' s hs, hswitch]
            · refine .inl ⟨e, ?_⟩
              rw [Edit.andThen, hfields]
              dsimp only
              rw [Edit.andThen, htoggles]
          · refine .inl ⟨e, ?_⟩
            rw [Edit.andThen, hfields]

/-! ### The request as a value -/

theorem checkField_head (m : String × Json.Value F) (rest : List (String × Json.Value F)) (a : App) :
    (checkField m a = (.ok (), a) ∧ checkFields (m :: rest) = checkFields rest) ∨
      ∃ e, checkField m a = (.error e, a) ∧ checkFields (m :: rest) = some e := by
  obtain ⟨name, value⟩ := m
  rw [checkFields]
  unfold checkField
  dsimp only
  cases value.asStr with
  | none => exact .inr ⟨_, rfl, rfl⟩
  | some text =>
    dsimp only
    by_cases hname : Field.fromName name = none
    · rw [if_pos hname, if_pos hname]
      exact .inr ⟨_, rfl, rfl⟩
    · rw [if_neg hname, if_neg hname]
      by_cases hfine : fieldLimit < len text ∨ hasControl text = true
      · rw [if_pos hfine, if_pos hfine]
        exact .inr ⟨_, rfl, rfl⟩
      · rw [if_neg hfine, if_neg hfine]
        exact .inl ⟨rfl, rfl⟩

theorem checkToggle_head (m : String × Json.Value F) (rest : List (String × Json.Value F)) (a : App) :
    (checkToggle m a = (.ok (), a) ∧ checkToggles (m :: rest) = checkToggles rest) ∨
      ∃ e, checkToggle m a = (.error e, a) ∧ checkToggles (m :: rest) = some e := by
  obtain ⟨name, value⟩ := m
  rw [checkToggles]
  unfold checkToggle
  dsimp only
  cases asBool value with
  | none => exact .inr ⟨_, rfl, rfl⟩
  | some on =>
    dsimp only
    by_cases hname : (Slot.fromName name).filter Slot.isToggle = none
    · rw [if_pos hname, if_pos hname]
      exact .inr ⟨_, rfl, rfl⟩
    · rw [if_neg hname, if_neg hname]
      exact .inl ⟨rfl, rfl⟩

/-- A loop of checks gives the first problem that there is. -/
theorem each_first {α : Type} {check : α → Edit} {problems : List α → Option String} (hnil : problems [] = none)
    (hcons : ∀ m rest a, (check m a = (.ok (), a) ∧ problems (m :: rest) = problems rest) ∨
      ∃ e, check m a = (.error e, a) ∧ problems (m :: rest) = some e) (members : List α) (a : App) :
    Edit.each check members a = ((problems members).elim (.ok ()) .error, a) := by
  induction members with
  | nil =>
    rw [hnil]
    rfl
  | cons m members ih =>
    rw [Edit.each, Edit.andThen]
    rcases hcons m members a with ⟨hm, hrest⟩ | ⟨e, hm, hfirst⟩
    · rw [hm, hrest]
      exact ih
    · rw [hm, hfirst]
      rfl

/-- The state that a request leaves is the one that it came to, or the one that the checks let through. -/
theorem setFieldsEdit_eq (body : Json.Value F) (a : App) :
    setFieldsEdit body a = match setFields a body with
      | .ok a' => (.ok (), a')
      | .error problem => (.error problem, a) := by
  unfold setFieldsEdit setFields
  split
  · rfl
  · split
    · rfl
    · cases membersOf body "fields" "Bad fields." with
      | error problem => rfl
      | ok fields =>
        cases membersOf body "toggles" "Bad toggles." with
        | error problem => rfl
        | ok toggles =>
          dsimp only
          rw [Edit.andThen, each_first rfl checkField_head]
          cases checkFields fields with
          | some problem => rfl
          | none =>
            show Edit.andThen _ _ a = _
            rw [Edit.andThen, each_first rfl checkToggle_head]
            cases checkToggles toggles with
            | some problem => rfl
            | none =>
              show Edit.andThen _ _ a = _
              rw [Edit.andThen, each_change]
              exact each_change _ toggles _

theorem setFields_applied (h : setFields a body = .ok a') : a.busy = false ∧
    ∃ fields toggles : List (String × Json.Value F), Applied fields toggles a a' := by
  have hedit := setFieldsEdit_eq body a
  rw [h] at hedit
  refine ⟨?_, ?_⟩
  · by_contra hbusy
    unfold setFields at h
    rw [if_pos (Bool.eq_true_of_not_eq_false hbusy)] at h
    split at h <;> cases h
  · rcases edit_cases body a with ⟨problem, hfail⟩ | ⟨fields, toggles, b, _, _, hok, happlied⟩
    · rw [hedit] at hfail
      cases hfail
    · rw [hedit] at hok
      cases hok
      exact ⟨fields, toggles, happlied⟩

/-! ### What leaves the form alone -/

theorem form_setStatus (a : App) (text : String) : (a.setStatus text).form = a.form := by
  unfold App.setStatus
  rfl

theorem form_pushLog (a : App) (text : String) : (a.pushLog text).form = a.form := by
  unfold App.pushLog
  induction App.logLines [] text.toList generalizing a with
  | nil => rfl
  | cons line lines ih => exact ih (a.pushLogLine line)

theorem form_pushLogs (lines : List String) (a : App) : (lines.foldl App.pushLog a).form = a.form := by
  induction lines generalizing a with
  | nil => rfl
  | cons line lines ih => exact (ih _).trans (form_pushLog a line)

theorem form_start (a : App) (o : Outside) (job : JobKind) (action : Action) : (a.start o job action).form = a.form := by
  unfold App.start
  split
  · exact form_setStatus a _
  · split
    · exact form_setStatus a _
    · split
      · exact form_setStatus a _
      · split
        · exact form_setStatus a _
        · rw [form_setStatus]

theorem form_press (a : App) (o : Outside) (s : Slot) : (a.press o s).form = a.form := by
  unfold App.press
  split
  · rfl
  · rfl
  · exact form_start a o _ _

theorem form_cancel (a : App) : a.cancelJob.form = a.form := by
  unfold App.cancelJob
  split
  · rfl
  · rw [form_pushLog, form_setStatus]

theorem form_quit (a : App) : a.requestQuit.form = a.form := by
  unfold App.requestQuit
  split <;> rfl

theorem form_confirm (a : App) (o : Outside) (accepted : Bool) : (a.confirmPending o accepted).form = a.form := by
  unfold App.confirmPending
  split
  · rfl
  · dsimp only
    split
    · rw [form_setStatus]
    · split
      · rfl
      · exact form_start _ o _ _

theorem form_report (a : App) (change : Worker → Worker) : (Log.report a change).form = a.form := by
  unfold Log.report
  split
  · rfl
  · split <;> rfl

/-- An action leaves the form alone, unless it is the request of the form. -/
theorem act_form {o : Outside} {path : String} {problem : Option String} (h : act o a path body = some (b, problem)) :
    b.form = a.form ∨ setFields a body = .ok b := by
  unfold act at h
  split at h
  · split at h
    next hok =>
      cases h
      exact .inr hok
    · cases h
      exact .inl rfl
  · refine .inl ?_
    split at h
    · split at h
      · cases h
        rfl
      · split at h
        · cases h
          rfl
        · split at h
          · split at h
            · cases h
              exact form_press a o _
            · cases h
              rfl
          · cases h
            rfl
    · split at h
      · split at h
        · split at h
          · cases h
            exact form_confirm a o _
          · cases h
            rfl
        · cases h
          rfl
      · split at h
        · cases h
          exact form_cancel a
        · split at h
          · cases h
            exact form_quit a
          · cases h

/-! ### What is in the fields -/

theorem clean_form (h : b.form = a.form) (hclean : Clean a) : Clean b := by
  intro f
  rw [h]
  exact hclean f

theorem clean_setField (hclean : Clean a) (f : Field) (text : String) : Clean (a.setField f text) := by
  unfold App.setField
  split
  · exact hclean
  next hfine =>
    intro g
    dsimp only
    by_cases hsame : g = f
    · rw [hsame, Function.update_self]
      exact ⟨Nat.not_lt.mp fun h => hfine (.inl h), Bool.eq_false_iff.mpr fun h => hfine (.inr h)⟩
    · rw [Function.update_of_ne hsame]
      exact hclean g

theorem clean_new : Clean .new := by
  intro f
  cases f <;> decide +kernel

theorem clean_applied (hclean : Clean a) (fields toggles : List (String × Json.Value F)) :
    Clean (toggles.foldl applyToggle (fields.foldl applyField a)) := by
  have hfields : Clean (fields.foldl applyField a) := by
    induction fields generalizing a with
    | nil => exact hclean
    | cons m fields ih =>
      refine ih ?_
      unfold applyField
      split
      · exact clean_setField hclean _ _
      · exact hclean
  generalize fields.foldl applyField a = c at hfields
  induction toggles generalizing c with
  | nil => exact hfields
  | cons m toggles ih =>
    refine ih _ ?_
    unfold applyToggle
    split
    · intro f
      rw [(setToggle_else c _ _).2]
      exact hfields f
    · exact hfields

theorem clean_setFields (h : setFields a body = .ok b) (hclean : Clean a) : Clean b := by
  unfold setFields at h
  split at h
  · cases h
  · split at h
    · cases h
    · split at h
      · cases h
      · cases h
      · split at h
        · cases h
        · cases h
        · cases h
          exact clean_applied hclean _ _

/-- An outcome sets the fields of the login, or none. -/
theorem finish_form (a : App) (result : Except String Unit) :
    (Clean a → Clean (a.finish result)) ∧ ((a.finish result).form = a.form ∨ result = .ok ()) := by
  cases result with
  | error e =>
    have hform : (a.finish (.error e)).form = a.form := by
      unfold App.finish
      dsimp only
      rw [form_pushLog, form_setStatus]
    exact ⟨clean_form hform, .inl hform⟩
  | ok u =>
    refine ⟨fun hclean => ?_, .inr rfl⟩
    have hsaid : Clean ((a.setStatus "Finished successfully.").pushLog "-- finished successfully --") := by
      refine clean_form ?_ hclean
      rw [form_pushLog, form_setStatus]
    unfold App.finish
    dsimp only
    split
    · refine clean_form (form_pushLog _ _) ?_
      exact clean_setField (clean_setField (clean_setField hsaid _ _) _ _) _ _
    · exact hsaid

theorem poll_form (a : App) : (Clean a → Clean a.pollWorker) ∧ (a.pollWorker.form = a.form ∨ Completes a a.pollWorker) := by
  have hpolls := (polls_pollWorker a).job
  unfold App.pollWorker at hpolls ⊢
  cases hjob : a.job with
  | none => exact ⟨id, .inl rfl⟩
  | some w =>
    rw [hjob] at hpolls
    dsimp only at hpolls ⊢
    have hdrained := form_pushLogs w.lines { a with job := some { w with lines := [], result := none } }
    cases hresult : w.result with
    | none => exact ⟨clean_form hdrained, .inl hdrained⟩
    | some result =>
      rw [hresult] at hpolls
      dsimp only at hpolls ⊢
      generalize w.lines.foldl App.pushLog { a with job := some { w with lines := [], result := none } } = d at hdrained hpolls
      obtain ⟨hclean, hform⟩ := finish_form { d with job := none } result
      refine ⟨fun h => hclean (clean_form hdrained h), ?_⟩
      rcases hform with hform | rfl
      · exact .inl (hform.trans hdrained)
      · refine .inr ⟨w, hjob, hresult, hpolls.trans ?_⟩
        rw [polled, hresult]
        rfl

/-! ### Events -/

/-- An action keeps the outcome of a job that runs. -/
theorem job_of_did {path : String} (h : Did a path body b) {w : Worker} (hjob : a.job = some w) :
    ∃ w', b.job = some w' ∧ w'.result = w.result := by
  have hidle {P : Prop} (h : a.job = none) : P := by
    rw [hjob] at h
    cases h
  cases h with
  | talked h => exact ⟨w, h.job.trans hjob, rfl⟩
  | @cancelled _ w' _ hjob' _ _ _ hcancel =>
    rw [hjob] at hjob'
    cases hjob'
    exact ⟨_, hcancel, rfl⟩
  | asked => exact ⟨w, hjob, rfl⟩
  | started _ _ _ h => exact hidle h.idle
  | stopped _ h => exact hidle h
  | declined _ _ h => exact ⟨w, h.job.trans hjob, rfl⟩
  | quitted => exact ⟨w, hjob, rfl⟩
  | refused _ _ _ h => exact ⟨w, h.job.trans hjob, rfl⟩
  | accepted _ _ _ _ h => exact hidle h.idle

/-- What a request can do to the form: set it while no job runs, or end a job. -/
theorem post_form (o : Outside) (a : App) (path : String) (body : Json.Value F) :
    (Clean a → Clean (post o a path body).1) ∧
      (a.busy = true → (post o a path body).1.form = a.form ∨ Completes a (post o a path body).1) := by
  unfold post
  cases hact : act o a path body with
  | none => exact ⟨id, fun _ => .inl rfl⟩
  | some r =>
    obtain ⟨b, problem⟩ := r
    have hpoll := poll_form b
    have hb := act_form hact
    have hclean : Clean a → Clean b := fun h => hb.elim (fun hform => clean_form hform h) fun hset => clean_setFields hset h
    have hstays : a.busy = true → b.pollWorker.form = a.form ∨ Completes a b.pollWorker := by
      intro hbusy
      obtain ⟨w, hjob⟩ := Option.isSome_iff_exists.mp hbusy
      have hform : b.form = a.form := hb.resolve_right fun hset => by
        have hidle := (setFields_applied hset).1
        rw [hbusy] at hidle
        cases hidle
      refine hpoll.2.imp (fun h => h.trans hform) fun ⟨w', hw', hresult, hgone⟩ => ?_
      obtain ⟨w'', hw'', hsame⟩ := job_of_did (act_cases hact) hjob
      rw [hw'] at hw''
      cases hw''
      exact ⟨w, hjob, hsame.symm.trans hresult, hgone⟩
    cases problem with
    | none => exact ⟨fun h => hpoll.1 (hclean h), hstays⟩
    | some text => exact ⟨fun h => hpoll.1 (hclean h), hstays⟩

/-- What an event can do to the form. -/
theorem event_form (s : Log.State) (e : Log.Event F) :
    (Clean s.app → Clean (Log.step s e).app) ∧
      (s.app.busy = true → (Log.step s e).app.form = s.app.form ∨ Completes s.app (Log.step s e).app) := by
  have hkept {c : App} (h : c.form = s.app.form) :
      (Clean s.app → Clean c) ∧ (s.app.busy = true → c.form = s.app.form ∨ Completes s.app c) :=
    ⟨clean_form h, fun _ => .inl h⟩
  have hpoll := poll_form s.app
  cases e with
  | line text => exact hkept (form_report _ _)
  | done result => exact hkept (form_report _ _)
  | push text => exact hkept (form_pushLog _ _)
  | tick => exact ⟨hpoll.1, fun _ => hpoll.2⟩
  | poll o => exact ⟨hpoll.1, fun _ => hpoll.2⟩
  | look o since => exact ⟨hpoll.1, fun _ => hpoll.2⟩
  | action o path body => exact post_form o s.app path body

theorem run_clean (events : List (Log.Event F)) {s : Log.State} (h : Clean s.app) : Clean (events.foldl Log.step s).app := by
  induction events generalizing s with
  | nil => exact h
  | cons e events ih => exact ih ((event_form s e).1 h)

end FieldsLemmas

open FieldsLemmas

/-- A request of the form changes nothing, or just what it names; no field is ever too long or has a
control character; and while a job runs only its end changes a field. -/
theorem fields_exact {F : Type} :
    (∀ (body : Json.Value F) (a : App), (∃ problem, setFieldsEdit body a = (.error problem, a)) ∨
        ∃ fields toggles a', membersOf body "fields" "Bad fields." = .ok fields ∧
          membersOf body "toggles" "Bad toggles." = .ok toggles ∧ setFieldsEdit body a = (.ok (), a') ∧
          Applied fields toggles a a') ∧
      (∀ events : List (Log.Event F), Clean (Log.run events).app) ∧
      ∀ (events : List (Log.Event F)) (e : Log.Event F) (f : Field), (Log.run events).app.busy = true →
        (Log.step (Log.run events) e).app.form.field f ≠ (Log.run events).app.form.field f →
        Completes (Log.run events).app (Log.step (Log.run events) e).app := by
  refine ⟨edit_cases, fun events => run_clean events clean_new, fun events e f hbusy hchanged => ?_⟩
  refine ((event_form (Log.run events) e).2 hbusy).resolve_left fun h => hchanged ?_
  rw [h]

end OmtClient.Gui.Fields
