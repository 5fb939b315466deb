import Mathlib.Data.List.DropRight
import OmtClient.Receiver.Status

/-!
# The fast path of `update_detail`

A worker reports on every frame, mostly the detail it sent last, so `update_detail` compares the
raw text with the stored one before it sanitizes anything. What is stored is sanitized, so this
is right only if sanitizing a second time changes nothing.

1. `sanitizeDetail_idem`: it does not.
2. `sanitizeDetail_ends`: no whitespace is left at either end.
3. `detail_exact`: after any run a side's detail is the sanitized text that was last reported
   for it, whether or not the fast path was taken.
-/

namespace OmtClient.Receiver

open OmtClient.Lib OmtClient.Common StatusLemmas

/-- No whitespace at either end. -/
structure Trimmed (cs : List Char) : Prop where
  start : ∀ c rest, cs = c :: rest → isWhitespace c = false
  last : ∀ c rest, cs = rest ++ [c] → isWhitespace c = false

/-- What a report says about a side. A heartbeat says nothing. -/
def Report.text : Report → Which → Option String
  | .video _ detail _, .video => some detail
  | .audio _ detail _, .audio => some detail
  | .stopped detail, .video => some detail
  | .stopped _, .audio => some ""
  | _, _ => none

/-- What was last reported for a side, from what was there before. -/
def lastText (which : Which) (before : String) : List (Report × Moment) → String
  | [] => before
  | (r, _) :: rest => lastText which ((r.text which).getD before) rest

/-- The details of a receiver, over every run of it. -/
structure DetailExact : Prop where
  /-- Sanitizing twice is sanitizing once. -/
  idem : ∀ value, sanitizeDetail (sanitizeDetail value) = sanitizeDetail value
  /-- What is left of a text: some of its characters, in order, within the limit. -/
  clean : ∀ value, Clean (sanitizeDetail value) ∧ (sanitizeDetail value).toList.Sublist value.toList ∧
    Trimmed (sanitizeDetail value).toList
  /-- A report stores the sanitized text, whatever was reported before. -/
  stored : ∀ target reports r m which detail, r.text which = some detail →
    (((PlaybackStatus.new target).run reports).step r m).2.current.detail which = sanitizeDetail detail
  /-- A side that a report says nothing about keeps its detail. -/
  others : ∀ target reports r m which, r.text which = none →
    (((PlaybackStatus.new target).run reports).step r m).2.current.detail which =
      ((PlaybackStatus.new target).run reports).current.detail which
  /-- After a run each side has the text last reported for it. -/
  last : ∀ target reports which, ((PlaybackStatus.new target).run reports).current.detail which =
    sanitizeDetail (lastText which ((PlaybackStatus.new target).current.detail which) reports)

/-! ## Sanitizing -/

namespace DetailLemmas

theorem trim_eq (cs : List Char) : trim cs = (cs.dropWhile isWhitespace).rdropWhile isWhitespace := rfl

/-- What is dropped at the end leaves the start as it was. -/
theorem trim_trimmed (cs : List Char) : Trimmed (trim cs) := by
  refine ⟨?_, ?_⟩
  · intro c rest heq
    obtain ⟨dropped, hdropped⟩ : trim cs <+: cs.dropWhile isWhitespace := by
      rw [trim_eq]
      exact List.rdropWhile_prefix isWhitespace _
    rw [heq] at hdropped
    have hidem := List.dropWhile_idempotent isWhitespace cs
    rw [← hdropped, List.cons_append] at hidem
    cases hc : isWhitespace c with
    | false => rfl
    | true =>
      rw [List.dropWhile_cons_of_pos hc] at hidem
      have hlen := congrArg List.length hidem
      have hle := (List.dropWhile_sublist isWhitespace (l := rest ++ dropped)).length_le
      rw [List.length_cons] at hlen
      omega
  · intro c rest heq
    rw [trim_eq] at heq
    have hlast := List.rdropWhile_last_not isWhitespace (cs.dropWhile isWhitespace)
      (by rw [heq]; exact List.append_ne_nil_of_right_ne_nil _ (List.cons_ne_nil _ _))
    simp only [heq, List.getLast_append_singleton, Bool.not_eq_true] at hlast
    exact hlast

theorem trim_of_trimmed {cs : List Char} (h : Trimmed cs) : trim cs = cs := by
  have hstart : cs.dropWhile isWhitespace = cs := by
    cases cs with
    | nil => rfl
    | cons c rest => exact List.dropWhile_cons_of_neg (by rw [h.start c rest rfl]; exact Bool.false_ne_true)
  rw [trim_eq, hstart, List.rdropWhile_eq_self_iff]
  intro hne
  rw [h.last (cs.getLast hne) cs.dropLast (List.dropLast_append_getLast hne).symm]
  exact Bool.false_ne_true

end DetailLemmas

open DetailLemmas

theorem sanitizeDetail_ends (value : String) : Trimmed (sanitizeDetail value).toList := by
  rw [sanitizeDetail, String.toList_ofList]
  exact trim_trimmed _

/-- A sanitized text has nothing to drop, fits, and has nothing to trim. -/
theorem sanitizeDetail_idem (value : String) : sanitizeDetail (sanitizeDetail value) = sanitizeDetail value := by
  obtain ⟨hshort, hplain⟩ := sanitizeDetail_spec value
  have hends := sanitizeDetail_ends value
  generalize sanitizeDetail value = detail at *
  have hfits : 0 + (detail.toList.flatMap encode).length ≤ detailLimit := by
    rw [Nat.zero_add, ← utf8_ofList, String.ofList_toList]
    exact hshort
  rw [sanitizeDetail, kept_all 0 _ hplain hfits, trim_of_trimmed hends, String.ofList_toList]

/-! ## Reports -/

namespace DetailLemmas

theorem kept_sublist (n : Nat) (cs : List Char) : (kept n cs).Sublist cs := by
  induction cs generalizing n with
  | nil => exact List.Sublist.refl _
  | cons c cs ih =>
    rw [kept]
    split
    · exact (ih _).cons_cons c
    · exact (ih _).cons c

/-- Both details are what sanitizing makes of some text. -/
def Stored (p : Projection) : Prop := ∀ which, sanitizeDetail (p.detail which) = p.detail which

theorem detail_setDetail (p : Projection) (which side : Which) (detail : String) :
    (p.setDetail which detail).detail side = if side = which then detail else p.detail side := by
  cases which with
  | video => cases side with
    | video => rfl
    | audio => rfl
  | audio => cases side with
    | video => rfl
    | audio => rfl

theorem updateDetail_detail (p : Projection) (which side : Which) (changed : Bool) (detail : String)
    (connector : Connector) (h : sanitizeDetail (p.detail which) = p.detail which) :
    (updateDetail p which changed detail connector).detail side =
      if side = which then sanitizeDetail detail else p.detail side := by
  have hconnector (q : Projection) (c : Connector) : ({ q with connector := c } : Projection).detail side = q.detail side := by
    cases side with
    | video => rfl
    | audio => rfl
  unfold updateDetail
  dsimp only
  split
  · rw [hconnector, detail_setDetail]
  · split
    · exact detail_setDetail p which side _
    · next hsame =>
      -- the fast path: the raw text is the stored one, which sanitizing leaves as it is
      have heq : p.detail which = detail := Classical.not_not.mp hsame
      by_cases hside : side = which
      · rw [if_pos hside, hside, ← heq, h]
      · rw [if_neg hside]

theorem report_detail {p : Projection} (h : Stored p) (r : Report) (which : Which) :
    (p.report r).detail which = ((r.text which).map sanitizeDetail).getD (p.detail which) := by
  cases r with
  | video state detail connector =>
    refine (updateDetail_detail { p with video := state } .video which _ detail connector (h .video)).trans ?_
    cases which with
    | video => rfl
    | audio => rfl
  | audio state detail connector =>
    refine (updateDetail_detail { p with audio := state } .audio which _ detail connector (h .audio)).trans ?_
    cases which with
    | video => rfl
    | audio => rfl
  | heartbeat connector =>
    cases which with
    | video => rfl
    | audio => rfl
  | stopped detail =>
    cases which with
    | video => rfl
    | audio => rfl

theorem stored_report {p : Projection} (h : Stored p) (r : Report) : Stored (p.report r) := by
  intro which
  rw [report_detail h]
  cases r.text which with
  | none => exact h which
  | some detail => exact sanitizeDetail_idem detail

/-- Publishing leaves the projection as it is. -/
theorem step_current (s : PlaybackStatus) (r : Report) (m : Moment) :
    (s.step r m).2.current = s.current.report r := by
  unfold PlaybackStatus.step PlaybackStatus.publish
  dsimp only
  split
  · rfl
  · split
    · rfl
    · split
      · rfl
      · rfl

theorem stored_new (target : String) : Stored (PlaybackStatus.new target).current := by
  intro which
  cases which with
  | video =>
    show sanitizeDetail "Playback stopped." = "Playback stopped."
    decide
  | audio =>
    show sanitizeDetail "" = ""
    decide

theorem run_detail (reports : List (Report × Moment)) (s : PlaybackStatus) (h : Stored s.current) :
    Stored (s.run reports).current ∧
    ∀ which before, s.current.detail which = sanitizeDetail before →
      (s.run reports).current.detail which = sanitizeDetail (lastText which before reports) := by
  induction reports generalizing s with
  | nil => exact ⟨h, fun which before heq => heq⟩
  | cons entry rest ih =>
    obtain ⟨r, m⟩ := entry
    have hstored := stored_report h r
    rw [← step_current s r m] at hstored
    obtain ⟨hrest, hlast⟩ := ih (s.step r m).2 hstored
    refine ⟨hrest, fun which before heq => hlast which _ ?_⟩
    rw [step_current, report_detail h]
    cases r.text which with
    | none => exact heq
    | some detail => rfl

end DetailLemmas

theorem detail_exact : DetailExact where
  idem := sanitizeDetail_idem
  clean := by
    intro value
    refine ⟨sanitizeDetail_spec value, ?_, sanitizeDetail_ends value⟩
    rw [sanitizeDetail, String.toList_ofList]
    exact (trim_sublist _).trans (kept_sublist 0 _)
  stored := by
    intro target reports r m which detail htext
    obtain ⟨hstored, -⟩ := run_detail reports _ (stored_new target)
    rw [step_current, report_detail hstored, htext]
    rfl
  others := by
    intro target reports r m which htext
    obtain ⟨hstored, -⟩ := run_detail reports _ (stored_new target)
    rw [step_current, report_detail hstored, htext]
    rfl
  last := by
    intro target reports which
    exact (run_detail reports _ (stored_new target)).2 which _ (stored_new target which).symm

end OmtClient.Receiver
