import OmtClient.Lib.Numeral
import OmtClient.Receiver.Status

/-!
# The status file

What `PlaybackStatus` of `crates/omt-receiver-core/src/status.rs` promises about the file it
replaces, over every sequence of reports with any of the writes failing, and what stands in
the way of a write: the stage file is named after the process and the sequence number, and
is created exclusively.

1. `step_cases`: what one report can do.
2. `status_file_current`: after a report that returned the file shows the current projection,
   and only what was published holds a report back.
3. `repeated_report_iff`: repeating a report publishes it just when no file of an earlier run
   has the name of the stage.
-/

namespace OmtClient.Receiver

open OmtClient.Lib OmtClient.Common

/-! ## One report -/

/-- The report waits: it is not forced, changes nothing that was published, and the
publication is recent. -/
def PlaybackStatus.Waits (s : PlaybackStatus) (r : Report) (m : Moment) : Prop :=
  r.force = false ∧ s.published = some (s.current.report r) ∧ m.nowMs - s.publishedAtMs < heartbeatMs

/-- The document of a report fits. -/
def PlaybackStatus.Fits (s : PlaybackStatus) (r : Report) (m : Moment) : Prop :=
  (document s.target (s.current.report r) m.stamp).length ≤ 64 * 1024

/-- The state after a report that was published. -/
def PlaybackStatus.afterPublish (s : PlaybackStatus) (r : Report) (m : Moment) : PlaybackStatus :=
  { s with
    current := s.current.report r
    directoryReady := true
    sequence := s.sequence + 1
    published := some (s.current.report r)
    publishedAtMs := m.doneMs
    file := some (document s.target (s.current.report r) m.stamp)
    documents := s.documents ++ [⟨s.current.report r, m.wall, document s.target (s.current.report r) m.stamp⟩] }

/-- What a report can do: wait, publish, or fail and leave what was published as it is. -/
theorem step_cases (s : PlaybackStatus) (r : Report) (m : Moment) :
    (s.Waits r m ∧ s.step r m = (.ok false, { s with current := s.current.report r })) ∨
    (¬ s.Waits r m ∧ s.Fits r m ∧ m.replaces = true ∧ s.step r m = (.ok true, s.afterPublish r m)) ∨
    (¬ s.Waits r m ∧ (s.Fits r m → m.replaces = false) ∧
      ∃ e, s.step r m = (.error e, { s with current := s.current.report r })) := by
  unfold PlaybackStatus.step PlaybackStatus.publish
  dsimp only
  split
  · next hwait =>
    simp only [Bool.and_eq_true, Bool.not_eq_true', decide_eq_true_eq] at hwait
    exact .inl ⟨⟨hwait.1.1, hwait.1.2, hwait.2⟩, rfl⟩
  next hwait =>
  have hnot : ¬ s.Waits r m := by
    rintro ⟨hforce, hsame, hrecent⟩
    refine hwait ?_
    simp only [Bool.and_eq_true, Bool.not_eq_true', decide_eq_true_eq]
    exact ⟨⟨hforce, hsame⟩, hrecent⟩
  split
  · next hlarge => exact .inr (.inr ⟨hnot, fun hfits => absurd hfits (Nat.not_le.mpr hlarge), _, rfl⟩)
  next hfits =>
  split
  · next hreplaces => exact .inr (.inl ⟨hnot, Nat.not_lt.mp hfits, hreplaces, rfl⟩)
  · next hreplaces => exact .inr (.inr ⟨hnot, fun _ => Bool.eq_false_iff.mpr hreplaces, _, rfl⟩)

/-! ## Runs -/

/-- The file shows a projection: it is its document, with the time of some publication. -/
def PlaybackStatus.Displays (s : PlaybackStatus) (p : Projection) : Prop :=
  ∃ d, s.documents.getLast? = some d ∧ d.projection = p ∧ s.file = some d.bytes ∧
    d.bytes = document s.target p (Timefmt.rfc3339Millis d.wall.1 (d.wall.2 / 1000000))

/-- The file shows what was published last. -/
def PlaybackStatus.Truthful (s : PlaybackStatus) : Prop := ∀ p, s.published = some p → s.Displays p

namespace StatusFileLemmas

variable {s : PlaybackStatus} {r : Report} {m : Moment}

theorem displays_afterPublish : (s.afterPublish r m).Displays (s.current.report r) :=
  ⟨_, List.getLast?_concat, rfl, rfl, rfl⟩

theorem truthful_current (h : s.Truthful) (p : Projection) : { s with current := p }.Truthful := h

theorem truthful_step (h : s.Truthful) (r : Report) (m : Moment) : (s.step r m).2.Truthful := by
  rcases step_cases s r m with ⟨_, hstep⟩ | ⟨_, _, _, hstep⟩ | ⟨_, _, e, hstep⟩
  · rw [hstep]
    exact truthful_current h _
  · rw [hstep]
    intro p hp
    exact Option.some.inj hp ▸ displays_afterPublish
  · rw [hstep]
    exact truthful_current h _

theorem truthful_run (h : s.Truthful) (reports : List (Report × Moment)) : (s.run reports).Truthful := by
  induction reports generalizing s with
  | nil => exact h
  | cons x rest ih => exact ih (truthful_step h x.1 x.2)

/-- A report that returns leaves a file that shows the projection it made. -/
theorem displays_of_ok (h : s.Truthful) {published : Bool} (hok : (s.step r m).1 = .ok published) :
    (s.step r m).2.current = s.current.report r ∧ (s.step r m).2.Displays (s.current.report r) := by
  rcases step_cases s r m with ⟨hwaits, hstep⟩ | ⟨_, _, _, hstep⟩ | ⟨_, _, e, hstep⟩
  · rw [hstep]
    exact ⟨rfl, truthful_current h _ _ hwaits.2.1⟩
  · rw [hstep]
    exact ⟨rfl, displays_afterPublish⟩
  · rw [hstep] at hok
    cases hok

theorem waits_of_false (h : (s.step r m).1 = .ok false) : s.Waits r m := by
  rcases step_cases s r m with ⟨hwaits, _⟩ | ⟨_, _, _, hstep⟩ | ⟨_, _, e, hstep⟩
  · exact hwaits
  · rw [hstep] at h
    exact nomatch h
  · rw [hstep] at h
    exact nomatch h

/-- What does not wait is published when it fits and the file can be replaced. -/
theorem publishes_of_due (hdue : ¬ s.Waits r m) (hfits : s.Fits r m) (hreplaces : m.replaces = true) :
    s.step r m = (.ok true, s.afterPublish r m) := by
  rcases step_cases s r m with ⟨hwaits, _⟩ | ⟨_, _, _, hstep⟩ | ⟨_, hfails, _⟩
  · exact absurd hwaits hdue
  · exact hstep
  · exact nomatch hreplaces.symm.trans (hfails hfits)

end StatusFileLemmas

open StatusFileLemmas

/-- After any sequence of reports: when a report returns, the file shows the current projection;
it returns without publishing only when that projection was published last, less than 500 ms
ago; and a report that fails leaves what was published as it is, so that the next one is
published unless its own projection was published last, less than 500 ms ago. -/
theorem status_file_current (target : String) (reports : List (Report × Moment)) (r : Report) (m : Moment) :
    let s := (PlaybackStatus.new target).run reports
    (∀ published, (s.step r m).1 = .ok published → (s.step r m).2.Displays (s.step r m).2.current) ∧
    ((s.step r m).1 = .ok false → s.published = some (s.step r m).2.current ∧
      m.nowMs - s.publishedAtMs < heartbeatMs) ∧
    ∀ e, (s.step r m).1 = .error e → (s.step r m).2.published = s.published ∧
      (s.step r m).2.publishedAtMs = s.publishedAtMs ∧ (s.step r m).2.file = s.file ∧
      ∀ r' m', ¬ (s.published = some ((s.step r m).2.current.report r') ∧ m'.nowMs - s.publishedAtMs < heartbeatMs) →
        ((s.step r m).2.step r' m').1 ≠ .ok false ∧
        ((s.step r m).2.Fits r' m' → m'.replaces = true → ((s.step r m).2.step r' m').1 = .ok true) := by
  intro s
  have hnew : (PlaybackStatus.new target).Truthful := by
    intro p hp
    cases hp
  have htrue : s.Truthful := truthful_run hnew reports
  refine ⟨fun published hok => ?_, fun hfalse => ?_, fun e herror => ?_⟩
  · obtain ⟨hcurrent, hdisplays⟩ := displays_of_ok htrue hok
    rw [hcurrent]
    exact hdisplays
  · have hwaits := waits_of_false hfalse
    rw [(displays_of_ok htrue hfalse).1]
    exact ⟨hwaits.2.1, hwaits.2.2⟩
  · rcases step_cases s r m with ⟨_, hstep⟩ | ⟨_, _, _, hstep⟩ | ⟨_, _, e', hstep⟩
    · rw [hstep] at herror
      exact nomatch herror
    · rw [hstep] at herror
      exact nomatch herror
    · rw [hstep]
      refine ⟨rfl, rfl, rfl, fun r' m' hdue => ?_⟩
      have hnot : ¬ { s with current := s.current.report r }.Waits r' m' := fun hwaits => hdue hwaits.2
      refine ⟨fun hfalse => hnot (waits_of_false hfalse), fun hfits hreplaces => ?_⟩
      rw [publishes_of_due hnot hfits hreplaces]

/-- A write fails, and the next report, which brings back what was published, is not
published again. -/
theorem failed_report_not_repeated :
    let output : Connector := ⟨"HDMI-A-1", "/dev/dri/card1", "hw:0"⟩
    let first := (PlaybackStatus.new "OMT").step (.heartbeat .none) ⟨0, (0, 0), true, 0⟩
    let second := first.2.step (.heartbeat output) ⟨100, (0, 0), false, 100⟩
    let third := second.2.step (.heartbeat .none) ⟨200, (0, 0), true, 200⟩
    first.1 = .ok true ∧ second.1 = .error "the status file could not be replaced" ∧ third.1 = .ok false := by
  decide +kernel

/-! ## The stage file -/

/-- `{:016x}`. -/
def hex16 (n : Nat) : Bytes := List.replicate (16 - (numeral 16 n).length) 48 ++ numeral 16 n

/-- The name of the stage that a process replaces the status file through. -/
def stageName (pid sequence : Nat) : Bytes := utf8 ".omt-status." ++ numeral 10 pid ++ 46 :: hex16 sequence

/-- A receiver process and the directory of its status file, by the names in it. -/
structure Host where
  pid : Nat
  fileName : Bytes
  names : List Bytes
  status : PlaybackStatus

/-- The stage files that earlier runs left behind. -/
def Host.leftovers (h : Host) : List Bytes := h.names.filter (utf8 ".omt-status.").isPrefixOf

/-- The clocks that a report reads. -/
structure Clock where
  nowMs : Nat
  wall : Int × Nat
  doneMs : Nat

/-- `replace` where every operation works but the exclusive creation of a name that exists. A
stage that could be created is renamed over the status file; one that could not is left. -/
def Host.replace (h : Host) : Bool × List Bytes :=
  if h.names.contains (stageName h.pid h.status.sequence) then (false, h.names)
  else (true, if h.names.contains h.fileName then h.names else h.names ++ [h.fileName])

/-- One attempt at a report. -/
def Host.attempt (h : Host) (r : Report) (c : Clock) : Except String Bool × Host :=
  let (replaces, names) := h.replace
  match h.status.step r ⟨c.nowMs, c.wall, replaces, c.doneMs⟩ with
  | (.ok true, status) => (.ok true, { h with status, names })
  | (result, status) => (result, { h with status })

/-- The results of a report that is repeated. -/
def Host.attempts (r : Report) : List Clock → Host → List (Except String Bool)
  | [], _ => []
  | c :: clocks, h => (h.attempt r c).1 :: Host.attempts r clocks (h.attempt r c).2

/-- The report is published within one attempt more than there are stage files left behind. -/
def Host.PublishesInTime (h : Host) (r : Report) (clocks : List Clock) : Prop :=
  .ok true ∈ Host.attempts r (clocks.take (h.leftovers.length + 1)) h

/-- The report is not published yet. -/
def Host.Due (h : Host) (r : Report) : Prop :=
  r.force = true ∨ h.status.published ≠ some (h.status.current.report r)

/-- The document of the report fits at this time. -/
def Host.FitsAt (h : Host) (r : Report) (c : Clock) : Prop :=
  h.status.Fits r ⟨c.nowMs, c.wall, true, c.doneMs⟩

namespace StatusFileLemmas

theorem updateDetail_idem (p : Projection) (which : Which) (changed : Bool) (detail : String) (connector : Connector) :
    updateDetail (updateDetail p which changed detail connector) which false detail connector =
      updateDetail p which changed detail connector := by
  have hget (q : Projection) (d : String) : (q.setDetail which d).detail which = d := by cases which <;> rfl
  have hset (q : Projection) (d d' : String) : (q.setDetail which d).setDetail which d' = q.setDetail which d' := by
    cases which <;> rfl
  have hconnector (q : Projection) (d : String) : (q.setDetail which d).connector = q.connector := by
    cases which <;> rfl
  have hwith (q : Projection) (d : String) (k : Connector) :
      ({ q.setDetail which d with connector := k } : Projection) = { q with connector := k }.setDetail which d := by
    cases which <;> rfl
  -- the second time the connector is the same, and the detail was sanitized already
  have hagain (q : Projection) (hq : q.connector = connector) :
      updateDetail (q.setDetail which (sanitizeDetail detail)) which false detail connector =
        q.setDetail which (sanitizeDetail detail) := by
    unfold updateDetail
    dsimp only
    rw [if_neg (by rw [hconnector]; simp [hq])]
    split
    · rw [hset]
    · rfl
  conv => rhs; unfold updateDetail
  conv => lhs; arg 1; unfold updateDetail
  dsimp only
  split
  · rw [hwith]
    refine hagain _ ?_
    dsimp only
    split
    · rfl
    · next hsame => exact not_not.mp hsame
  · next hsame =>
    have hq : p.connector = connector := by
      simp only [not_or, Bool.not_eq_true, ne_eq, not_not] at hsame
      exact hsame.2
    split
    · exact hagain p hq
    · next hdetail =>
      unfold updateDetail
      dsimp only
      rw [if_neg (by simp [hq]), if_neg hdetail]

theorem updateDetail_states (p : Projection) (which : Which) (changed : Bool) (detail : String) (connector : Connector) :
    (updateDetail p which changed detail connector).video = p.video ∧
      (updateDetail p which changed detail connector).audio = p.audio := by
  unfold updateDetail
  dsimp only
  split
  · cases which <;> exact ⟨rfl, rfl⟩
  · split
    · cases which <;> exact ⟨rfl, rfl⟩
    · exact ⟨rfl, rfl⟩

/-- A report of the state that a projection is in. -/
theorem report_same_video {q : Projection} {state : VideoState} (h : q.video = state) (detail : String)
    (connector : Connector) : q.report (.video state detail connector) = updateDetail q .video false detail connector := by
  subst h
  simp [Projection.report]

theorem report_same_audio {q : Projection} {state : AudioState} (h : q.audio = state) (detail : String)
    (connector : Connector) : q.report (.audio state detail connector) = updateDetail q .audio false detail connector := by
  subst h
  simp [Projection.report]

/-- A report that is made again changes nothing more. -/
theorem report_idem (p : Projection) (r : Report) : (p.report r).report r = p.report r := by
  cases r with
  | heartbeat connector => rfl
  | stopped detail => rfl
  | video state detail connector =>
    have hstate : (p.report (.video state detail connector)).video = state :=
      (updateDetail_states { p with video := state } .video _ detail connector).1
    rw [report_same_video hstate]
    exact updateDetail_idem _ _ _ _ _
  | audio state detail connector =>
    have hstate : (p.report (.audio state detail connector)).audio = state :=
      (updateDetail_states { p with audio := state } .audio _ detail connector).2
    rw [report_same_audio hstate]
    exact updateDetail_idem _ _ _ _ _

variable {h : Host} {r : Report} {c : Clock}

/-- The host after an attempt that failed. -/
def afterFailure (h : Host) (r : Report) : Host :=
  { h with status := { h.status with current := h.status.current.report r } }

theorem not_waits_of_due (hdue : h.Due r) (m : Moment) : ¬ h.status.Waits r m := by
  rintro ⟨hforce, hsame, _⟩
  rcases hdue with hf | hne
  · exact nomatch hf.symm.trans hforce
  · exact hne hsame

/-- An attempt publishes just when the document fits and the name of the stage is free; else it
fails and leaves the name as it is. -/
theorem attempt_cases (hdue : h.Due r) (c : Clock) :
    (h.FitsAt r c ∧ stageName h.pid h.status.sequence ∉ h.names ∧ (h.attempt r c).1 = .ok true) ∨
    (¬ (h.FitsAt r c ∧ stageName h.pid h.status.sequence ∉ h.names) ∧ ∃ e, h.attempt r c = (.error e, afterFailure h r)) := by
  by_cases hname : stageName h.pid h.status.sequence ∈ h.names
  · have hreplace : h.replace = (false, h.names) := if_pos (List.contains_iff_mem.mpr hname)
    rcases step_cases h.status r ⟨c.nowMs, c.wall, false, c.doneMs⟩ with ⟨hwaits, _⟩ | ⟨_, _, hreplaces, _⟩ | ⟨_, _, e, hstep⟩
    · exact absurd hwaits (not_waits_of_due hdue _)
    · exact nomatch hreplaces
    · refine .inr ⟨fun hboth => hboth.2 hname, e, ?_⟩
      rw [Host.attempt, hreplace]
      dsimp only
      rw [hstep]
      rfl
  · have hreplace : (h.replace).1 = true := by
      rw [Host.replace, if_neg fun hmem => hname (List.contains_iff_mem.mp hmem)]
    obtain ⟨names, hnames⟩ : ∃ names, h.replace = (true, names) := ⟨_, Prod.ext hreplace rfl⟩
    rcases step_cases h.status r ⟨c.nowMs, c.wall, true, c.doneMs⟩ with ⟨hwaits, _⟩ | ⟨_, hfits, _, hstep⟩ | ⟨_, hfails, e, hstep⟩
    · exact absurd hwaits (not_waits_of_due hdue _)
    · refine .inl ⟨hfits, hname, ?_⟩
      rw [Host.attempt, hnames]
      dsimp only
      rw [hstep]
    · refine .inr ⟨fun hboth => (nomatch hfails hboth.1), e, ?_⟩
      rw [Host.attempt, hnames]
      dsimp only
      rw [hstep]
      rfl

/-- A failed attempt leaves the report as it was. -/
theorem due_afterFailure (hdue : h.Due r) : (afterFailure h r).Due r := by
  rcases hdue with hforce | hne
  · exact .inl hforce
  · refine .inr ?_
    show h.status.published ≠ some ((h.status.current.report r).report r)
    rw [report_idem]
    exact hne

theorem fitsAt_afterFailure (c : Clock) : (afterFailure h r).FitsAt r c ↔ h.FitsAt r c := by
  show (document h.status.target ((h.status.current.report r).report r) _).length ≤ _ ↔ _
  rw [report_idem]
  exact Iff.rfl

/-- By induction on the attempts: those before the first that publishes change nothing. -/
theorem attempts_iff (hdue : h.Due r) (clocks : List Clock) :
    .ok true ∈ Host.attempts r clocks h ↔
      stageName h.pid h.status.sequence ∉ h.names ∧ ∃ c ∈ clocks, h.FitsAt r c := by
  induction clocks generalizing h with
  | nil =>
    refine ⟨fun hmem => (nomatch hmem), ?_⟩
    rintro ⟨_, c, hc, _⟩
    exact nomatch hc
  | cons c clocks ih =>
    rw [Host.attempts, List.mem_cons]
    rcases attempt_cases hdue c with ⟨hfits, hname, hok⟩ | ⟨hnot, e, herror⟩
    · rw [hok]
      exact ⟨fun _ => ⟨hname, c, List.mem_cons_self, hfits⟩, fun _ => .inl rfl⟩
    · rw [herror]
      dsimp only
      rw [ih (due_afterFailure hdue)]
      constructor
      · rintro (hfalse | ⟨hname, c', hc', hfits⟩)
        · exact nomatch hfalse
        · exact ⟨hname, c', List.mem_cons_of_mem _ hc', (fitsAt_afterFailure c').mp hfits⟩
      · rintro ⟨hname, c', hc', hfits⟩
        refine .inr ⟨hname, ?_⟩
        rcases List.mem_cons.mp hc' with rfl | hc'
        · exact absurd ⟨hfits, hname⟩ hnot
        · exact ⟨c', hc', (fitsAt_afterFailure c').mpr hfits⟩

end StatusFileLemmas

/-- Repeating a report that is not published yet publishes it, within one attempt more than
there are stage files left behind, just when none of the files has the name of the stage (and
the document fits at one of these times). -/
theorem repeated_report_iff (h : Host) (r : Report) (clocks : List Clock) (hdue : h.Due r) :
    h.PublishesInTime r clocks ↔ stageName h.pid h.status.sequence ∉ h.names ∧
      ∃ c ∈ clocks.take (h.leftovers.length + 1), h.FitsAt r c :=
  attempts_iff hdue _

/-- A receiver of process 7, which has just started, beside the stage of an earlier process 7. -/
def restarted : Host where
  pid := 7
  fileName := utf8 "status.json"
  names := [utf8 ".omt-status.7.0000000000000000"]
  status := PlaybackStatus.new "OMT"

/-- Each of its reports fails. -/
theorem restarted_never_publishes :
    ¬ restarted.PublishesInTime (.heartbeat .none) [⟨0, (0, 0), 0⟩, ⟨500, (0, 0), 500⟩] ∧
    restarted.leftovers.length = 1 ∧
    Host.attempts (.heartbeat .none) [⟨0, (0, 0), 0⟩, ⟨500, (0, 0), 500⟩] restarted =
      [.error "the status file could not be replaced", .error "the status file could not be replaced"] := by
  have hattempts : Host.attempts (.heartbeat .none) [⟨0, (0, 0), 0⟩, ⟨500, (0, 0), 500⟩] restarted =
      [.error "the status file could not be replaced", .error "the status file could not be replaced"] := by
    decide +kernel
  have hleft : restarted.leftovers.length = 1 := by decide +kernel
  refine ⟨fun hmem => ?_, hleft, hattempts⟩
  rw [Host.PublishesInTime, hleft] at hmem
  rw [show [(⟨0, (0, 0), 0⟩ : Clock), ⟨500, (0, 0), 500⟩].take (1 + 1) = [⟨0, (0, 0), 0⟩, ⟨500, (0, 0), 500⟩] from rfl,
    hattempts] at hmem
  rcases List.mem_cons.mp hmem with heq | hmem
  · exact nomatch heq
  · exact nomatch List.mem_singleton.mp hmem

/-- A receiver of process 8 publishes at once beside the stages of earlier ones and the file that they published. -/
theorem replaced_receiver_publishes :
    ({ restarted with
        pid := 8
        names := [utf8 ".omt-status.7.0000000000000000", utf8 "status.json", utf8 ".omt-status.8.0000000000000005"] } :
      Host).PublishesInTime (.heartbeat .none) [⟨0, (0, 0), 0⟩, ⟨500, (0, 0), 500⟩] := by
  refine (repeated_report_iff _ _ _ (.inr (by decide))).mpr ⟨by decide +kernel, ⟨0, (0, 0), 0⟩, List.mem_cons_self, ?_⟩
  show (document "OMT" _ _).length ≤ 64 * 1024
  decide +kernel

end OmtClient.Receiver
