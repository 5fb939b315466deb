import OmtClient.Common.Json
import OmtClient.Common.Timefmt

/-!
# The playback status document

`crates/omt-receiver-core/src/status.rs`: the video and audio threads report
through `PlaybackStatus`, which keeps one projection of both and publishes it as a
JSON document. Every entry point takes the lock, so a run is a list of reports.

What a report meets outside is a `Moment`: the clocks it reads and whether the
status file could be replaced. `documents` is history: what was published, in
order.

1. `sanitizeDetail_spec`: a detail has at most `DETAIL_LIMIT` bytes and no control
   character.
2. `run_clean`: so have the details of every reachable projection, and of every
   published one.
-/

namespace OmtClient.Receiver

open OmtClient.Lib OmtClient.Common

def heartbeatMs : Nat := 500
def detailLimit : Nat := 2048

inductive VideoState
  | running
  | waitingForDiscovery
  | waitingForHdmi
  | retrying
  | unsupportedFormat
  | starting
  | stopped
  deriving DecidableEq, Repr

def VideoState.name : VideoState → String
  | .running => "running"
  | .waitingForDiscovery => "waiting-for-discovery"
  | .waitingForHdmi => "waiting-for-hdmi"
  | .retrying => "retrying"
  | .unsupportedFormat => "unsupported-format"
  | .starting => "starting"
  | .stopped => "stopped"

inductive AudioState
  | stopped
  | running
  | failed
  deriving DecidableEq, Repr

def AudioState.name : AudioState → String
  | .stopped => "stopped"
  | .running => "running"
  | .failed => "failed"

/-- The HDMI output in use and its DRM and ALSA devices. -/
structure Connector where
  name : String
  drmDevice : String
  alsaDevice : String
  deriving DecidableEq, Repr

/-- `Connector::none`. -/
def Connector.none : Connector := ⟨"none", "none", "none"⟩

/-! ## Details -/

def isControl (c : Char) : Bool := c.toNat < 0x20 || (0x7F ≤ c.toNat && c.toNat ≤ 0x9F)

/-- `char::is_whitespace`: Unicode's White_Space. -/
def isWhitespace (c : Char) : Bool :=
  (9 ≤ c.toNat && c.toNat ≤ 13) || c.toNat == 0x20 || c.toNat == 0x85 || c.toNat == 0xA0 ||
    c.toNat == 0x1680 || (0x2000 ≤ c.toNat && c.toNat ≤ 0x200A) || c.toNat == 0x2028 ||
    c.toNat == 0x2029 || c.toNat == 0x202F || c.toNat == 0x205F || c.toNat == 0x3000

/-- The characters that are kept when `n` bytes are already there. -/
def kept : Nat → List Char → List Char
  | _, [] => []
  | n, c :: cs =>
    if !isControl c && n + c.utf8Size ≤ detailLimit then c :: kept (n + c.utf8Size) cs else kept n cs

/-- `str::trim`. -/
def trim (cs : List Char) : List Char :=
  ((cs.dropWhile isWhitespace).reverse.dropWhile isWhitespace).reverse

/-- `sanitize_detail`. -/
def sanitizeDetail (value : String) : String := String.ofList (trim (kept 0 value.toList))

/-! ## Reports -/

structure Projection where
  video : VideoState
  audio : AudioState
  videoDetail : String
  audioDetail : String
  connector : Connector
  deriving DecidableEq, Repr

/-- Which detail a report updates. -/
inductive Which
  | video
  | audio
  deriving DecidableEq, Repr

def Projection.detail (p : Projection) : Which → String
  | .video => p.videoDetail
  | .audio => p.audioDetail

def Projection.setDetail (p : Projection) (which : Which) (detail : String) : Projection :=
  match which with
  | .video => { p with videoDetail := detail }
  | .audio => { p with audioDetail := detail }

/-- `update_detail`: the unchanged case compares the raw text before sanitizing. -/
def updateDetail (p : Projection) (which : Which) (stateChanged : Bool) (detail : String)
    (connector : Connector) : Projection :=
  let connectorChanged := p.connector ≠ connector
  if stateChanged ∨ connectorChanged then
    { p.setDetail which (sanitizeDetail detail) with
      connector := if connectorChanged then connector else p.connector }
  else if p.detail which ≠ detail then p.setDetail which (sanitizeDetail detail)
  else p

/-- The entry points. -/
inductive Report
  | video (state : VideoState) (detail : String) (connector : Connector)
  | audio (state : AudioState) (detail : String) (connector : Connector)
  | heartbeat (connector : Connector)
  | stopped (detail : String)
  deriving DecidableEq, Repr

/-- What a report makes of the projection. -/
def Projection.report (p : Projection) : Report → Projection
  | .video state detail connector =>
    updateDetail { p with video := state } .video (p.video ≠ state) detail connector
  | .audio state detail connector =>
    updateDetail { p with audio := state } .audio (p.audio ≠ state) detail connector
  | .heartbeat connector => { p with connector }
  | .stopped detail =>
    { video := .stopped, audio := .stopped, videoDetail := sanitizeDetail detail, audioDetail := ""
      connector := .none }

/-- Whether a report is published even when nothing changed. -/
def Report.force : Report → Bool
  | .stopped _ => true
  | _ => false

/-! ## Publishing -/

/-- The state and detail a projection shows. -/
def Projection.shown (c : Projection) : String × String :=
  if c.video = .running ∧ c.audio = .failed then
    ("degraded", if c.audioDetail = "" then "Video is playing but audio is unavailable." else c.audioDetail)
  else (c.video.name, c.videoDetail)

/-- The document of a projection. -/
def document (target : String) (c : Projection) (updatedAt : String) : Bytes :=
  utf8 "\x7b\"schema\":1,\"state\":" ++ Json.writeString c.shown.1 ++
  utf8 ",\"video_state\":" ++ Json.writeString c.video.name ++
  utf8 ",\"audio_state\":" ++ Json.writeString c.audio.name ++
  utf8 ",\"target\":" ++ Json.writeString target ++
  utf8 ",\"detail\":" ++ Json.writeString c.shown.2 ++
  utf8 ",\"connector\":" ++ Json.writeString c.connector.name ++
  utf8 ",\"drm_device\":" ++ Json.writeString c.connector.drmDevice ++
  utf8 ",\"alsa_device\":" ++ Json.writeString c.connector.alsaDevice ++
  utf8 ",\"updated_at\":" ++ Json.writeString updatedAt ++ utf8 "\x7d"

/-- What a report meets: the monotonic clock before and after, the wall clock, and
whether the status file can be replaced. -/
structure Moment where
  nowMs : Nat
  wall : Int × Nat
  replaces : Bool
  doneMs : Nat

/-- A published document with what it was published from. -/
structure Published where
  projection : Projection
  wall : Int × Nat
  bytes : Bytes
  deriving DecidableEq, Repr

structure PlaybackStatus where
  target : String
  current : Projection
  published : Option Projection := none
  publishedAtMs : Nat := 0
  sequence : Nat := 0
  directoryReady : Bool := false
  /-- The status file. -/
  file : Option Bytes := none
  documents : List Published := []

/-- `PlaybackStatus::new`. -/
def PlaybackStatus.new (target : String) : PlaybackStatus where
  target := target
  current :=
    { video := .stopped, audio := .stopped, videoDetail := "Playback stopped.", audioDetail := ""
      connector := .none }

/-- `now_rfc3339_millis`. -/
def Moment.stamp (m : Moment) : String := Timefmt.rfc3339Millis m.wall.1 (m.wall.2 / 1000000)

/-- `publish`: whether the document was rewritten. -/
def PlaybackStatus.publish (s : PlaybackStatus) (force : Bool) (m : Moment) :
    Except String Bool × PlaybackStatus :=
  let unchanged := decide (s.published = some s.current)
  if !force && unchanged && m.nowMs - s.publishedAtMs < heartbeatMs then (.ok false, s)
  else
    let doc := document s.target s.current m.stamp
    if 64 * 1024 < doc.length then (.error "status document too large", s)
    else if m.replaces then
      (.ok true,
        { s with
          directoryReady := true
          sequence := s.sequence + 1
          published := some s.current
          publishedAtMs := m.doneMs
          file := some doc
          documents := s.documents ++ [⟨s.current, m.wall, doc⟩] })
    else (.error "the status file could not be replaced", s)

/-- One report. -/
def PlaybackStatus.step (s : PlaybackStatus) (r : Report) (m : Moment) :
    Except String Bool × PlaybackStatus :=
  { s with current := s.current.report r }.publish r.force m

/-- A run of reports, whatever each of them returned. -/
def PlaybackStatus.run (s : PlaybackStatus) : List (Report × Moment) → PlaybackStatus
  | [] => s
  | (r, m) :: rest => (s.step r m).2.run rest

/-! ## What details are -/

/-- At most `DETAIL_LIMIT` bytes, and no control character. -/
structure Clean (detail : String) : Prop where
  short : (utf8 detail).length ≤ detailLimit
  plain : ∀ c ∈ detail.toList, isControl c = false

namespace StatusLemmas

theorem length_encode (c : Char) : (encode c).length = c.utf8Size := String.length_utf8EncodeChar c

theorem kept_spec (n : Nat) (hn : n ≤ detailLimit) (cs : List Char) :
    n + ((kept n cs).flatMap encode).length ≤ detailLimit ∧ ∀ c ∈ kept n cs, isControl c = false := by
  induction cs generalizing n with
  | nil => exact ⟨hn, fun c hc => nomatch hc⟩
  | cons c cs ih =>
    rw [kept]
    split
    · next hkeep =>
      simp only [Bool.and_eq_true, Bool.not_eq_true', decide_eq_true_eq] at hkeep
      obtain ⟨hlen, hplain⟩ := ih _ hkeep.2
      refine ⟨?_, List.forall_mem_cons.mpr ⟨hkeep.1, hplain⟩⟩
      rw [List.flatMap_cons, List.length_append, length_encode, ← Nat.add_assoc]
      exact hlen
    · exact ih n hn

/-- A text without control characters that fits is kept whole. -/
theorem kept_all (n : Nat) (cs : List Char) (hplain : ∀ c ∈ cs, isControl c = false)
    (hfits : n + (cs.flatMap encode).length ≤ detailLimit) : kept n cs = cs := by
  induction cs generalizing n with
  | nil => rfl
  | cons c cs ih =>
    rw [List.flatMap_cons, List.length_append, length_encode, ← Nat.add_assoc] at hfits
    have hc := hplain c List.mem_cons_self
    rw [kept, if_pos (by simp only [hc, Bool.not_false, Bool.true_and, decide_eq_true_eq]; omega),
      ih _ (fun x hx => hplain x (List.mem_cons_of_mem _ hx)) hfits]

theorem length_flatMap_le {a b : List Char} (h : a.Sublist b) :
    (a.flatMap encode).length ≤ (b.flatMap encode).length := by
  induction h with
  | slnil => exact Nat.le_refl _
  | cons c _ ih =>
    rw [List.flatMap_cons, List.length_append]
    exact Nat.le_trans ih (Nat.le_add_left _ _)
  | cons_cons c _ ih =>
    rw [List.flatMap_cons, List.flatMap_cons, List.length_append, List.length_append]
    exact Nat.add_le_add_left ih _

theorem trim_sublist (cs : List Char) : (trim cs).Sublist cs := by
  have hinner : ((cs.dropWhile isWhitespace).reverse.dropWhile isWhitespace).Sublist cs.reverse :=
    (List.dropWhile_sublist _).trans (List.reverse_sublist.mpr (List.dropWhile_sublist _))
  have := List.reverse_sublist.mpr hinner
  rw [List.reverse_reverse] at this
  exact this

end StatusLemmas

open StatusLemmas

/-- Whatever text is given, a detail is clean. -/
theorem sanitizeDetail_spec (value : String) : Clean (sanitizeDetail value) := by
  obtain ⟨hlen, hplain⟩ := kept_spec 0 (Nat.zero_le _) value.toList
  have hsub := trim_sublist (kept 0 value.toList)
  refine ⟨?_, fun c hc => ?_⟩
  · rw [sanitizeDetail, utf8_ofList]
    rw [Nat.zero_add] at hlen
    exact Nat.le_trans (length_flatMap_le hsub) hlen
  · rw [sanitizeDetail, String.toList_ofList] at hc
    exact hplain c (hsub.subset hc)

/-- Both details of a projection are clean. -/
def Projection.Clean (p : Projection) : Prop :=
  Receiver.Clean p.videoDetail ∧ Receiver.Clean p.audioDetail

namespace StatusLemmas

theorem clean_empty : Receiver.Clean "" := ⟨Nat.zero_le _, fun c hc => by simp at hc⟩

theorem clean_setDetail {p : Projection} (h : p.Clean) (which : Which) (detail : String) :
    (p.setDetail which (sanitizeDetail detail)).Clean := by
  cases which with
  | video => exact ⟨sanitizeDetail_spec detail, h.2⟩
  | audio => exact ⟨h.1, sanitizeDetail_spec detail⟩

theorem clean_updateDetail {p : Projection} (h : p.Clean) (which : Which) (changed : Bool)
    (detail : String) (connector : Connector) :
    (updateDetail p which changed detail connector).Clean := by
  unfold updateDetail
  dsimp only
  split
  · exact clean_setDetail h which detail
  · split
    · exact clean_setDetail h which detail
    · exact h

theorem clean_report {p : Projection} (h : p.Clean) (r : Report) : (p.report r).Clean := by
  cases r with
  | video state detail connector => exact clean_updateDetail (p := { p with video := state }) h _ _ _ _
  | audio state detail connector => exact clean_updateDetail (p := { p with audio := state }) h _ _ _ _
  | heartbeat connector => exact h
  | stopped detail => exact ⟨sanitizeDetail_spec detail, clean_empty⟩

/-- What is published is the document of a projection of clean details. -/
structure Kept (target : String) (s : PlaybackStatus) : Prop where
  same : s.target = target
  current : s.current.Clean
  documents : ∀ d ∈ s.documents, d.projection.Clean ∧
    d.bytes = document target d.projection (Timefmt.rfc3339Millis d.wall.1 (d.wall.2 / 1000000))

theorem kept_new (target : String) : Kept target (.new target) := by
  refine ⟨rfl, ⟨⟨?_, ?_⟩, clean_empty⟩, fun d hd => nomatch hd⟩
  · show (utf8 "Playback stopped.").length ≤ detailLimit
    decide
  · have hplain : "Playback stopped.".toList.all (isControl · = false) = true := by decide
    intro c hc
    exact of_decide_eq_true (List.all_eq_true.mp hplain c hc)

theorem kept_publish {target : String} {s : PlaybackStatus} (h : Kept target s) (force : Bool)
    (m : Moment) : Kept target (s.publish force m).2 := by
  unfold PlaybackStatus.publish
  dsimp only
  split
  · exact h
  · split
    · exact h
    · split
      · refine ⟨h.same, h.current, fun d hd => ?_⟩
        rcases List.mem_append.mp hd with hd | hd
        · exact h.documents d hd
        · cases List.mem_singleton.mp hd
          rw [h.same]
          exact ⟨h.current, rfl⟩
      · exact h

end StatusLemmas

/-- The first document of a receiver is published if it is not too large and the
file can be replaced. -/
theorem publish_first {s : PlaybackStatus} {m : Moment} (hnone : s.published = none)
    (hreplaces : m.replaces = true)
    (hfits : (document s.target s.current m.stamp).length ≤ 64 * 1024) :
    (s.publish false m).2.documents =
      s.documents ++ [⟨s.current, m.wall, document s.target s.current m.stamp⟩] := by
  have hfirst : ¬ (!false && decide (s.published = some s.current) &&
      decide (m.nowMs - s.publishedAtMs < heartbeatMs)) = true := by
    rw [hnone]
    simp
  unfold PlaybackStatus.publish
  dsimp only
  rw [if_neg hfirst, if_neg (Nat.not_lt.mpr hfits), if_pos hreplaces]

/-- Along every run the details stay clean, and every document published is that of
a clean projection and the time it was published at. -/
theorem run_clean (target : String) (reports : List (Report × Moment)) :
    Kept target ((PlaybackStatus.new target).run reports) := by
  have hrun (s : PlaybackStatus) (hs : Kept target s) : Kept target (s.run reports) := by
    induction reports generalizing s with
    | nil => exact hs
    | cons r rest ih =>
      have hreport : Kept target { s with current := s.current.report r.1 } :=
        ⟨hs.same, clean_report hs.current r.1, hs.documents⟩
      exact ih _ (kept_publish hreport r.1.force r.2)
  exact hrun _ (kept_new target)

end OmtClient.Receiver
