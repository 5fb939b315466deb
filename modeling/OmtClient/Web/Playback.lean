import OmtClient.Common.Fsio
import OmtClient.Common.JsonRead
import OmtClient.Receiver.Status

/-!
# What the dashboard shows of playback

`crates/omt-web/src/playback.rs` (`status_record_valid`, `summary`): the Web frontend reads
the receiver's status document, checks it and shows its state and detail.

1. `parse_document`: the receiver's document parses as the record it was written
   from.
2. `statusRecordValid_iff`: which of them the Web side accepts.
3. `published_shown_iff`: along every run of the receiver, a published document is
   read, accepted and shown exactly when it is fresh, about the saved target, names
   a connector the Web side knows, and fits in 4096 bytes once its texts are
   escaped.
-/

namespace OmtClient.Web

open OmtClient.Lib OmtClient.Common OmtClient.Receiver

/-! ## The status record -/

def receiverStates : List String :=
  ["running", "waiting-for-discovery", "waiting-for-hdmi", "retrying", "degraded",
    "unsupported-format", "starting", "stopped"]

def videoStates : List String :=
  ["running", "waiting-for-discovery", "waiting-for-hdmi", "retrying", "unsupported-format", "starting",
    "stopped"]

def audioStates : List String := ["stopped", "running", "failed"]

def connectors : List String := ["none", "HDMI-A-1", "HDMI-A-2"]

def statusFields : List String :=
  ["schema", "state", "video_state", "audio_state", "target", "detail", "connector", "drm_device",
    "alsa_device", "updated_at"]

/-- The texts of a status record. -/
structure Record where
  state : String
  video : String
  audio : String
  target : String
  detail : String
  connector : String
  drm : String
  alsa : String
  updated : String
  deriving DecidableEq, Repr

/-- The checks on the texts of a record. -/
def Record.ok (r : Record) (expected : String) : Bool :=
  receiverStates.contains r.state && videoStates.contains r.video && audioStates.contains r.audio &&
  r.target == expected && (utf8 r.detail).length ≤ 2048 && connectors.contains r.connector &&
  r.drm != "" && (utf8 r.drm).length ≤ 256 && r.alsa != "" && (utf8 r.alsa).length ≤ 256 &&
  !(r.state == "degraded" && (r.video != "running" || r.audio != "failed")) &&
  !(r.state == "running" && (r.video != "running" || r.audio == "failed")) &&
  (r.state == "running" || r.state == "degraded" || r.state == r.video)

/-- Whether an instant is neither older than the limit nor more than five seconds
ahead. -/
def fresh (stamp now : Int × Nat) (staleSeconds : Nat) : Bool :=
  let age := (now.1 - stamp.1) * 1000000000 + ((now.2 : Int) - stamp.2)
  !(age < -5000000000 || (staleSeconds : Int) * 1000000000 < age)

section

variable {F : Type} (dec : Json.Decimal F)

/-- The texts of a document with the fields of a status record. -/
def Record.ofJson (root : Json.Value F) : Option Record := do
  let object ← root.asObject
  if object.length ≠ 10 ∨ !root.onlyKeys statusFields then none
  else if (root.get "schema").bind Json.Value.asU64 ≠ some 1 then none
  else do
    let state ← (root.get "state").bind Json.Value.asStr
    let video ← (root.get "video_state").bind Json.Value.asStr
    let audio ← (root.get "audio_state").bind Json.Value.asStr
    let target ← (root.get "target").bind Json.Value.asStr
    let detail ← (root.get "detail").bind Json.Value.asStr
    let connector ← (root.get "connector").bind Json.Value.asStr
    let drm ← (root.get "drm_device").bind Json.Value.asStr
    let alsa ← (root.get "alsa_device").bind Json.Value.asStr
    let updated ← (root.get "updated_at").bind Json.Value.asStr
    some { state, video, audio, target, detail, connector, drm, alsa, updated }

/-- `status_record_valid`: the state and detail of a record that is well-formed,
about `expected`, and fresh. -/
def statusRecordValid (text : Bytes) (expected : String) (staleSeconds : Nat) (now : Int × Nat) :
    Option (String × String) := do
  let root ← (Json.parse dec text).toOption
  let r ← Record.ofJson root
  if !r.ok expected then none
  else do
    let stamp ← Timefmt.parseRfc3339 r.updated
    if fresh stamp now staleSeconds then some (r.state, r.detail) else none

/-! ## The summary -/

/-- The characters at the front that fit in `n` bytes. -/
def fitting : Nat → List Char → List Char
  | _, [] => []
  | n, c :: cs => if c.utf8Size ≤ n then c :: fitting (n - c.utf8Size) cs else []

/-- `clip`: `s` cut to at most `max` bytes, on a character boundary. -/
def clip (s : String) (max : Nat) : String :=
  if (utf8 s).length ≤ max then s else String.ofList (fitting max s.toList)

/-- The saved target, as `read_source` returns it. -/
structure SourceTarget where
  direct : Bool
  value : String
  deriving DecidableEq, Repr

structure Summary where
  state : String
  label : String
  detail : String
  tone : String
  source : String
  directAddress : String
  deriving DecidableEq, Repr

/-- The state, label and tone that the dashboard gives to a receiver's state. -/
def publicState (state : String) : String × String × String :=
  if state = "running" then ("playing", "Playing", "success")
  else if state = "waiting-for-discovery" then
    ("waiting-for-discovery", "Waiting for discovery", "warning")
  else if state = "waiting-for-hdmi" then ("waiting-for-hdmi", "Waiting for HDMI", "warning")
  else if state = "retrying" then ("retrying", "Retrying playback", "warning")
  else if state = "degraded" then ("degraded", "Playback degraded", "warning")
  else if state = "unsupported-format" then
    ("unsupported-format", "Unsupported video format", "danger")
  else if state = "starting" then ("starting", "Starting playback", "warning")
  else ("stopped", "Playback stopped", "neutral")

/-- The most of the status file that is read. -/
def statusLimit : Nat := 4096

/-- `summary`, from what `read_source` returned, the status file, whether the
controller says that the receiver runs, and the clock. -/
def summary (source : Except String (Option SourceTarget)) (file : Option Bytes) (runs : Bool)
    (staleSeconds : Nat) (now : Int × Nat) : Summary :=
  match source with
  | .error e =>
    ⟨"configuration-error", "Source configuration invalid", clip e 255, "danger", "", ""⟩
  | .ok none =>
    ⟨"unconfigured", "No source configured",
      "Select a discovered source or configure a direct OMT target.", "neutral", "", ""⟩
  | .ok (some target) =>
    let direct := if target.direct then target.value else ""
    match readBounded file statusLimit with
    | .ok (some data) =>
      let record := (ofUtf8 data).bind fun _ => statusRecordValid dec data target.value staleSeconds now
      match record with
      | none =>
        ⟨"stale", "Playback status stale", "The receiver status record is unavailable or stale.",
          "warning", target.value, direct⟩
      | some (st, detail) =>
        let (state, label, tone) := publicState st
        ⟨state, label, detail, tone, target.value, direct⟩
    | _ =>
      if runs then
        ⟨"starting", "Starting playback",
          "The receiver is running and has not published fresh status yet.", "warning", target.value,
          direct⟩
      else
        ⟨"stopped", "Playback stopped", "A target is saved but the receiver is not running.",
          "neutral", target.value, direct⟩

end

/-! ## The receiver's document -/

namespace PlaybackLemmas

variable {F : Type} {dec : Json.Decimal F}

/-- The members of a document. -/
def items (v : F) (target : String) (c : Projection) (updatedAt : String) : List (Json.Item F) :=
  [⟨"schema", [49], .number ⟨true, false, some 1, v⟩, Json.rounded Json.nodeCost⟩,
    Json.textItem "state" c.shown.1, Json.textItem "video_state" c.video.name,
    Json.textItem "audio_state" c.audio.name, Json.textItem "target" target,
    Json.textItem "detail" c.shown.2, Json.textItem "connector" c.connector.name,
    Json.textItem "drm_device" c.connector.drmDevice, Json.textItem "alsa_device" c.connector.alsaDevice,
    Json.textItem "updated_at" updatedAt]

theorem document_eq (v : F) (target : String) (c : Projection) (updatedAt : String) :
    document target c updatedAt = 123 :: Json.recordText (items v target c updatedAt) := by
  have hfirst : utf8 "\x7b\"schema\":1,\"state\":" =
      123 :: (Json.writeString "schema" ++ 58 :: 49 :: 44 :: (Json.writeString "state" ++ [58])) := by
    decide
  have hkey : utf8 ",\"video_state\":" = 44 :: (Json.writeString "video_state" ++ [58]) ∧
      utf8 ",\"audio_state\":" = 44 :: (Json.writeString "audio_state" ++ [58]) ∧
      utf8 ",\"target\":" = 44 :: (Json.writeString "target" ++ [58]) ∧
      utf8 ",\"detail\":" = 44 :: (Json.writeString "detail" ++ [58]) ∧
      utf8 ",\"connector\":" = 44 :: (Json.writeString "connector" ++ [58]) ∧
      utf8 ",\"drm_device\":" = 44 :: (Json.writeString "drm_device" ++ [58]) ∧
      utf8 ",\"alsa_device\":" = 44 :: (Json.writeString "alsa_device" ++ [58]) ∧
      utf8 ",\"updated_at\":" = 44 :: (Json.writeString "updated_at" ++ [58]) ∧
      utf8 "\x7d" = [125] := by
    decide
  obtain ⟨h1, h2, h3, h4, h5, h6, h7, h8, h9⟩ := hkey
  delta document
  simp only [hfirst, h1, h2, h3, h4, h5, h6, h7, h8, h9]
  simp only [items, Json.recordText, Json.Item.text, Json.textItem]
  simp only [List.append_assoc, List.cons_append, List.nil_append]

/-- The receiver's document parses as the record it was written from. -/
theorem parse_document (dec : Json.Decimal F) (target : String) (c : Projection) (updatedAt : String) : ∃ v,
    Json.parse dec (document target c updatedAt) =
      .ok (.object ((items v target c updatedAt).map fun m => (m.key, m.value))) := by
  obtain ⟨v, hv⟩ := Json.JsonLemmas.reads_one dec
  refine ⟨v, ?_⟩
  rw [document_eq v]
  have hall {P : Json.Item F → Prop} (hone : P ⟨"schema", [49], .number ⟨true, false, some 1, v⟩,
      Json.rounded Json.nodeCost⟩) (htext : ∀ key s, P (Json.textItem key s)) :
      ∀ m ∈ items v target c updatedAt, P m := by
    simp only [items, List.forall_mem_cons]
    exact ⟨hone, htext _ _, htext _ _, htext _ _, htext _ _, htext _ _, htext _ _, htext _ _,
      htext _ _, htext _ _, fun _ h => nomatch h⟩
  refine Json.parse_record _ nofun (hall hv fun _ s => Json.JsonLemmas.reads_string s) ?_
    (hall (valid_plain (by decide) : Valid [49]) fun _ s => Json.JsonLemmas.valid_writeString s)
    (hall (by show 80 ≤ 101; decide) fun _ s => Json.textItem_cost _ s) ?_
  · show ["schema", "state", "video_state", "audio_state", "target", "detail", "connector", "drm_device",
      "alsa_device", "updated_at"].Nodup
    decide
  · show 10 ≤ 400
    decide

def nulFree (s : String) : Bool := !s.toList.contains '\x00'

theorem asStr_string (s : String) :
    (Json.Value.string s : Json.Value F).asStr = if nulFree s then some s else none := by
  rw [Json.Value.asStr, nulFree]
  by_cases h : s.toList.contains '\x00' = true
  · rw [if_pos h, h]
    rfl
  · have hno : s.toList.contains '\x00' = false := Bool.not_eq_true _ ▸ h
    rw [if_neg h, hno]
    rfl

/-- The record of a document. -/
def recordOf (target : String) (c : Projection) (updatedAt : String) : Record :=
  { state := c.shown.1, video := c.video.name, audio := c.audio.name, target, detail := c.shown.2
    connector := c.connector.name, drm := c.connector.drmDevice, alsa := c.connector.alsaDevice
    updated := updatedAt }

theorem bind_guard {α β : Type} (b : Bool) (x : α) (f : α → Option β) :
    ((if b then some x else none).bind f) = if b then f x else none := by
  cases b with
  | false => rfl
  | true => rfl

theorem ofJson_document (v : F) (target : String) (c : Projection) (updatedAt : String) :
    Record.ofJson (.object ((items v target c updatedAt).map fun m => (m.key, m.value))) =
      if nulFree c.shown.1 ∧ nulFree c.video.name ∧ nulFree c.audio.name ∧ nulFree target ∧
        nulFree c.shown.2 ∧ nulFree c.connector.name ∧ nulFree c.connector.drmDevice ∧
        nulFree c.connector.alsaDevice ∧ nulFree updatedAt then some (recordOf target c updatedAt)
      else none := by
  set root : Json.Value F := .object ((items v target c updatedAt).map fun m => (m.key, m.value)) with hroot
  have hkeys : ¬ (((items v target c updatedAt).map fun m => (m.key, m.value)).length ≠ 10 ∨
      (!root.onlyKeys statusFields) = true) := by
    have honly : root.onlyKeys statusFields = true := rfl
    rw [honly]
    exact fun h => h.elim (fun hlen => hlen rfl) nofun
  have hschema : ¬ (root.get "schema").bind Json.Value.asU64 ≠ some 1 := fun h => h rfl
  have hget {key s : String} (h : root.get key = some (.string s)) :
      (root.get key).bind Json.Value.asStr = if nulFree s then some s else none := by
    rw [h]
    exact asStr_string (F := F) s
  have hobject : root.asObject = some ((items v target c updatedAt).map fun m => (m.key, m.value)) := rfl
  rw [Record.ofJson, hobject]
  simp only [Option.bind_eq_bind, Option.bind_some]
  rw [if_neg hkeys, if_neg hschema, hget (s := c.shown.1) rfl, hget (s := c.video.name) rfl,
    hget (s := c.audio.name) rfl, hget (s := target) rfl, hget (s := c.shown.2) rfl,
    hget (s := c.connector.name) rfl, hget (s := c.connector.drmDevice) rfl,
    hget (s := c.connector.alsaDevice) rfl, hget (s := updatedAt) rfl]
  simp only [bind_guard, ite_and]
  rfl

/-- The states of a projection are in the lists of the Web side, and agree. -/
theorem states_ok (c : Projection) :
    (receiverStates.contains c.shown.1 && videoStates.contains c.video.name &&
      audioStates.contains c.audio.name) = true ∧
    (!(c.shown.1 == "degraded" && (c.video.name != "running" || c.audio.name != "failed")) &&
      !(c.shown.1 == "running" && (c.video.name != "running" || c.audio.name == "failed")) &&
      (c.shown.1 == "running" || c.shown.1 == "degraded" || c.shown.1 == c.video.name)) = true ∧
    nulFree c.shown.1 = true ∧ nulFree c.video.name = true ∧ nulFree c.audio.name = true := by
  have hshown : c.shown.1 = if c.video = .running ∧ c.audio = .failed then "degraded" else c.video.name := by
    unfold Projection.shown
    split
    · rfl
    · rfl
  rw [hshown]
  cases c.video <;> cases c.audio <;> decide

theorem clean_shown {c : Projection} (h : c.Clean) : Clean c.shown.2 := by
  have hdefault : Clean "Video is playing but audio is unavailable." := by
    refine ⟨?_, ?_⟩
    · decide
    · decide
  unfold Projection.shown
  split
  · dsimp only
    split
    · exact hdefault
    · exact h.2
  · exact h.1

theorem nulFree_clean {s : String} (h : Clean s) : nulFree s = true := by
  have hno : s.toList.contains '\x00' = false := by
    rw [List.contains_eq_mem, decide_eq_false_iff_not]
    intro hmem
    exact nomatch (h.plain _ hmem).symm.trans (show isControl '\x00' = true by decide)
  rw [nulFree, hno]
  rfl

theorem nulFree_connector {name : String} (h : name ∈ connectors) : nulFree name = true := by
  have hall : ∀ n ∈ connectors, nulFree n = true := by decide
  exact hall name h

theorem pad_nonzero {c : Char} {w n : Nat} (h : c ∈ Timefmt.pad w n) : c ≠ '\x00' := by
  have hdigit : c.isDigit = true := by
    rcases List.mem_append.mp h with h | h
    · rw [List.eq_of_mem_replicate h]
      rfl
    · exact Nat.isDigit_of_mem_toDigits (by decide) (by decide) h
  rintro rfl
  exact nomatch hdigit

theorem padSigned_nonzero {c : Char} {w : Nat} {z : Int} (h : c ∈ Timefmt.padSigned w z) : c ≠ '\x00' := by
  unfold Timefmt.padSigned at h
  split at h
  · rcases List.mem_cons.mp h with rfl | h
    · decide
    · exact pad_nonzero h
  · exact pad_nonzero h

theorem nulFree_stamp (seconds : Int) (ms : Nat) : nulFree (Timefmt.rfc3339Millis seconds ms) = true := by
  have hno : (Timefmt.rfc3339Millis seconds ms).toList.contains '\x00' = false := by
    rw [List.contains_eq_mem, decide_eq_false_iff_not, Timefmt.rfc3339Millis, String.toList_ofList]
    simp only [List.mem_append, List.mem_cons, List.not_mem_nil, or_false]
    rintro (((((((h | (h | h)) | (h | h)) | (h | h)) | (h | h)) | (h | h)) | (h | h)) | h)
    · exact padSigned_nonzero h rfl
    all_goals first
      | exact pad_nonzero h rfl
      | exact absurd h (by decide)
  rw [nulFree, hno]
  rfl

end PlaybackLemmas

open PlaybackLemmas

/-! ## Agreement -/

/-- A device that the Web side accepts. -/
def deviceOk (device : String) : Prop :=
  device ≠ "" ∧ (utf8 device).length ≤ 256 ∧ nulFree device = true

/-- What the Web side asks of a document besides its size: it is about the saved
target, names a connector and devices it knows, and is fresh. -/
structure Vetted (target expected : String) (c : Projection) (wall now : Int × Nat) (staleSeconds : Nat) :
    Prop where
  text : nulFree target = true
  target : target = expected
  connector : c.connector.name ∈ connectors
  drm : deviceOk c.connector.drmDevice
  alsa : deviceOk c.connector.alsaDevice
  year : 0 ≤ (Timefmt.split wall.1).year ∧ (Timefmt.split wall.1).year ≤ 9999
  fresh : fresh (wall.1, wall.2 / 1000000 % 1000 * 10 ^ 6) now staleSeconds = true

variable {F : Type} {dec : Json.Decimal F}

theorem Record.ok_iff (r : Record) (expected : String) :
    r.ok expected = true ↔ (receiverStates.contains r.state && videoStates.contains r.video &&
      audioStates.contains r.audio) = true ∧
      (!(r.state == "degraded" && (r.video != "running" || r.audio != "failed")) &&
        !(r.state == "running" && (r.video != "running" || r.audio == "failed")) &&
        (r.state == "running" || r.state == "degraded" || r.state == r.video)) = true ∧
      (utf8 r.detail).length ≤ 2048 ∧ r.target = expected ∧ r.connector ∈ connectors ∧
      (r.drm ≠ "" ∧ (utf8 r.drm).length ≤ 256) ∧ r.alsa ≠ "" ∧ (utf8 r.alsa).length ≤ 256 := by
  simp only [Record.ok, Bool.and_eq_true, beq_iff_eq, bne_iff_ne, ne_eq, decide_eq_true_eq,
    List.contains_eq_mem]
  tauto

/-- The checks on the record of a document, whose states and detail always pass. -/
theorem recordOk_iff {c : Projection} (hclean : c.Clean) (target updatedAt expected : String) :
    (recordOf target c updatedAt).ok expected = true ↔ target = expected ∧ c.connector.name ∈ connectors ∧
      (c.connector.drmDevice ≠ "" ∧ (utf8 c.connector.drmDevice).length ≤ 256) ∧
      c.connector.alsaDevice ≠ "" ∧ (utf8 c.connector.alsaDevice).length ≤ 256 := by
  obtain ⟨hstates, hagree, _⟩ := states_ok c
  rw [Record.ok_iff]
  exact ⟨fun h => h.2.2.2, fun h => ⟨hstates, hagree, (clean_shown hclean).short, h⟩⟩

/-- The Web side accepts a document of clean details exactly when it is vetted, and
then with the state and detail of its projection. -/
theorem statusRecordValid_iff (dec : Json.Decimal F) {c : Projection} (hclean : c.Clean) (target expected : String)
    (wall now : Int × Nat) (staleSeconds : Nat) :
    statusRecordValid dec (document target c (Timefmt.rfc3339Millis wall.1 (wall.2 / 1000000))) expected
      staleSeconds now = some c.shown ↔ Vetted target expected c wall now staleSeconds := by
  obtain ⟨v, hparse⟩ := parse_document dec target c
    (Timefmt.rfc3339Millis wall.1 (wall.2 / 1000000))
  obtain ⟨_, _, hs, hv, ha⟩ := states_ok c
  have hd := nulFree_clean (clean_shown hclean)
  have hstamp := nulFree_stamp wall.1 (wall.2 / 1000000)
  have hrecord := recordOk_iff hclean target (Timefmt.rfc3339Millis wall.1 (wall.2 / 1000000)) expected
  rw [statusRecordValid, hparse]
  simp only [Except.toOption, Option.bind_eq_bind, Option.bind_some, ofJson_document, hs, hv, ha, hd,
    hstamp, true_and, and_true]
  constructor
  · intro h
    split at h
    · next hnul =>
      rw [Option.bind_some] at h
      split at h
      · exact nomatch h
      · next hok =>
        simp only [Bool.not_eq_true', Bool.not_eq_false] at hok
        obtain ⟨htarget, hconnector, hdrm, halsa⟩ := hrecord.mp hok
        obtain ⟨stamp, hparsed, hfresh⟩ := Option.bind_eq_some_iff.mp h
        have hparsed' : Timefmt.parseRfc3339 (Timefmt.rfc3339Millis wall.1 (wall.2 / 1000000)) =
            some stamp := hparsed
        have hyear : 0 ≤ (Timefmt.split wall.1).year ∧ (Timefmt.split wall.1).year ≤ 9999 := by
          by_contra hno
          rw [Timefmt.parse_rfc3339Millis_none _ hno] at hparsed'
          exact nomatch hparsed'
        rw [Timefmt.parse_rfc3339Millis _ hyear] at hparsed'
        cases hparsed'
        refine ⟨hnul.1, htarget, hconnector, ⟨hdrm.1, hdrm.2, hnul.2.2.1⟩, ⟨halsa.1, halsa.2, hnul.2.2.2⟩,
          hyear, ?_⟩
        by_contra hno
        rw [if_neg hno] at hfresh
        exact nomatch hfresh
    · exact nomatch h
  · intro h
    have hnul : nulFree target = true ∧ nulFree c.connector.name = true ∧
        nulFree c.connector.drmDevice = true ∧ nulFree c.connector.alsaDevice = true :=
      ⟨h.text, nulFree_connector h.connector, h.drm.2.2, h.alsa.2.2⟩
    have hok := hrecord.mpr ⟨h.target, h.connector, ⟨h.drm.1, h.drm.2.1⟩, h.alsa.1, h.alsa.2.1⟩
    rw [if_pos hnul, Option.bind_some, if_neg (by rw [hok]; exact nofun)]
    show (Timefmt.parseRfc3339 (Timefmt.rfc3339Millis wall.1 (wall.2 / 1000000))).bind _ = _
    rw [Timefmt.parse_rfc3339Millis _ h.year, Option.bind_some, if_pos h.fresh]
    rfl

/-! ## Size -/

/-- The bytes that a byte of a text takes in a document. -/
def byteCost (b : Byte) : Nat :=
  if b ∈ [34, 92, 8, 12, 10, 13, 9] then 2 else if b < 32 then 6 else 1

/-- The bytes that a text takes in a document, its quotes included. -/
def quotedLength (s : String) : Nat := 2 + ((utf8 s).map byteCost).sum

/-- The bytes of a document: its keys and punctuation, its timestamp, and its texts
as they are quoted. -/
def documentSize (target : String) (c : Projection) : Nat :=
  127 + 26 + quotedLength c.shown.1 + quotedLength c.video.name + quotedLength c.audio.name +
    quotedLength target + quotedLength c.shown.2 + quotedLength c.connector.name +
    quotedLength c.connector.drmDevice + quotedLength c.connector.alsaDevice

namespace PlaybackLemmas

theorem utf8_of_valid {text : Bytes} {expected : String} {staleSeconds : Nat} {now : Int × Nat}
    {r : String × String} (h : statusRecordValid dec text expected staleSeconds now = some r) :
    ∃ s, ofUtf8 text = some s := by
  cases htext : ofUtf8 text with
  | some s => exact ⟨s, rfl⟩
  | none =>
    have hparse : Json.parse dec text = .error (.refused "JSON is not valid UTF-8") := by
      rw [Json.parse, Json.parseWithBudget, htext]
      rfl
    rw [statusRecordValid, hparse] at h
    cases h

theorem length_escapeByte (b : Byte) : (Json.escapeByte b).length = byteCost b := by
  have hall : ∀ n, n < 256 → (Json.escapeByte (UInt8.ofNat n)).length = byteCost (UInt8.ofNat n) := by
    decide +kernel
  have hb := hall b.toNat b.toNat_lt
  rw [UInt8.ofNat_toNat] at hb
  exact hb

theorem length_writeString (s : String) : (Json.writeString s).length = quotedLength s := by
  have hbody (bs : Bytes) : (bs.flatMap Json.escapeByte).length = (bs.map byteCost).sum := by
    induction bs with
    | nil => rfl
    | cons b bs ih =>
      rw [List.flatMap_cons, List.length_append, length_escapeByte, ih, List.map_cons, List.sum_cons]
  rw [Json.writeString, List.length_append, List.length_cons, hbody, quotedLength]
  show (_ + 1) + 1 = 2 + _
  omega

theorem length_stamp {seconds : Int} (ms : Nat)
    (hyear : 0 ≤ (Timefmt.split seconds).year ∧ (Timefmt.split seconds).year ≤ 9999) :
    (Json.writeString (Timefmt.rfc3339Millis seconds ms)).length = 26 := by
  obtain ⟨year, hy⟩ : ∃ year : Nat, (Timefmt.split seconds).year = year :=
    ⟨(Timefmt.split seconds).year.toNat, by omega⟩
  obtain ⟨hm, hd, hh, hmi, hs, _⟩ := Timefmt.TimefmtLemmas.split_spec seconds
  have hdim := Timefmt.TimefmtLemmas.daysIn_le (Timefmt.split seconds).year hm.2
  have hdigit {k : Nat} (hk : k < 10) : Json.isPlain (Timefmt.TimefmtLemmas.digit k) = true := by
    have hall : ∀ k, k < 10 → Json.isPlain (Timefmt.TimefmtLemmas.digit k) = true := by decide
    exact hall k hk
  have hmark : Json.isPlain 45 = true ∧ Json.isPlain 84 = true ∧ Json.isPlain 58 = true ∧
      Json.isPlain 46 = true ∧ Json.isPlain 90 = true := by decide
  have hplain : ∀ b ∈ utf8 (Timefmt.rfc3339Millis seconds ms), Json.isPlain b = true := by
    rw [Timefmt.TimefmtLemmas.rfc3339Millis_stamp ms hy (by omega)]
    simp only [Timefmt.TimefmtLemmas.stamp, List.forall_mem_cons, hmark, true_and]
    refine ⟨hdigit ?_, hdigit ?_, hdigit ?_, hdigit ?_, hdigit ?_, hdigit ?_, hdigit ?_, hdigit ?_,
      hdigit ?_, hdigit ?_, hdigit ?_, hdigit ?_, hdigit ?_, hdigit ?_, hdigit ?_, hdigit ?_, hdigit ?_,
      fun b hb => by cases hb⟩
    all_goals omega
  have hlen : (utf8 (Timefmt.rfc3339Millis seconds ms)).length = 24 := by
    rw [Timefmt.TimefmtLemmas.rfc3339Millis_stamp ms hy (by omega)]
    rfl
  rw [Json.writeString, Json.JsonLemmas.flatMap_plain _ hplain, List.length_append, List.length_cons, hlen]
  rfl

theorem length_document (target : String) (c : Projection) {seconds : Int} (ms : Nat)
    (hyear : 0 ≤ (Timefmt.split seconds).year ∧ (Timefmt.split seconds).year ≤ 9999) :
    (document target c (Timefmt.rfc3339Millis seconds ms)).length = documentSize target c := by
  have hstamp := length_stamp ms hyear
  have hkeys : (utf8 "\x7b\"schema\":1,\"state\":").length = 20 ∧
      (utf8 ",\"video_state\":").length = 15 ∧ (utf8 ",\"audio_state\":").length = 15 ∧
      (utf8 ",\"target\":").length = 10 ∧ (utf8 ",\"detail\":").length = 10 ∧
      (utf8 ",\"connector\":").length = 13 ∧ (utf8 ",\"drm_device\":").length = 14 ∧
      (utf8 ",\"alsa_device\":").length = 15 ∧ (utf8 ",\"updated_at\":").length = 14 ∧
      (utf8 "\x7d").length = 1 := by
    decide
  obtain ⟨h0, h1, h2, h3, h4, h5, h6, h7, h8, h9⟩ := hkeys
  delta document
  simp only [List.length_append, hstamp, h0, h1, h2, h3, h4, h5, h6, h7, h8, h9]
  simp only [length_writeString, documentSize]
  omega

end PlaybackLemmas

/-- The Web side reads a document whole, accepts it, and shows the state and detail
of its projection. -/
def Shows (dec : Json.Decimal F) (d : Published) (saved : SourceTarget) (runs : Bool) (staleSeconds : Nat)
    (now : Int × Nat) : Prop :=
  readBounded (some d.bytes) statusLimit = .ok (some d.bytes) ∧
  statusRecordValid dec d.bytes saved.value staleSeconds now = some d.projection.shown ∧
  (summary dec (.ok (some saved)) (some d.bytes) runs staleSeconds now).state =
    (publicState d.projection.shown.1).1 ∧
  (summary dec (.ok (some saved)) (some d.bytes) runs staleSeconds now).detail = d.projection.shown.2

/-- Along every run of reports, whatever their details, a published document is
shown by the Web side exactly when it is vetted and takes at most 4096 bytes. -/
theorem published_shown_iff (dec : Json.Decimal F) (target : String) (reports : List (Report × Moment))
    (d : Published) (hd : d ∈ ((PlaybackStatus.new target).run reports).documents) (saved : SourceTarget)
    (runs : Bool) (staleSeconds : Nat) (now : Int × Nat) :
    Shows dec d saved runs staleSeconds now ↔
      Vetted target saved.value d.projection d.wall now staleSeconds ∧
        documentSize target d.projection ≤ statusLimit := by
  obtain ⟨hclean, hbytes⟩ := (run_clean target reports).documents d hd
  have hvalid := statusRecordValid_iff dec hclean target saved.value d.wall now staleSeconds
  rw [← hbytes] at hvalid
  have hsize (hyear : 0 ≤ (Timefmt.split d.wall.1).year ∧ (Timefmt.split d.wall.1).year ≤ 9999) :
      d.bytes.length = documentSize target d.projection := by
    rw [hbytes]
    exact length_document target d.projection _ hyear
  constructor
  · rintro ⟨hread, haccepted, _⟩
    have hvetted := hvalid.mp haccepted
    refine ⟨hvetted, ?_⟩
    rw [← hsize hvetted.year]
    by_contra hlarge
    rw [readBounded, if_pos (Nat.not_le.mp hlarge)] at hread
    exact nomatch hread
  · rintro ⟨hvetted, hfits⟩
    have haccepted := hvalid.mpr hvetted
    have hread : readBounded (some d.bytes) statusLimit = .ok (some d.bytes) := by
      rw [readBounded, if_neg]
      rw [hsize hvetted.year]
      exact Nat.not_lt.mpr hfits
    obtain ⟨text, htext⟩ := utf8_of_valid haccepted
    refine ⟨hread, haccepted, ?_, ?_⟩
    · simp only [summary, hread, htext, Option.bind_some, haccepted]
    · simp only [summary, hread, htext, Option.bind_some, haccepted]

/-! ## A document that is shown, and one that is not -/

/-- Decimal literals of digits only, by their value. -/
def wholeDecimal : Json.Decimal Nat where
  parse ds := if ds = [] then none else Timefmt.digitsValue ds
  finite _ := true
  infinity _ := 0
  reads ds hne hall := by
    have hsome (n : Nat) : (ds.foldlM (fun v c => if Timefmt.isDigit c then some (v * 10 + (c.toNat - 48))
        else none) n).isSome = true := by
      clear hne
      induction ds generalizing n with
      | nil => rfl
      | cons d ds ih =>
        rw [List.all_cons, Bool.and_eq_true] at hall
        have hd : Timefmt.isDigit d = true := hall.1
        rw [List.foldlM_cons, hd]
        exact ih hall.2 _
    rw [if_neg hne]
    exact hsome 0

namespace PlaybackLemmas

def moment : Moment := ⟨1000, (1700000000, 0), true, 1001⟩

def camera : SourceTarget := ⟨false, "Camera"⟩

/-- One report of a picture with this detail, and what it publishes. -/
def playing (detail : String) : List (Report × Moment) := [(.video .running detail .none, moment)]

def playingDocument (detail : String) : Published :=
  let c : Projection := ⟨.running, .stopped, detail, "", .none⟩
  ⟨c, moment.wall, document "Camera" c moment.stamp⟩

theorem vetted_playing (detail : String) :
    Vetted "Camera" camera.value (playingDocument detail).projection (playingDocument detail).wall
      (1700000001, 0) 10 := by
  have hnone : deviceOk "none" := ⟨by decide, by decide, by decide⟩
  refine ⟨by decide, rfl, ?_, hnone, hnone, ?_, ?_⟩
  · show "none" ∈ connectors
    decide
  · show 0 ≤ (Timefmt.split 1700000000).year ∧ (Timefmt.split 1700000000).year ≤ 9999
    decide
  · show fresh (1700000000, 0 / 1000000 % 1000 * 10 ^ 6) (1700000001, 0) 10 = true
    decide

theorem size_playing (detail : String) :
    documentSize "Camera" (playingDocument detail).projection = 206 + quotedLength detail := by
  have hfixed : quotedLength "running" = 9 ∧ quotedLength "stopped" = 9 ∧ quotedLength "Camera" = 8 ∧
      quotedLength "none" = 6 := by decide
  show 127 + 26 + quotedLength "running" + quotedLength "running" + quotedLength "stopped" +
    quotedLength "Camera" + quotedLength detail + quotedLength "none" + quotedLength "none" +
    quotedLength "none" = _
  rw [hfixed.1, hfixed.2.1, hfixed.2.2.1, hfixed.2.2.2]
  omega

theorem bytes_playing (detail : String) :
    (playingDocument detail).bytes.length = 206 + quotedLength detail := by
  rw [← size_playing]
  exact length_document "Camera" (playingDocument detail).projection (0 / 1000000)
    (show 0 ≤ (Timefmt.split 1700000000).year ∧ (Timefmt.split 1700000000).year ≤ 9999 by decide)

theorem report_playing {detail : String} (hclean : sanitizeDetail detail = detail) :
    (PlaybackStatus.new "Camera").current.report (.video .running detail .none) =
      (playingDocument detail).projection := by
  show ({ video := .running, audio := .stopped, videoDetail := sanitizeDetail detail
          audioDetail := "", connector := .none } : Projection) = _
  rw [hclean]
  rfl

theorem publish_playing {detail : String}
    (hsmall : (playingDocument detail).bytes.length ≤ 64 * 1024) :
    (PlaybackStatus.publish { PlaybackStatus.new "Camera" with
      current := (playingDocument detail).projection } false moment).2.documents =
      [playingDocument detail] :=
  publish_first (s := { PlaybackStatus.new "Camera" with
    current := (playingDocument detail).projection }) rfl rfl hsmall

theorem run_one (s : PlaybackStatus) (r : Report) (m : Moment) :
    s.run [(r, m)] = (PlaybackStatus.publish { s with current := s.current.report r } r.force m).2 :=
  rfl

theorem run_playing {detail : String} (hclean : sanitizeDetail detail = detail)
    (hsmall : (playingDocument detail).bytes.length ≤ 64 * 1024) :
    ((PlaybackStatus.new "Camera").run (playing detail)).documents = [playingDocument detail] := by
  have hforce : (Report.video .running detail .none).force = false := rfl
  rw [playing, run_one, report_playing hclean, hforce, publish_playing hsmall]

end PlaybackLemmas

theorem playing_document_shown :
    Shows wholeDecimal (playingDocument "Playing OMT video.") camera true 10 (1700000001, 0) := by
  refine (published_shown_iff wholeDecimal "Camera" (playing "Playing OMT video.")
    (playingDocument "Playing OMT video.") ?_ camera true 10 (1700000001, 0)).mpr ⟨vetted_playing _, ?_⟩
  · rw [run_playing (by decide) (by rw [bytes_playing]; decide)]
    exact List.mem_singleton_self _
  · rw [size_playing]
    decide

namespace PlaybackLemmas

/-- A detail of `n` quotes. -/
def quotesOf (n : Nat) : String := String.ofList (List.replicate n '"')

theorem utf8_quotes (n : Nat) : utf8 (quotesOf n) = List.replicate n 34 := by
  rw [quotesOf, utf8_ofList]
  induction n with
  | zero => rfl
  | succ n ih =>
    rw [List.replicate_succ, List.flatMap_cons, ih, List.replicate_succ]
    rfl

theorem sanitizeDetail_quotes {n : Nat} (h : n ≤ 2048) : sanitizeDetail (quotesOf n) = quotesOf n := by
  have hbytes := utf8_quotes n
  rw [quotesOf, utf8_ofList] at hbytes
  have hkept : kept 0 (List.replicate n '"') = List.replicate n '"' := by
    refine StatusLemmas.kept_all 0 _ (fun c hc => ?_) ?_
    · rw [List.eq_of_mem_replicate hc]
      decide
    · rw [hbytes, List.length_replicate, Nat.zero_add]
      exact h
  have htrim : trim (List.replicate n '"') = List.replicate n '"' := by
    have hdrop : (List.replicate n '"').dropWhile isWhitespace = List.replicate n '"' := by
      cases n with
      | zero => rfl
      | succ n => rw [List.replicate_succ, List.dropWhile_cons_of_neg (by decide)]
    rw [trim, hdrop, List.reverse_replicate, hdrop, List.reverse_replicate]
  rw [sanitizeDetail, quotesOf, String.toList_ofList, hkept, htrim]

theorem quotedLength_quotes (n : Nat) : quotedLength (quotesOf n) = 2 + 2 * n := by
  have hsum : ((List.replicate n 34).map byteCost).sum = 2 * n := by
    induction n with
    | zero => rfl
    | succ n ih =>
      rw [List.replicate_succ, List.map_cons, List.sum_cons, ih, Nat.mul_succ, Nat.add_comm]
      rfl
  rw [quotedLength, utf8_quotes, hsum]

end PlaybackLemmas

/-- A detail of 2048 quotes is published, and the Web side refuses to read the
document though everything in it passes its checks. -/
theorem quoted_detail_not_shown :
    playingDocument (quotesOf 2048) ∈
      ((PlaybackStatus.new "Camera").run (playing (quotesOf 2048))).documents ∧
    Vetted "Camera" camera.value (playingDocument (quotesOf 2048)).projection
      (playingDocument (quotesOf 2048)).wall (1700000001, 0) 10 ∧
    readBounded (some (playingDocument (quotesOf 2048)).bytes) statusLimit =
      .error "file exceeds its size limit" ∧
    ¬ Shows wholeDecimal (playingDocument (quotesOf 2048)) camera true 10 (1700000001, 0) := by
  have hread : readBounded (some (playingDocument (quotesOf 2048)).bytes) statusLimit =
      .error "file exceeds its size limit" := by
    rw [readBounded, if_pos (by rw [bytes_playing, quotedLength_quotes]; decide)]
  refine ⟨?_, vetted_playing _, hread, fun h => nomatch hread.symm.trans h.1⟩
  rw [run_playing (sanitizeDetail_quotes (Nat.le_refl _))
    (by rw [bytes_playing, quotedLength_quotes]; decide)]
  exact List.mem_singleton_self _

end OmtClient.Web
