import OmtClient.Lib.Prog
import OmtClient.Web.Auth
import OmtClient.Web.Ceiling
import OmtClient.Web.RateLimit
import OmtClient.Web.Settings
import OmtClient.Web.Source
import OmtClient.Web.Zip

/-!
# The machine under the Web frontend

What the handlers of `crates/omt-web/src/app.rs` work with: the state of the frontend
and the files, and the log of everything that was done outside the process. Every
question to the outside (a clock, randomness, the disk, a command, a file of another
program) advances `tick` and gets an answer that can be any function of it.

The calls of `playback.rs`, `network.rs` and `diagnostics.rs` that read or act follow,
in terms of these.
-/

namespace OmtClient.Web.App

open OmtClient.Lib OmtClient.Common OmtClient.Omt Prog
open RateLimit (RateEntry)
open Session (Auth Crypto Disk atomicReplace keyRank)

/-! ## What is outside -/

/-- The commands that the frontend runs, without the paths of the programs. -/
inductive Command
  | control (action : String)
  | discover (waitMs : Nat)
  | probe (target : String)
  | version
  deriving DecidableEq, Repr

/-- `proc::Output`. -/
structure Output (F : Type) where
  command : String
  returncode : Option Int
  stdout : String
  stderr : String
  durationSeconds : F
  timedOut : Bool
  error : String
  stdoutTruncated : Bool
  stderrTruncated : Bool

def trimmed (s : String) : String := String.ofList (Receiver.trim s.toList)

def Output.succeeded {F : Type} (o : Output F) : Bool := o.returncode == some 0

def Output.failureDetail {F : Type} (o : Output F) : String :=
  if o.error ≠ "" then o.error
  else if trimmed o.stderr = "" then trimmed o.stdout
  else trimmed o.stderr

def Output.reportText {F : Type} (o : Output F) : String :=
  if trimmed o.stdout ≠ "" then trimmed o.stdout
  else if o.error ≠ "" then o.error
  else if trimmed o.stderr = "" then "unavailable"
  else trimmed o.stderr

/-- The files that the frontend writes. -/
inductive File
  | registry
  | sourceTarget
  | videoCeiling
  | runtimeConfig
  | diagnosticsRequest
  | rebootRequest
  deriving DecidableEq, Repr

/-- The files of other programs and of the installation that it reads. -/
inductive Foreign
  | playbackStatus
  | version
  | license
  | notices
  deriving DecidableEq, Repr

/-- What was done outside the process. -/
inductive Effect
  | run (command : Command)
  | write (file : File)
  | remove (file : File)
  | authenticate
  | revoke
  deriving DecidableEq, Repr

/-- A command that only looks: the controller's status, or the sources on the network. -/
def Command.looks : Command → Bool
  | .control action => action == "status"
  | .discover waitMs => waitMs == 1500
  | .probe _ => false
  | .version => false

/-- Everything but looking changes something. -/
def Effect.changes : Effect → Bool
  | .run command => !command.looks
  | _ => true

/-- What the outside answers at a tick. -/
structure Outside (F : Type) where
  nowMs : Nat → Nat
  epoch : Nat → Nat
  wallClock : Nat → Int × Nat
  /-- So many random bytes in hexadecimal. -/
  random : Nat → Nat → Option String
  disk : Nat → Disk
  command : Nat → Command → Output F
  foreign : Nat → Foreign → Option Bytes
  /-- The status and detail of the host's answer to a reboot request, when one came in time. -/
  rebootResult : Nat → String → Option (String × String)
  /-- The support bundle and its name, from what was collected for a request. -/
  bundle : Nat → String → Bool → Except String (Bytes × String)

/-- The parts of `Settings` that the handlers read. -/
structure Settings where
  sessionLifetime : Nat
  loginLimit : RateLimit
  diagnosticActionLimit : RateLimit
  diagnosticDownloadLimit : RateLimit
  rebootLimit : RateLimit
  sourceCacheTtlMs : Nat
  playbackStatusStale : Nat
  receiveProbe : Bool
  boardLabel : String
  boardVideoCeiling : String

/-- `tv::Value`: the context of a page. -/
inductive Value (F : Type)
  | none
  | bool (b : Bool)
  | int (i : Int)
  | float (f : F)
  | str (s : String)
  | list (items : List (Value F))
  | map (entries : List (String × Value F))

/-- What does not change while the frontend runs. -/
structure Site (F : Type) where
  dec : Json.Decimal F
  isNormalized : String → Nat → Bool
  settings : Settings
  hostname : String
  render : String → Value F → Option Bytes
  /-- `static_asset`: an asset's data and type. -/
  asset : String → Option (Bytes × String)
  /-- The sum of two durations, and none. -/
  plus : F → F → F
  zero : F
  /-- The version of the build, without its leading `v`. -/
  version : String
  outside : Outside F

structure Flash where
  key : String
  category : String
  message : String
  deriving DecidableEq, Repr

structure Response where
  status : Nat
  headers : List (String × String)
  body : Bytes
  failed : Bool
  deriving DecidableEq, Repr

def Response.addHeader (res : Response) (name value : String) : Response :=
  if name.toList.any (fun c => c == '\r' || c == '\n' || c == ':') || value.toList.any (fun c => c == '\r' || c == '\n') then
    { res with failed := true }
  else { res with headers := res.headers ++ [(name, value)] }

/-- The frontend, the files and the request in hand. -/
structure State (c : Crypto) where
  auth : Auth c
  cacheExpiresMs : Nat
  cache : List String
  rates : List RateEntry
  flashes : List Flash
  files : File → Option Bytes
  log : List Effect
  tick : Nat
  session : String
  res : Response

abbrev Act (c : Crypto) (α : Type) := Prog (State c) Empty α

section

variable {c : Crypto} {F : Type} (site : Site F)

def ask {α : Type} (question : Outside F → Nat → α) : Act c α := do
  let s ← get
  modify fun s => { s with tick := s.tick + 1 }
  pure (question site.outside s.tick)

/-- A file gets another content. -/
def State.setFile (s : State c) (file : File) (data : Option Bytes) : State c :=
  { s with files := fun f => if f = file then data else s.files f }

def note (e : Effect) : Act c Unit := modify fun s => { s with log := s.log ++ [e] }

/-- `proc::run`. -/
def runCommand (command : Command) : Act c (Output F) := do
  note (.run command)
  ask site fun o t => o.command t command

def readFile (file : File) : Act c (Option Bytes) := do
  let s ← get
  pure (s.files file)

/-- `atomic_replace` of one of the files. -/
def replaceFile (file : File) (data : Bytes) (maximum : Nat) : Act c (Except String Unit) := do
  let disk ← ask site fun o t => o.disk t
  let old ← readFile file
  note (.write file)
  modify fun s => s.setFile file (atomicReplace disk old data maximum).2
  pure (atomicReplace disk old data maximum).1

/-- `remove_file_durable`. -/
def removeFileDurable (disk : Disk) (file : Option Bytes) : Except String Unit × Option Bytes :=
  match file, disk with
  | none, _ => (.ok (), none)
  | some _, .written => (.ok (), none)
  | some data, .failed => (.error "unable to remove the file", some data)
  | some _, .unsynced => (.error "unable to sync the directory", none)

def removeFile (file : File) : Act c (Except String Unit) := do
  let disk ← ask site fun o t => o.disk t
  let old ← readFile file
  note (.remove file)
  modify fun s => s.setFile file (removeFileDurable disk old).2
  pure (removeFileDurable disk old).1

/-- `write_fixed_inode`: the file has to exist; a write that fails may have emptied it. -/
def writeFixedInode (file : File) (data : Bytes) : Act c (Except String Unit) := do
  let disk ← ask site fun o t => o.disk t
  let old ← readFile file
  note (.write file)
  if 512 < data.length then pure (.error "request exceeds its size limit")
  else
    match old, disk with
    | none, _ => pure (.error "No such file or directory (os error 2)")
    | some _, .failed => pure (.error "request file is unsafe")
    | some _, .unsynced => do
      modify fun s => s.setFile file (some [])
      pure (.error "request file changed during write")
    | some _, .written => do
      modify fun s => s.setFile file (some data)
      pure (.ok ())

/-! ## `playback.rs` -/

def actionText : Nat := 1023
def maxChoices : Nat := 256

structure ActionResult where
  ok : Bool
  message : String
  error : String
  deriving DecidableEq, Repr

def ActionResult.success (message : String) : ActionResult := ⟨true, clip message actionText, ""⟩
def ActionResult.failure (error : String) : ActionResult := ⟨false, "", clip error actionText⟩

def control (action : String) : Act c (Output F) := runCommand site (.control action)

structure SourceConfiguration where
  source : String
  directAddress : String
  error : String
  deriving DecidableEq, Repr

def SourceConfiguration.configured (s : SourceConfiguration) : Bool := s.source ≠ "" && s.error == ""

def readSource : Act c (Except String (Option SourceTarget)) := do
  let file ← readFile .sourceTarget
  pure (Source.readSource site.dec site.isNormalized file)

def configuration : Act c SourceConfiguration := do
  match ← readSource site with
  | .error e => pure ⟨"", "", clip e 255⟩
  | .ok none => pure ⟨"", "", ""⟩
  | .ok (some t) => pure ⟨t.value, if t.direct then t.value else "", ""⟩

/-- `parse_discovered`. -/
def parseDiscovered (output : String) : List String :=
  if 256 * 1024 < (utf8 output).length then []
  else
    match Json.parse site.dec (utf8 output) with
    | .ok (.array items) =>
      let pair (e : Json.Value F) : Option (String × String) :=
        match e.asObject, (e.get "name").bind Json.Value.asStr, (e.get "target").bind Json.Value.asStr with
        | some _, some n, some t => some (n, t)
        | _, _, _ => none
      match items.mapM pair with
      | none => []
      | some pairs =>
        let names := pairs.foldl (fun out p =>
          if out.length < maxChoices ∧ p.1 = p.2 ∧ isValidSourceName site.isNormalized p.1 ∧ p.1 ∉ out then out ++ [p.1]
          else out) []
        names.mergeSort fun a b => decide (keyRank a ≤ keyRank b)
    | _ => []

def sources : Act c (List String) := do
  let now ← ask site fun o t => o.nowMs t
  let s ← get
  if now < s.cacheExpiresMs then pure s.cache
  else do
    let r ← runCommand site (.discover 1500)
    let names := if r.succeeded then parseDiscovered site r.stdout else []
    let now ← ask site fun o t => o.nowMs t
    modify fun s => { s with cache := names, cacheExpiresMs := now + site.settings.sourceCacheTtlMs }
    pure names

def refresh : Act c Unit := do
  let now ← ask site fun o t => o.nowMs t
  modify fun s => { s with cacheExpiresMs := now, cache := [] }

/-- `save_source`. -/
def saveSource (target : Option SourceTarget) : Act c (Except String Unit) :=
  match target with
  | none => removeFile site .sourceTarget
  | some target =>
    match Source.saveSource site.isNormalized target with
    | .error e => pure (.error e)
    | .ok out => replaceFile site .sourceTarget out Source.sourceLimit

def saveAndRestart (target : SourceTarget) (label : String) : Act c ActionResult := do
  match ← saveSource site (some target) with
  | .error e => pure (.failure e)
  | .ok () => do
    refresh site
    let r ← control site "restart"
    if r.succeeded then pure (.success (label ++ " saved and running."))
    else pure (.failure (label ++ " was saved, but playback could not be restarted. " ++ r.failureDetail))

/-- What a selection names, and what it is called. -/
def selected (selection : String) : Option (SourceTarget × String) :=
  let t := (trimmed selection).toList
  let named (name : List Char) : Option (SourceTarget × String) :=
    if isValidSourceName site.isNormalized (String.ofList name) then some (⟨false, String.ofList name⟩, "OMT discovery")
    else none
  if targetMaxBytes * 2 ≤ (utf8 (trimmed selection)).length then none
  else
    ((stripPrefix "discovered|".toList t).bind named).or
      (((stripPrefix "direct|".toList t).bind fun uri =>
        if (parseDirectTarget (utf8 (String.ofList uri))).isOk then some (⟨true, String.ofList uri⟩, "OMT direct target")
        else none).or (named t))

def select (selection : String) : Act c ActionResult :=
  match selected site selection with
  | some (target, label) => saveAndRestart site target label
  | none => pure (.failure "Invalid OMT source selection.")

def saveDirect (address : String) : Act c ActionResult :=
  if (parseDirectTarget (utf8 address)).isOk then saveAndRestart site ⟨true, address⟩ "OMT direct target"
  else pure (.failure "Direct target must use omt://host:port with no path or credentials.")

def restart : Act c ActionResult := do
  match ← readSource site with
  | .error e => pure (.failure ("Saved OMT target is invalid: " ++ e))
  | .ok none => pure (.failure "No OMT source is configured.")
  | .ok (some _) => do
    let r ← control site "restart"
    if r.succeeded then pure (.success "OMT playback restarted.")
    else pure (.failure ("Unable to restart OMT playback. " ++ r.failureDetail))

def clear : Act c ActionResult := do
  let r ← control site "stop"
  if r.returncode ≠ some 0 ∧ r.returncode ≠ some 3 then
    pure (.failure ("Playback could not be stopped, so the saved target was retained. " ++ r.failureDetail))
  else do
    match ← saveSource site none with
    | .error e => pure (.failure ("Playback stopped, but the saved target could not be cleared. " ++ e))
    | .ok () => do
      refresh site
      pure (.success "Playback stopped and the saved target was cleared.")

def ceilingLimit : Nat := 256

def readVideoCeiling (file : Option Bytes) : Except String (Option String) := do
  match ← Source.readRecord site.dec file ceilingLimit "saved video limit" with
  | none => .ok none
  | some root =>
    match (root.get "ceiling").bind Json.Value.asStr with
    | none => .error "saved video limit is invalid JSON: unexpected record shape"
    | some ceiling =>
      if !(root.asObject.isSome && root.onlyKeys ["schema", "ceiling"] && (Source.schema root).isSome) then
        .error "saved video limit is invalid JSON: unexpected record shape"
      else if Source.schema root ≠ some 1 then .error "saved video limit has an invalid schema"
      else
        match Ceiling.parseVideoCeiling (utf8 ceiling) with
        | .error e => .error (fromUtf8Lossy e)
        | .ok () => .ok (some ceiling)

def effectiveVideoCeiling (file : Option Bytes) (boardDefault : String) : Except String String := do
  match Ceiling.parseVideoCeiling (utf8 boardDefault) with
  | .error e => .error (fromUtf8Lossy e)
  | .ok () => do
    let saved ← readVideoCeiling site file
    .ok (saved.getD boardDefault)

def describe (ceiling : String) : String := fromUtf8Lossy (Ceiling.describeVideoCeiling (utf8 ceiling))

structure VideoLimit where
  boardLabel : String
  effective : String
  boardDefault : String
  error : String
  effectiveDescription : String
  boardDefaultDescription : String
  overridden : Bool
  aboveBoardDefault : Bool
  deriving DecidableEq, Repr

def videoLimit : Act c VideoLimit := do
  let file ← readFile .videoCeiling
  let board := site.settings.boardVideoCeiling
  match effectiveVideoCeiling site file board with
  | .ok effective =>
    let overridden := decide (effective ≠ board)
    pure ⟨site.settings.boardLabel, effective, board, "", describe effective, describe board, overridden,
      overridden && decide (Ceiling.pixelRate (utf8 board) < Ceiling.pixelRate (utf8 effective))⟩
  | .error e =>
    pure ⟨site.settings.boardLabel, board, board, clip e 255, describe board, describe board, false, false⟩

/-- `save_video_ceiling`. -/
def saveVideoCeiling (ceiling : Option String) : Act c (Except String Unit) :=
  match ceiling with
  | none => removeFile site .videoCeiling
  | some ceiling =>
    match Ceiling.parseVideoCeiling (utf8 ceiling) with
    | .error e => pure (.error (fromUtf8Lossy e))
    | .ok () =>
      let out := utf8 "\x7b\"schema\":1,\"ceiling\":" ++ Json.writeString ceiling ++ utf8 "\x7d\n"
      if ceilingLimit < out.length then pure (.error "replacement exceeds its size limit")
      else replaceFile site .videoCeiling out ceilingLimit

def saveVideoLimit (value : String) : Act c ActionResult := do
  let requested := trimmed value
  if 256 ≤ (utf8 requested).length then pure (.failure "A video limit must list between 1 and 4 resolutions.")
  else do
    let ceiling := if requested = "" then none else some requested
    match ← saveVideoCeiling site ceiling with
    | .error e => pure (.failure e)
    | .ok () => do
      let label := ceiling.elim "Video limit cleared" fun c => "Video limit set to " ++ describe c
      let r ← control site "restart"
      if r.succeeded then pure (.success (label ++ " and playback restarted."))
      else pure (.failure (label ++ ", but playback could not be restarted. " ++ r.failureDetail))

/-- `summary`; the controller is asked only when there is a target and no status file. -/
def playbackSummary : Act c Summary := do
  let source ← readSource site
  let file ← ask site fun o t => o.foreign t .playbackStatus
  let now ← ask site fun o t => o.wallClock t
  match source, readBounded file statusLimit with
  | .ok (some _), .error _ => do
    let r ← control site "status"
    pure (summary site.dec source file r.succeeded site.settings.playbackStatusStale now)
  | .ok (some _), .ok none => do
    let r ← control site "status"
    pure (summary site.dec source file r.succeeded site.settings.playbackStatusStale now)
  | _, _ => pure (summary site.dec source file false site.settings.playbackStatusStale now)

/-! ## `network.rs` -/

structure NetworkConfiguration where
  discoveryServer : String
  error : String
  deriving DecidableEq, Repr

def readNetworkConfiguration (file : Option Bytes) : NetworkConfiguration :=
  match readBounded file Network.settingsLimit with
  | .ok none => ⟨"", ""⟩
  | .ok (some xml) =>
    match Network.parseServer xml with
    | .ok server => ⟨fromUtf8Lossy server, ""⟩
    | .error e => ⟨"", e⟩
  | .error e => ⟨"", e⟩

/-- The document that stands in for a missing file. -/
def emptySettings : Bytes := utf8 "<?xml version=\"1.0\" encoding=\"utf-8\"?>\n<Settings />\n"

/-- The document to write, unless the file already says the same. -/
def networkUpdate (file : Option Bytes) (value : String) : Except String (Option Bytes) := do
  let normalized ← Network.normalizeServer value
  let current ← readBounded file Network.settingsLimit
  Network.updateSettingsXml (current.getD emptySettings) normalized

/-- `save_network_configuration`. -/
def saveNetworkConfiguration (value : String) : Act c (Except String Bool) := do
  let file ← readFile .runtimeConfig
  match networkUpdate file value with
  | .error e => pure (.error e)
  | .ok none => pure (.ok false)
  | .ok (some updated) => do
    match ← replaceFile site .runtimeConfig updated Network.settingsLimit with
    | .error e => pure (.error e)
    | .ok () => pure (.ok true)

/-! ## `diagnostics.rs` -/

structure DiagnosticResult (F : Type) where
  title : String
  command : Output F
  skipped : Bool
  sources : List String

def diagnosticStatus : Act c String := do
  let r ← control site "status"
  pure r.reportText

def discovery : Act c (DiagnosticResult F) := do
  let r ← runCommand site (.discover 3000)
  let names :=
    match Json.parse site.dec (utf8 r.stdout) with
    | .ok (.array items) =>
      ((items.filterMap fun e => (e.get "name").bind Json.Value.asStr).filter fun n =>
        (utf8 n).length ≤ sourceNameMaxBytes).take maxChoices
    | _ => []
  pure ⟨"OMT discovery check", r, false, if r.succeeded then names else []⟩

def runtime : Act c (DiagnosticResult F × String) := do
  let version ← runCommand site .version
  let status ← control site "status"
  let ok := version.succeeded && (status.returncode == some 0 || status.returncode == some 3)
  let stdout := "$ " ++ version.command ++ "\n" ++ version.stdout ++ version.stderr ++ version.error ++ "\n\n$ " ++
    status.command ++ "\n" ++ status.stdout ++ status.stderr ++ status.error
  let command : Output F :=
    ⟨"OMT runtime checks", some (if ok then 0 else 1), stdout, "",
      site.plus version.durationSeconds status.durationSeconds, false,
      if ok then "" else "One or more runtime checks failed.", false, false⟩
  pure (⟨"Runtime check", command, false, []⟩, status.reportText)

def direct (address : String) : Act c (DiagnosticResult F) := do
  if (parseDirectTarget (utf8 address)).isOk then do
    let r ← runCommand site (.probe address)
    pure ⟨"Direct-connect check", r, false, []⟩
  else
    pure ⟨"Direct-connect check", ⟨"", none, "", "", site.zero, false, "Invalid OMT direct target.", false, false⟩, true, []⟩

/-- `bundle`: the request to the host, the checks, and the archive of what they said. -/
def bundle (includePcap : Bool) : Act c (Except String (Bytes × String)) := do
  match ← ask site fun o t => o.random t 16 with
  | none => pure (.error "unable to read randomness")
  | some id => do
    let epoch ← ask site fun o t => o.epoch t
    let request := "version=1\nrequest_id=" ++ id ++ "\ncapture_pcap=" ++ (if includePcap then "1" else "0") ++
      "\nrequested_at_epoch=" ++ toString epoch ++ "\n"
    let _ ← writeFixedInode site .diagnosticsRequest (utf8 request)
    let _ ← runtime site
    let _ ← discovery site
    let configuration ← configuration site
    if site.settings.receiveProbe && configuration.configured then do
      let _ ← runCommand site (.probe configuration.source)
      ask site fun o t => o.bundle t id includePcap
    else ask site fun o t => o.bundle t id includePcap

def requestReboot : Act c ActionResult := do
  match ← ask site fun o t => o.random t 16 with
  | none => pure (.failure "Unable to generate reboot request ID.")
  | some id => do
    let epoch ← ask site fun o t => o.epoch t
    let record := "version=1\naction=reboot\nrequest_id=" ++ id ++ "\nrequested_at_epoch=" ++ toString epoch ++ "\n"
    match ← writeFixedInode site .rebootRequest (utf8 record) with
    | .error e => pure (.failure ("Unable to submit the host reboot request: " ++ e))
    | .ok () => do
      match ← ask site fun o t => o.rebootResult t id with
      | some ("accepted", _) => pure (.success "OS reboot scheduled. This appliance will go offline shortly.")
      | some ("rejected", detail) => pure (.failure ("The host rejected the reboot request: " ++ detail))
      | _ => pure (.failure ("The reboot request was submitted but the host did not acknowledge it. Check rc-service " ++
          "omt-client-reboot status and /var/log/messages before retrying."))

/-- `app_version`; the build's own version stands in for a missing file. -/
def appVersion : Act c String := do
  let file ← ask site fun o t => o.foreign t .version
  match readText file 256 with
  | .ok (some text) => pure (if trimmed text = "" then site.version else trimmed text)
  | _ => pure site.version

def legalTexts : Act c (String × String) := do
  let license ← ask site fun o t => o.foreign t .license
  let notices ← ask site fun o t => o.foreign t .notices
  let text (file : Option Bytes) (limit : Nat) (missing : String) : String :=
    match readText file limit with
    | .ok (some t) => t
    | _ => missing
  pure (text license (1024 * 1024) "License text unavailable.",
    text notices (8 * 1024 * 1024) "Third-party notices unavailable.")

end

end OmtClient.Web.App
