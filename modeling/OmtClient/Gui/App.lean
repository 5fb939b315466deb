import OmtClient.Gui.Form
import OmtClient.Lib.Journal

/-!
# The deployer's state

`App` of `crates/rpi-omt-deploy-gui/src/app.rs` and the requests of `server.rs` that read and
change it: the form, the activity log, the question that is open and the one job that may
run. Every request holds the lock for as long as it takes.

The worker of a job is a list of lines not yet drained and an outcome. What a request finds
outside, the files of the workstation and whether a thread could be spawned, comes with it.

1. `start_cases`: what `start` can do.
2. `act_cases`: what an action can do.
3. `post_log`: the answer to an action carries no log.
-/

namespace OmtClient.Gui

open OmtClient.Lib OmtClient.Common OmtClient.Deploy

/-- How many progress lines the activity log keeps. -/
def logCapacity : Nat := 2000
def fieldLimit : Nat := 4096

/-! ## Slots -/

/-- One row of a view. -/
inductive Slot
  | host
  | user
  | password
  | sudoPassword
  | knownHosts
  | testButton
  | bootDirectory
  | sdWifiCountry
  | sdWifiSsid
  | sdWifiPassword
  | prepareSdButton
  | alpineHostname
  | alpineRootPassword
  | alpineRootConfirm
  | alpinePiPassword
  | alpinePiConfirm
  | alpineWifiSsid
  | alpineWifiPassword
  | alpineApplyLogin
  | alpineButton
  | remoteDirectory
  | rotateWebPassword
  | webPassword
  | webConfirm
  | deployButton
  | statusButton
  | logsButton
  | restartButton
  | rebootButton
  | manageHostname
  | hostnameButton
  | manageWebPassword
  | manageWebConfirm
  | webPasswordButton
  | wifiSsid
  | wifiPassword
  | wifiConnect
  | wifiPreserve
  | wifiButton
  deriving DecidableEq, Repr

/-- The rows of the views, in order. -/
def slots : List Slot :=
  [.host, .user, .password, .sudoPassword, .knownHosts, .testButton,
    .bootDirectory, .sdWifiCountry, .sdWifiSsid, .sdWifiPassword, .prepareSdButton,
    .alpineHostname, .alpineRootPassword, .alpineRootConfirm, .alpinePiPassword, .alpinePiConfirm, .alpineWifiSsid,
    .alpineWifiPassword, .alpineApplyLogin, .alpineButton,
    .remoteDirectory, .rotateWebPassword, .webPassword, .webConfirm, .deployButton,
    .statusButton, .logsButton, .restartButton, .rebootButton, .manageHostname, .hostnameButton, .manageWebPassword,
    .manageWebConfirm, .webPasswordButton,
    .wifiSsid, .wifiPassword, .wifiConnect, .wifiPreserve, .wifiButton]

def Slot.name : Slot → String
  | .host => "host"
  | .user => "user"
  | .password => "password"
  | .sudoPassword => "sudo_password"
  | .knownHosts => "known_hosts"
  | .testButton => "test"
  | .bootDirectory => "boot_directory"
  | .sdWifiCountry => "sd_wifi_country"
  | .sdWifiSsid => "sd_wifi_ssid"
  | .sdWifiPassword => "sd_wifi_password"
  | .prepareSdButton => "prepare_sd"
  | .alpineHostname => "alpine_hostname"
  | .alpineRootPassword => "alpine_root_password"
  | .alpineRootConfirm => "alpine_root_confirm"
  | .alpinePiPassword => "alpine_pi_password"
  | .alpinePiConfirm => "alpine_pi_confirm"
  | .alpineWifiSsid => "alpine_wifi_ssid"
  | .alpineWifiPassword => "alpine_wifi_password"
  | .alpineApplyLogin => "alpine_apply_login"
  | .alpineButton => "alpine"
  | .remoteDirectory => "remote_directory"
  | .rotateWebPassword => "rotate_web_password"
  | .webPassword => "web_password"
  | .webConfirm => "web_confirm"
  | .deployButton => "deploy"
  | .statusButton => "status"
  | .logsButton => "logs"
  | .restartButton => "restart"
  | .rebootButton => "reboot"
  | .manageHostname => "manage_hostname"
  | .hostnameButton => "apply_hostname"
  | .manageWebPassword => "manage_web_password"
  | .manageWebConfirm => "manage_web_confirm"
  | .webPasswordButton => "change_web_password"
  | .wifiSsid => "wifi_ssid"
  | .wifiPassword => "wifi_password"
  | .wifiConnect => "wifi_connect"
  | .wifiPreserve => "wifi_preserve"
  | .wifiButton => "apply_wifi"

def Slot.fromName (name : String) : Option Slot := slots.find? fun s => s.name == name

/-- What pressing a button runs, and the question asked first when it cannot be undone. -/
def Slot.job : Slot → Option (JobKind × Action × Option String)
  | .testButton => some (.test, .status, none)
  | .prepareSdButton => some (.prepareSd, .status, none)
  | .alpineButton => some (.alpine, .status,
      some "Erase the boot disk and install Alpine in persistent sys mode? The Pi reboots when it finishes.")
  | .deployButton => some (.deploy, .status, none)
  | .statusButton => some (.manage, .status, none)
  | .logsButton => some (.manage, .logs, none)
  | .restartButton => some (.manage, .restart, some "Restart the appliance container now?")
  | .rebootButton => some (.manage, .reboot, some "Reboot the Raspberry Pi now?")
  | .hostnameButton => some (.hostname, .status, none)
  | .webPasswordButton => some (.webPassword, .status, none)
  | .wifiButton => some (.wifi, .status, none)
  | _ => none

/-! ## Fields -/

def fields : List Field :=
  [.host, .user, .password, .sudoPassword, .knownHosts, .bootDirectory, .wifiCountry, .hostname, .osRootPassword,
    .osRootConfirm, .osPiPassword, .osPiConfirm, .remoteDirectory, .webPassword, .webConfirm, .manageHostname,
    .manageWebPassword, .manageWebConfirm, .wifiSsid, .wifiPassword]

def Field.name : Field → String
  | .host => "host"
  | .user => "user"
  | .password => "password"
  | .sudoPassword => "sudo_password"
  | .knownHosts => "known_hosts"
  | .bootDirectory => "boot_directory"
  | .wifiCountry => "wifi_country"
  | .hostname => "hostname"
  | .osRootPassword => "os_root_password"
  | .osRootConfirm => "os_root_confirm"
  | .osPiPassword => "os_pi_password"
  | .osPiConfirm => "os_pi_confirm"
  | .remoteDirectory => "remote_directory"
  | .webPassword => "web_password"
  | .webConfirm => "web_confirm"
  | .manageHostname => "manage_hostname"
  | .manageWebPassword => "manage_web_password"
  | .manageWebConfirm => "manage_web_confirm"
  | .wifiSsid => "wifi_ssid"
  | .wifiPassword => "wifi_password"

def Field.fromName (name : String) : Option Field := fields.find? fun f => f.name == name

def Field.isSecret (f : Field) : Bool :=
  [.password, .sudoPassword, .osRootPassword, .osRootConfirm, .osPiPassword, .osPiConfirm, .webPassword, .webConfirm,
    .manageWebPassword, .manageWebConfirm, Field.wifiPassword].contains f

/-! ## The state -/

/-- What answering a confirmation yes will do. -/
structure Pending where
  /-- Otherwise start `job`. -/
  quit : Bool
  job : JobKind
  action : Action
  prompt : String
  deriving DecidableEq, Repr

/-- A job's thread: what it runs, the lines that nobody has drained, and the outcome once it
has one. -/
structure Worker where
  request : JobRequest
  lines : List String
  result : Option (Except String Unit)
  cancel : Bool

structure App where
  shouldQuit : Bool
  status : String
  form : Form
  applyAlpineLogin : Bool
  log : List String
  /-- How many lines the log has ever held. -/
  logEnd : Nat
  /-- A history: the lines that the log was ever given. -/
  pushed : List String
  confirm : Option Pending
  job : Option Worker
  switchToPiAfterJob : Bool

/-- What a request finds outside: the files, and why no thread could be spawned. -/
structure Outside where
  files : Files
  spawn : Option String

namespace App

/-- The values of a new form. -/
def defaults : Field → String
  | .host => "raspberrypi.local"
  | .user => "root"
  | .wifiCountry => "US"
  | .hostname => "omt-client"
  | .remoteDirectory => "/opt/omt-client"
  | _ => ""

def new : App := ⟨false, "Ready.", ⟨defaults, false, true, true⟩, false, [], 0, [], none, none, false⟩

variable (a : App)

def busy : Bool := a.job.isSome

/-- `set_field`: nothing too long and no control character becomes a value. -/
def setField (f : Field) (text : String) : App :=
  if fieldLimit < len text ∨ hasControl text = true then a
  else { a with form := { a.form with field := Function.update a.form.field f text } }

def toggle : Slot → Bool
  | .alpineApplyLogin => a.applyAlpineLogin
  | .rotateWebPassword => a.form.rotateWebPassword
  | .wifiConnect => a.form.wifiConnect
  | .wifiPreserve => a.form.wifiPreserve
  | _ => false

def setToggle (on : Bool) : Slot → App
  | .alpineApplyLogin => { a with applyAlpineLogin := on }
  | .rotateWebPassword => { a with form := { a.form with rotateWebPassword := on } }
  | .wifiConnect => { a with form := { a.form with wifiConnect := on } }
  | .wifiPreserve => { a with form := { a.form with wifiPreserve := on } }
  | _ => a

/-- The status on one row: a break in the text is a blank. -/
def oneRow : List Char → List Char → Bool → List Char
  | [], out, _ => out
  | c :: rest, out, inBreak =>
    if c = '\n' ∨ c = '\r' then oneRow rest out true
    else
      let out := if inBreak = true ∧ out ≠ [] ∧ out.getLast? ≠ some ' ' then out ++ [' '] else out
      oneRow rest (out ++ [c]) false

def setStatus (text : String) : App :=
  { a with status := trimEnd ' ' (String.ofList (oneRow text.toList [] false)) }

/-! ### The log -/

def pushLogLine (line : String) : App :=
  let log := if logCapacity ≤ a.log.length then a.log.tail else a.log
  { a with log := log ++ [line], logEnd := a.logEnd + 1, pushed := a.pushed ++ [line] }

/-- A line without the carriage return at its end. -/
def logLine (line : List Char) : String := String.ofList (if line.getLast? = some '\r' then line.dropLast else line)

/-- The rows of a text, from the line begun in `line` on. A trailing break ends the last line. -/
def logLines : List Char → List Char → List String
  | line, [] => [logLine line]
  | line, c :: rest =>
    if c = '\n' then logLine line :: (if rest = [] then [] else logLines [] rest)
    else logLines (line ++ [c]) rest

/-- One log row per line. -/
def pushLog (text : String) : App := (logLines [] text.toList).foldl pushLogLine a

/-- The lines from `since` on, and the number of the first of them. -/
def logSince (since : Nat) : Nat × List String :=
  let start := a.logEnd - a.log.length
  let first := min (max since start) a.logEnd
  (first, a.log.drop (first - start))

/-! ### The worker -/

/-- What an outcome leaves. -/
def finish : Except String Unit → App
  | .ok () =>
    let a := (a.setStatus "Finished successfully.").pushLog "-- finished successfully --"
    if a.switchToPiAfterJob then
      let a := a.setField .user "pi"
      let pi := a.form.field .osPiPassword
      ((a.setField .password pi).setField .sudoPassword pi).pushLog
        "Connection updated to user pi. Deploy next; the Alpine root password installs sudo on first deploy."
    else a
  | .error error =>
    let text := String.ofList (error.toList.reverse.dropWhile fun c => c == '\n' || c == '\r' || c == ' ').reverse
    (a.setStatus ("Failed: " ++ text)).pushLog ("-- failed: " ++ text ++ " --")

/-- `poll_worker`: drains whatever the worker has produced since the last look. -/
def pollWorker : App :=
  match a.job with
  | none => a
  | some w =>
    let drained := w.lines.foldl pushLog { a with job := some { w with lines := [], result := none } }
    match w.result with
    | none => drained
    | some result => { finish { drained with job := none } result with switchToPiAfterJob := false }

def cancelJob : App :=
  match a.job with
  | none => a
  | some w => ({ a with job := some { w with cancel := true } }.setStatus "Cancelling...").pushLog "-- cancellation requested --"

/-- `start`: a job on a worker thread. -/
def start (o : Outside) (job : JobKind) (action : Action) : App :=
  if a.busy then a.setStatus "A job is already running."
  else
    match a.form.precheck o.files job with
    | some problem => a.setStatus ("Cannot start: " ++ problem)
    | none =>
      match a.form.request o.files job action with
      | .error problem => a.setStatus ("Cannot start: " ++ problem.text)
      | .ok request =>
        match o.spawn with
        | some e => a.setStatus ("Cannot start: cannot start a worker thread: " ++ e)
        | none =>
          { a with job := some ⟨request, [], none, false⟩
                   switchToPiAfterJob := decide (job = JobKind.alpine) && a.applyAlpineLogin }.setStatus "Running..."

/-! ### Questions -/

def ask (quit : Bool) (job : JobKind) (action : Action) (prompt : String) : App :=
  { a with confirm := some ⟨quit, job, action, String.ofList (prompt.toList.take 255)⟩ }

/-- `blocked`: why pressing a button would not start its job right now. -/
def blocked (o : Outside) (s : Slot) : Option String :=
  match s.job with
  | none => none
  | some (job, action, _) =>
    match a.form.precheck o.files job with
    | some problem => some problem
    | none =>
      match a.form.request o.files job action with
      | .error problem => some problem.text
      | .ok _ => none

def press (o : Outside) (s : Slot) : App :=
  match s.job with
  | none => a
  | some (job, action, some prompt) => a.ask false job action prompt
  | some (job, action, none) => a.start o job action

def quitPrompt : String := "A job is still running. Quit and stop watching it?"

/-- `request_quit`: it asks first while a job runs. -/
def requestQuit : App :=
  if a.busy then a.ask true .test .status quitPrompt else { a with shouldQuit := true }

def confirmPending (o : Outside) (accepted : Bool) : App :=
  match a.confirm with
  | none => a
  | some p =>
    let a := { a with confirm := none }
    if !accepted then a.setStatus "Cancelled."
    else if p.quit then { a with shouldQuit := true }
    else a.start o p.job p.action

end App

/-! ## The answers -/

/-- How a field is shown: a secret only as set or empty. -/
inductive Shown
  | set (nonempty : Bool)
  | text (value : String)
  deriving DecidableEq, Repr

/-- The log of an answer. -/
structure LogPart where
  logStart : Nat
  logEnd : Nat
  log : List String
  deriving DecidableEq, Repr

/-- What the page shows. -/
structure StateJson where
  busy : Bool
  status : String
  cancelling : Bool
  quit : Bool
  confirm : Option String
  fields : List (String × Shown)
  toggles : List (String × Bool)
  blocked : List (String × Option String)
  log : Option LogPart
  deriving DecidableEq, Repr

/-- The rows that are switches. -/
def Slot.isToggle (s : Slot) : Bool := [.alpineApplyLogin, .rotateWebPassword, .wifiConnect, Slot.wifiPreserve].contains s

/-- `state_json`: with the log from `since` on when given. -/
def stateJson (o : Outside) (a : App) (since : Option Nat) : StateJson where
  busy := a.busy
  status := a.status
  cancelling := a.job.any (·.cancel)
  quit := a.shouldQuit
  confirm := a.confirm.map (·.prompt)
  fields := fields.map fun f => (f.name, if f.isSecret then .set (a.form.field f != "") else .text (a.form.field f))
  toggles := (slots.filter Slot.isToggle).map fun s => (s.name, a.toggle s)
  blocked := (slots.filter fun s => s.job.isSome).map fun s => (s.name, if a.busy then none else a.blocked o s)
  log := since.map fun n => ⟨(a.logSince n).1, a.logEnd, (a.logSince n).2⟩

/-! ## The requests -/

section

variable {F : Type}

def asBool : Json.Value F → Option Bool
  | .bool b => some b
  | _ => none

/-- The members of an object that may be left out. -/
def membersOf (body : Json.Value F) (key problem : String) : Except String (List (String × Json.Value F)) :=
  match body.get key with
  | none => .ok []
  | some v =>
    match v.asObject with
    | none => .error problem
    | some members => .ok members

/-- What is wrong with the fields of a request. -/
def checkFields : List (String × Json.Value F) → Option String
  | [] => none
  | (name, value) :: rest =>
    match value.asStr with
    | none => some "A field value must be a string."
    | some text =>
      if Field.fromName name = none then some "Unknown field."
      else if fieldLimit < len text ∨ hasControl text = true then some "A value is too long or holds a control character."
      else checkFields rest

/-- What is wrong with the toggles of a request. -/
def checkToggles : List (String × Json.Value F) → Option String
  | [] => none
  | (name, value) :: rest =>
    match asBool value with
    | none => some "A toggle must be true or false."
    | some _ => if (Slot.fromName name).filter Slot.isToggle = none then some "Unknown toggle." else checkToggles rest

def applyField (a : App) (m : String × Json.Value F) : App :=
  match Field.fromName m.1, m.2.asStr with
  | some f, some text => a.setField f text
  | _, _ => a

def applyToggle (a : App) (m : String × Json.Value F) : App :=
  match Slot.fromName m.1, asBool m.2 with
  | some s, some on => a.setToggle on s
  | _, _ => a

/-- `set_fields`: every name is checked before anything changes. -/
def setFields (a : App) (body : Json.Value F) : Except String App :=
  if body.onlyKeys ["fields", "toggles"] = false then .error "Unknown key."
  else if a.busy then .error "A job is running; its settings cannot change now."
  else
    match membersOf body "fields" "Bad fields.", membersOf body "toggles" "Bad toggles." with
    | .error problem, _ => .error problem
    | _, .error problem => .error problem
    | .ok fields, .ok toggles =>
      match checkFields fields, checkToggles toggles with
      | some problem, _ => .error problem
      | none, some problem => .error problem
      | none, none => .ok (toggles.foldl applyToggle (fields.foldl applyField a))

/-- What an action does, or the problem with it; none is a path that there is not. -/
def act (o : Outside) (a : App) (path : String) (body : Json.Value F) : Option (App × Option String) :=
  if path = "/api/fields" then
    match setFields a body with
    | .ok a' => some (a', none)
    | .error problem => some (a, some problem)
  else if path = "/api/press" then
    if body.onlyKeys ["slot"] = false then some (a, some "Unknown key.")
    else if a.confirm.isSome then some (a, some "Answer the open confirmation first.")
    else
      match ((body.get "slot").bind Json.Value.asStr).bind Slot.fromName with
      | some s => if s.job.isSome then some (a.press o s, none) else some (a, some "Unknown action.")
      | none => some (a, some "Unknown action.")
  else if path = "/api/confirm" then
    match (body.get "accept").bind asBool with
    | some accept =>
      if body.onlyKeys ["accept"] then some (a.confirmPending o accept, none)
      else some (a, some "Expected \x7b\"accept\": true|false\x7d.")
    | none => some (a, some "Expected \x7b\"accept\": true|false\x7d.")
  else if path = "/api/cancel" then some (a.cancelJob, none)
  else if path = "/api/quit" then some (a.requestQuit, none)
  else none

/-- The answer to a request: the state, or a status with a text. -/
abbrev Answer := Except (Nat × String) StateJson

/-- `Shared::post`. -/
def post (o : Outside) (a : App) (path : String) (body : Json.Value F) : App × Answer :=
  match act o a path body with
  | none => (a, .error (404, "Not found."))
  | some (a', problem) =>
    let a' := a'.pollWorker
    match problem with
    | none => (a', .ok (stateJson o a' none))
    | some text => (a', .error (400, text))

/-- `GET /api/state`. -/
def getState (o : Outside) (a : App) (since : Nat) : App × Answer :=
  let a' := a.pollWorker
  (a', .ok (stateJson o a' (some since)))

end

/-! ## What an action asks for -/

/-- The question that is asked before a job. -/
def promptOf : JobKind → Action → Option String
  | .alpine, _ => some "Erase the boot disk and install Alpine in persistent sys mode? The Pi reboots when it finishes."
  | .manage, .restart => some "Restart the appliance container now?"
  | .manage, .reboot => some "Reboot the Raspberry Pi now?"
  | _, _ => none

/-- A question that was asked. -/
def Asked (p : Pending) : Prop :=
  if p.quit then p.prompt = App.quitPrompt else promptOf p.job p.action = some p.prompt

section

variable {F : Type}

/-- An accept. -/
def accepts (path : String) (body : Json.Value F) : Bool :=
  path == "/api/confirm" && (body.get "accept").bind asBool == some true && body.onlyKeys ["accept"]

/-- The job of the button that a press names. -/
def pressed (body : Json.Value F) : Option (JobKind × Action × Option String) :=
  (((body.get "slot").bind Json.Value.asStr).bind Slot.fromName).bind Slot.job

/-- A press that is not turned away. -/
def presses (a : App) (path : String) (body : Json.Value F) : Prop :=
  path = "/api/press" ∧ body.onlyKeys ["slot"] = true ∧ a.confirm = none

/-- The question that an action puts. -/
def Puts (a : App) (path : String) (body : Json.Value F) (question : String) : Prop :=
  (presses a path body ∧ ∃ job action, pressed body = some (job, action, some question)) ∨
    (path = "/api/quit" ∧ a.busy = true ∧ question = App.quitPrompt)

/-- An action that may start a job. -/
def Launches (a : App) (path : String) (body : Json.Value F) : Prop :=
  a.busy = false ∧ ((presses a path body ∧ ∃ job action, pressed body = some (job, action, none)) ∨
    (accepts path body = true ∧ ∃ p, a.confirm = some p ∧ p.quit = false))

end

/-! ## What the operations leave alone -/

/-- The log, as a journal. -/
def App.journal (a : App) : Journal String := ⟨a.log, a.logEnd⟩

/-- The log keeps the newest of the lines that it was given. -/
def App.Logged (a : App) : Prop := Keeps logCapacity a.journal a.pushed

/-- Lines may have been pushed. -/
structure Logs (a a' : App) : Prop where
  logged : a.Logged → a'.Logged
  grows : a.pushed <+: a'.pushed

/-- Nothing but the form, the status and the log is changed. -/
structure Talks (a a' : App) : Prop extends Logs a a' where
  confirm : a'.confirm = a.confirm
  shouldQuit : a'.shouldQuit = a.shouldQuit
  job : a'.job = a.job

variable {a a' b c : App}

theorem Logs.refl (a : App) : Logs a a := ⟨id, List.prefix_refl _⟩

theorem Logs.trans (h : Logs a b) (h' : Logs b c) : Logs a c := ⟨h'.logged ∘ h.logged, h.grows.trans h'.grows⟩

theorem Talks.refl (a : App) : Talks a a := ⟨Logs.refl a, rfl, rfl, rfl⟩

theorem Talks.trans (h : Talks a b) (h' : Talks b c) : Talks a c :=
  ⟨h.toLogs.trans h'.toLogs, h'.confirm.trans h.confirm, h'.shouldQuit.trans h.shouldQuit, h'.job.trans h.job⟩

/-- A change that the log takes no part in. -/
theorem Logs.of_eq (hlog : a'.log = a.log) (hend : a'.logEnd = a.logEnd) (hpushed : a'.pushed = a.pushed) : Logs a a' := by
  refine ⟨fun h => ?_, by simp only [hpushed, List.prefix_refl]⟩
  rw [App.Logged, App.journal, hlog, hend, hpushed]
  exact h

namespace AppLemmas

variable {o : Outside}

theorem talks_status (a : App) (status : String) : Talks a { a with status := status } := ⟨.of_eq rfl rfl rfl, rfl, rfl, rfl⟩

theorem talks_setStatus (a : App) (text : String) : Talks a (a.setStatus text) := talks_status a _

theorem talks_pushLogLine (a : App) (line : String) : Talks a (a.pushLogLine line) := by
  refine ⟨⟨fun h => ?_, List.prefix_append _ _⟩, rfl, rfl, rfl⟩
  exact (show Keeps logCapacity a.journal a.pushed from h).push (by decide) line

theorem talks_foldl {β : Type} {f : App → β → App} (h : ∀ a x, Talks a (f a x)) (xs : List β) (a : App) :
    Talks a (xs.foldl f a) := by
  induction xs generalizing a with
  | nil => exact Talks.refl a
  | cons x xs ih => exact (h a x).trans (ih (f a x))

theorem talks_pushLog (a : App) (text : String) : Talks a (a.pushLog text) := talks_foldl talks_pushLogLine _ a

theorem talks_setField (a : App) (f : Field) (text : String) : Talks a (a.setField f text) := by
  unfold App.setField
  split
  · exact Talks.refl a
  · exact ⟨.of_eq rfl rfl rfl, rfl, rfl, rfl⟩

theorem talks_setToggle (a : App) (on : Bool) (s : Slot) : Talks a (a.setToggle on s) := by
  unfold App.setToggle
  split <;> exact ⟨.of_eq rfl rfl rfl, rfl, rfl, rfl⟩

theorem talks_finish (a : App) (result : Except String Unit) : Talks a (a.finish result) := by
  cases result with
  | ok u =>
    have hsaid := (talks_setStatus a "Finished successfully.").trans (talks_pushLog _ "-- finished successfully --")
    unfold App.finish
    dsimp only
    split
    · refine hsaid.trans (Talks.trans (talks_setField _ .user "pi") ?_)
      exact (talks_setField _ .password _).trans ((talks_setField _ .sudoPassword _).trans (talks_pushLog _ _))
    · exact hsaid
  | error e => exact (talks_setStatus a _).trans (talks_pushLog _ _)

/-! ### The worker -/

/-- What `poll_worker` makes of a job. -/
def polled : Option Worker → Option Worker
  | none => none
  | some w => if w.result.isSome then none else some { w with lines := [] }

structure Polls (a a' : App) : Prop extends Logs a a' where
  confirm : a'.confirm = a.confirm
  shouldQuit : a'.shouldQuit = a.shouldQuit
  job : a'.job = polled a.job

theorem polls_pollWorker (a : App) : Polls a a.pollWorker := by
  unfold App.pollWorker
  cases hjob : a.job with
  | none =>
    refine ⟨Logs.refl a, rfl, rfl, ?_⟩
    rw [hjob]
    rfl
  | some w =>
    have hdrained := talks_foldl talks_pushLog w.lines { a with job := some { w with lines := [], result := none } }
    have hlogs := (show Logs a { a with job := some { w with lines := [], result := none } } from .of_eq rfl rfl rfl).trans
      hdrained.toLogs
    dsimp only
    cases hresult : w.result with
    | none =>
      refine ⟨hlogs, hdrained.confirm, hdrained.shouldQuit, hdrained.job.trans ?_⟩
      rw [hjob, polled, hresult]
      rfl
    | some result =>
      generalize w.lines.foldl App.pushLog { a with job := some { w with lines := [], result := none } } = d at hdrained hlogs
      have hfinish := talks_finish { d with job := none } result
      have hidle : Logs d { d with job := none } := .of_eq rfl rfl rfl
      have hend := (hlogs.trans hidle).trans hfinish.toLogs
      refine ⟨⟨hend.logged, hend.grows⟩, hfinish.confirm.trans hdrained.confirm,
        hfinish.shouldQuit.trans hdrained.shouldQuit, hfinish.job.trans ?_⟩
      rw [hjob, polled, hresult]
      rfl

/-! ### Starting -/

/-- A job is started where none runs. -/
structure Starts (a a' : App) (job : JobKind) (action : Action) : Prop extends Logs a a' where
  idle : a.job = none
  confirm : a'.confirm = a.confirm
  shouldQuit : a'.shouldQuit = a.shouldQuit
  job : ∃ request, request.job = job ∧ request.action = action ∧ a'.job = some ⟨request, [], none, false⟩

theorem request_kind {f : Form} {fs : Files} {job : JobKind} {action : Action} {r : JobRequest}
    (h : f.request fs job action = .ok r) : r.job = job ∧ r.action = action := by
  obtain ⟨connection, -, h⟩ := JobsLemmas.bind_eq_ok h
  obtain ⟨wifiPassword, -, h⟩ := JobsLemmas.bind_eq_ok h
  obtain ⟨osRootPassword, -, h⟩ := JobsLemmas.bind_eq_ok h
  obtain ⟨osPiPassword, -, h⟩ := JobsLemmas.bind_eq_ok h
  obtain ⟨webPassword, -, h⟩ := JobsLemmas.bind_eq_ok h
  cases h
  exact ⟨rfl, rfl⟩

theorem start_cases (a : App) (o : Outside) (job : JobKind) (action : Action) :
    Talks a (a.start o job action) ∨ Starts a (a.start o job action) job action := by
  unfold App.start
  split
  · exact .inl (talks_setStatus a _)
  · next hidle =>
    cases a.form.precheck o.files job with
    | some problem => exact .inl (talks_setStatus a _)
    | none =>
      cases hrequest : a.form.request o.files job action with
      | error problem => exact .inl (talks_setStatus a _)
      | ok r =>
        cases o.spawn with
        | some e => exact .inl (talks_setStatus a _)
        | none =>
          obtain ⟨hjob, haction⟩ := request_kind hrequest
          refine .inr ⟨.of_eq rfl rfl rfl, ?_, rfl, rfl, r, hjob, haction, rfl⟩
          exact Option.not_isSome_iff_eq_none.mp hidle

/-! ### Actions -/

theorem job_prompt {s : Slot} {job : JobKind} {action : Action} {prompt : Option String} (h : s.job = some (job, action, prompt)) :
    promptOf job action = prompt := by
  cases s <;> cases h <;> rfl

/-- No question is cut. -/
theorem prompt_whole {s : Slot} {job : JobKind} {action : Action} {prompt : String}
    (h : s.job = some (job, action, some prompt)) : String.ofList (prompt.toList.take 255) = prompt := by
  cases s <;> cases h <;> decide

/-- What an action does to the question and to the job. -/
inductive Did {F : Type} (a : App) (path : String) (body : Json.Value F) : App → Prop
  | talked {a' : App} (h : Talks a a') (hslot : accepts path body = true → a.confirm = none) : Did a path body a'
  | cancelled {a' : App} {w : Worker} (haccept : accepts path body = false) (hjob : a.job = some w) (hlogs : Logs a a')
      (hconfirm : a'.confirm = a.confirm) (hquit : a'.shouldQuit = a.shouldQuit)
      (hcancel : a'.job = some { w with cancel := true }) : Did a path body a'
  | asked {p : Pending} (haccept : accepts path body = false) (hasked : Asked p) (hputs : Puts a path body p.prompt) :
      Did a path body { a with confirm := some p }
  | started {a' : App} {job : JobKind} {action : Action} (haccept : accepts path body = false)
      (hprompt : promptOf job action = none) (hlaunches : Launches a path body) (h : Starts a a' job action) :
      Did a path body a'
  | stopped (haccept : accepts path body = false) (hidle : a.job = none) : Did a path body { a with shouldQuit := true }
  | declined {a' : App} {p : Pending} (haccept : accepts path body = false) (hopen : a.confirm = some p)
      (h : Talks { a with confirm := none } a') : Did a path body a'
  | quitted {p : Pending} (haccept : accepts path body = true) (hopen : a.confirm = some p) (hquit : p.quit = true) :
      Did a path body { a with confirm := none, shouldQuit := true }
  | refused {a' : App} {p : Pending} (haccept : accepts path body = true) (hopen : a.confirm = some p)
      (hquit : p.quit = false) (h : Talks { a with confirm := none } a') : Did a path body a'
  | accepted {a' : App} {p : Pending} (haccept : accepts path body = true) (hopen : a.confirm = some p)
      (hquit : p.quit = false) (hlaunches : Launches a path body)
      (h : Starts { a with confirm := none } a' p.job p.action) : Did a path body a'

variable {F : Type} {path : String} {body : Json.Value F} {problem : Option String}

theorem did_nothing (a : App) (h : accepts path body = false) : Did a path body a :=
  .talked (Talks.refl a) fun htrue => absurd (htrue.symm.trans h) (by decide)

theorem did_setFields (h : setFields a body = .ok a') : Talks a a' := by
  unfold setFields at h
  split at h
  · cases h
  · split at h
    · cases h
    · split at h
      · cases h
      · cases h
      · split at h
        · cases h
        · cases h
        · cases h
          refine (talks_foldl (fun a m => ?_) _ a).trans (talks_foldl (fun a m => ?_) _ _)
          · unfold applyField
            split
            · exact talks_setField a _ _
            · exact Talks.refl a
          · unfold applyToggle
            split
            · exact talks_setToggle a _ _
            · exact Talks.refl a

theorem not_accepts (h : path ≠ "/api/confirm") : accepts path body = false := by
  rw [accepts, beq_false_of_ne h]
  rfl

theorem did_press (a : App) (o : Outside) {s : Slot} (hpresses : presses a path body)
    (hslot : ((body.get "slot").bind Json.Value.asStr).bind Slot.fromName = some s) : Did a path body (a.press o s) := by
  have hno : accepts path body = false := not_accepts (by rw [hpresses.1]; decide)
  have hpressed : pressed body = s.job := by
    rw [pressed, hslot]
    rfl
  unfold App.press
  cases hjob : s.job with
  | none => exact did_nothing a hno
  | some r =>
    rw [hjob] at hpressed
    obtain ⟨job, action, prompt⟩ := r
    cases prompt with
    | some prompt =>
      have hwhole := prompt_whole hjob
      refine .asked hno ?_ (.inl ⟨hpresses, job, action, ?_⟩)
      · rw [Asked, if_neg (by exact Bool.false_ne_true)]
        exact (job_prompt hjob).trans (congrArg some hwhole.symm)
      · exact hpressed.trans (congrArg (fun q => some (job, action, some q)) hwhole.symm)
    | none =>
      rcases start_cases a o job action with h | h
      · exact .talked h fun htrue => absurd (htrue.symm.trans hno) (by decide)
      · refine .started hno (job_prompt hjob) ⟨?_, .inl ⟨hpresses, job, action, hpressed⟩⟩ h
        rw [App.busy, h.idle]
        rfl

theorem did_confirm (a : App) (o : Outside) {accept : Bool} (haccept : accepts path body = accept) :
    Did a path body (a.confirmPending o accept) := by
  unfold App.confirmPending
  cases hopen : a.confirm with
  | none => exact .talked (Talks.refl a) fun _ => hopen
  | some p =>
    cases accept with
    | false => exact .declined haccept hopen (talks_setStatus _ _)
    | true =>
      dsimp only
      rw [if_neg (by decide)]
      split
      · next hquit => exact .quitted haccept hopen hquit
      · next hquit =>
        have hjob : p.quit = false := Bool.eq_false_iff.mpr hquit
        rcases start_cases { a with confirm := none } o p.job p.action with h | h
        · exact .refused haccept hopen hjob h
        · refine .accepted haccept hopen hjob ⟨?_, .inr ⟨haccept, p, hopen, hjob⟩⟩ h
          rw [App.busy, show a.job = none from h.idle]
          rfl

theorem did_cancel (a : App) (haccept : accepts path body = false) : Did a path body a.cancelJob := by
  unfold App.cancelJob
  cases hjob : a.job with
  | none => exact did_nothing a haccept
  | some w =>
    have hsaid := (talks_setStatus { a with job := some { w with cancel := true } } "Cancelling...").trans
      (talks_pushLog _ "-- cancellation requested --")
    have hlogs : Logs a { a with job := some { w with cancel := true } } := .of_eq rfl rfl rfl
    exact .cancelled haccept hjob (hlogs.trans hsaid.toLogs) hsaid.confirm hsaid.shouldQuit hsaid.job

theorem did_quit (a : App) (hpath : path = "/api/quit") : Did a path body a.requestQuit := by
  have hno : accepts path body = false := not_accepts (by rw [hpath]; decide)
  unfold App.requestQuit
  split
  · next hbusy =>
    have hwhole : String.ofList (App.quitPrompt.toList.take 255) = App.quitPrompt := by decide
    refine .asked hno ?_ (.inr ⟨hpath, hbusy, hwhole⟩)
    rw [Asked, if_pos (by rfl)]
    exact hwhole
  · next hidle => exact .stopped hno (Option.not_isSome_iff_eq_none.mp hidle)

theorem act_cases (h : act o a path body = some (a', problem)) : Did a path body a' := by
  unfold act at h
  split at h
  · next hpath =>
    have hno : accepts path body = false := not_accepts (by rw [hpath]; decide)
    split at h
    · next hset =>
      cases h
      exact .talked (did_setFields hset) fun htrue => absurd (htrue.symm.trans hno) (by decide)
    · cases h
      exact did_nothing a hno
  · split at h
    · next hpath =>
      have hno : accepts path body = false := not_accepts (by rw [hpath]; decide)
      split at h
      · cases h
        exact did_nothing a hno
      · next hkeys =>
        split at h
        · cases h
          exact did_nothing a hno
        · next hopen =>
          split at h
          · next hslot =>
            split at h
            · cases h
              refine did_press a o ⟨hpath, ?_, Option.not_isSome_iff_eq_none.mp hopen⟩ hslot
              exact Bool.eq_true_of_not_eq_false hkeys
            · cases h
              exact did_nothing a hno
          · cases h
            exact did_nothing a hno
    · split at h
      · next hpath =>
        split at h
        · next accept haccept =>
          split at h
          · next hkeys =>
            cases h
            refine did_confirm a o ?_
            rw [accepts, hpath, haccept, hkeys]
            cases accept <;> rfl
          · next hkeys =>
            cases h
            refine did_nothing a ?_
            rw [accepts, Bool.eq_false_iff.mpr hkeys, Bool.and_false]
        · next haccept =>
          cases h
          refine did_nothing a ?_
          rw [accepts, haccept]
          exact Bool.and_eq_false_iff.mpr (.inl (Bool.and_false _))
      · next hpath =>
        split at h
        · cases h
          exact did_cancel a (not_accepts hpath)
        · split at h
          · next hpath =>
            cases h
            exact did_quit a hpath
          · cases h

theorem logs_of_did (h : Did a path body a') : Logs a a' := by
  cases h with
  | talked h => exact h.toLogs
  | cancelled _ _ hlogs => exact hlogs
  | asked => exact .of_eq rfl rfl rfl
  | started _ _ _ h => exact h.toLogs
  | stopped => exact .of_eq rfl rfl rfl
  | declined _ _ h => exact ⟨h.logged, h.grows⟩
  | quitted => exact .of_eq rfl rfl rfl
  | refused _ _ _ h => exact ⟨h.logged, h.grows⟩
  | accepted _ _ _ _ h => exact ⟨h.logged, h.grows⟩

theorem act_none (h : act o a path body = none) : accepts path body = false := by
  refine not_accepts fun hpath => ?_
  unfold act at h
  rw [hpath, if_neg (by decide), if_neg (by decide), if_pos (by rfl)] at h
  split at h
  · split at h
    · cases h
    · cases h
  · cases h

/-- What a request leaves: an action and a poll, or nothing. -/
theorem post_cases (o : Outside) (a : App) (path : String) (body : Json.Value F) :
    ((post o a path body).1 = a ∧ accepts path body = false ∧ ∃ e, (post o a path body).2 = .error e) ∨
      ∃ b, Did a path body b ∧ Polls b (post o a path body).1 ∧
        ((∃ e, (post o a path body).2 = .error e) ∨ (post o a path body).2 = .ok (stateJson o (post o a path body).1 none)) := by
  unfold post
  cases hact : act o a path body with
  | none => exact .inl ⟨rfl, act_none hact, _, rfl⟩
  | some r =>
    obtain ⟨b, problem⟩ := r
    refine .inr ⟨b, act_cases hact, ?_⟩
    cases problem with
    | none => exact ⟨polls_pollWorker b, .inr rfl⟩
    | some text => exact ⟨polls_pollWorker b, .inl ⟨_, rfl⟩⟩

end AppLemmas

end OmtClient.Gui
