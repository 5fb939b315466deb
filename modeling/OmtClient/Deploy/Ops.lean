import OmtClient.Deploy.Machine

/-!
# Operations over a session

`crates/omt-deploy/src/ops.rs`: what the deployer does on a Raspberry Pi. An operation
validates what it was given, connects, and runs commands whose output it reads. What is
reported to the operator on the way is left out.

1. `wifiPsk`: the key that is sent to a Pi.
2. `quiet_deploy` and its siblings: which rules an operation can find broken.
-/

namespace OmtClient.Deploy

open OmtClient.Lib OmtClient.Common Prog

def setHostnameMember : String := "deploy/host/set-hostname.sh"
def setHostnameComplete : String := "=== Appliance hostname set ==="
def setupSysMember : String := "deploy/host/setup-sys.sh"
def setupSysComplete : String := "=== Alpine sys install complete ==="
def bootstrapMember : String := "deploy/host/bootstrap.sh"
def bootstrapPasswordReady : String := "omt-bootstrap-password-ready"
def imageMember : String := "omt-client-arm64.tar.gz"

def platformProbe : String :=
  "uname -m && . /etc/os-release && printf '%s\\n' \"$ID\" && cat /etc/alpine-release && tr -d '\\000' < " ++
    "/proc/device-tree/model && printf '\\n'"

def toolingProbe : String :=
  "id -u; for tool in bash sudo; do if command -v \"$tool\" >/dev/null 2>&1; then echo yes; else echo no; fi; done; " ++
    "if ! command -v doas >/dev/null 2>&1; then echo no; elif doas -n true >/dev/null 2>&1; then echo yes; else case " ++
    "\"$(doas -n true 2>&1)\" in *[Aa]uthenticat*|*[Aa]uthoriz*) echo yes ;; *) echo no ;; esac; fi"

def webPasswordCommand : String :=
  "sh -eu -c 'docker exec -i omt-client /usr/local/bin/omt-web set-password && rc-service omt-client restart'"

def bootIdCommand : String := "cat /proc/sys/kernel/random/boot_id"

/-! ## Text -/

/-- `str::contains`. -/
def contains (text part : String) : Bool := (findSub part.toList text.toList).isSome

/-- `str::lines`. -/
def lines (text : String) : List String :=
  let pieces := text.toList.splitOn '\n'
  let last := pieces.getLastD []
  let ended := pieces.dropLast.map fun l => if l.getLast? = some '\r' then l.dropLast else l
  (ended ++ if last = [] then [] else [last]).map String.ofList

def nthLine (text : String) (n : Nat) : Option String := (lines text)[n]?

/-- `str::replace`, in a number of turns, of a text that is not empty. -/
def replaceAll (part other : List Char) : Nat → List Char → List Char
  | 0, _ => []
  | _, [] => []
  | n + 1, c :: cs =>
    if part.isPrefixOf (c :: cs) then other ++ replaceAll part other n ((c :: cs).drop part.length)
    else c :: replaceAll part other n cs

def redact (message : String) (secrets : List String) : String :=
  (secrets.filter (· ≠ "")).foldl
    (fun out secret => String.ofList (replaceAll secret.toList "[redacted]".toList out.toList.length out.toList)) message

/-- `trim_end_matches`, of one character. -/
def trimEnd (c : Char) (text : String) : String := String.ofList (text.toList.reverse.dropWhile (· == c)).reverse

def failWithDetail {α : Type} (what detail : String) : Act α :=
  if trim detail = "" then fail what else fail (what ++ ":\n" ++ detail)

def requireSuccess (result : SshResult) (operation : String) : Act Unit :=
  if result.success then pure () else failWithDetail (operation ++ " failed") result.combined

/-! ## Commands -/

def sudoPrefix (c : Connection) : String :=
  if c.username = "root" then "" else if c.sudoPassword.nonempty then "sudo -S -p ''" else "sudo -n"

def privilegedCommand (c : Connection) (command : String) : String :=
  if sudoPrefix c = "" then command else sudoPrefix c ++ " " ++ command

def privilegedStdinCommand (c : Connection) (command : String) : String := privilegedCommand c command

def privilegedArgvCommand (c : Connection) (argv : List String) : String :=
  privilegedCommand c (" ".intercalate (argv.map shellQuote))

/-- `sudo_input`. -/
def sudoInput (c : Connection) : Bytes :=
  if c.username ≠ "root" ∧ c.sudoPassword.nonempty = true then utf8 c.sudoPassword.text ++ [10] else []

inductive Action
  | status
  | logs
  | restart
  | reboot
  deriving DecidableEq, Repr

def Action.argv : Action → List String
  | .status => ["docker", "ps", "--filter", "name=omt-client"]
  | .logs => ["docker", "logs", "--tail", "500", "omt-client"]
  | .restart => ["rc-service", "omt-client", "restart"]
  | .reboot => ["sh", "-c", "nohup sh -c 'sleep 1; /sbin/reboot' </dev/null >/dev/null 2>&1 &"]

def connectionSecrets (c : Connection) : List String := [c.password.text, c.keyPassphrase.text, c.sudoPassword.text]

/-! ## Tooling -/

structure HostTooling where
  uid : String
  hasBash : Bool
  hasSudo : Bool
  hasDoas : Bool
  deriving DecidableEq, Repr

def parseHostTooling (output : String) : HostTooling :=
  let line n := ((nthLine output n).map trim).getD ""
  ⟨String.ofList ((line 0).toList.take 31), line 1 == "yes", line 2 == "yes", line 3 == "yes"⟩

def bootstrapEscalation (tooling : HostTooling) : Act String :=
  if tooling.uid = "0" then pure ""
  else if tooling.hasSudo then pure "sudo -S -p ''"
  else if tooling.hasDoas then pure "doas"
  else fail ("this Raspberry Pi has no sudo, no doas, and the deploy account is not root, so the appliance cannot be " ++
    "bootstrapped remotely. Alpine ships neither by default. Fill the Alpine view's root password " ++
    "(`bootstrap_root_password` in the CLI `--secrets-stdin`) and the first deploy installs them through `su`. " ++
    "Otherwise connect as root, or run `su -c '/bin/sh bootstrap.sh'` once on the Pi with deploy/host/bootstrap.sh " ++
    "copied across.")

def needsSuBootstrap (tooling : HostTooling) (c : Connection) : Bool :=
  tooling.uid != "0" && !tooling.hasSudo && c.bootstrapRootPassword.nonempty

/-! ## Platform -/

def isSupportedBoard (model : String) : Bool :=
  ["Raspberry Pi 5", "Raspberry Pi 4 Model B"].any fun board =>
    match stripPrefix board.toList model.toList with
    | none => false
    | some rest => board.toList.getLast? == some ' ' || rest == [] || rest.head? == some ' '

def requireSupportedAppliance (output : String) : Act Unit :=
  if nthLine output 0 = some "aarch64" ∧ nthLine output 1 = some "alpine" ∧
      ((nthLine output 2).any fun r => "3.24.".toList.isPrefixOf r.toList) ∧
      ((nthLine output 3).any isSupportedBoard) then pure ()
  else fail "remote host must run Alpine Linux 3.24 aarch64 on a Raspberry Pi 5 or Raspberry Pi 4 Model B"

/-- The digest at the start of the output of `sha256sum`, in lower case. -/
def parseSha256Line (output : String) : Option String :=
  let p := output.toList.dropWhile fun c => c == ' ' || c == '\t' || c == '\n' || c == '\r'
  let digest := String.ofList (p.takeWhile fun c => !(c == ' ' || c == '\t' || c == '\r' || c == '\n'))
  if len digest = 64 ∧ (utf8 digest).all isHexDigit = true then some (String.ofList (digest.toList.map Char.toLower))
  else none

/-- `first_web_password`: the line after the first banner. -/
def firstWebPassword (logs : String) : Option String :=
  let rec search : List (List Char) → Option String
    | line :: next :: rest =>
      if (findSub "Web UI password (save this now)".toList line).isSome then
        match nthLine ("\n".intercalate ((next :: rest).map String.ofList)) 0 with
        | none => none
        | some value =>
          if trim value = "" ∨ (utf8 (trim value)).all (· == 61) = true then none else some (trim value)
      else search (next :: rest)
    | _ => none
  search (logs.toList.splitOn '\n')

section

variable (site : Site)

/-- `capsule_member`. -/
def capsuleMember (root : Option String) (name : String) : Act Payload :=
  match root with
  | some root => demand site fun o t => o.treePayload t root name
  | none =>
    match site.members.find? (·.name == name) with
    | some m => pure (.embedded m.bytes)
    | none => fail (name ++ " is not part of the embedded capsule")

/-- `capsule_artifacts`. -/
def capsuleArtifacts (o : DeployOptions) : Act (List Artifact) :=
  match o.projectRoot with
  | none => pure (site.members.map fun m => ⟨m.name, site.sha256Hex m.bytes, .embedded m.bytes⟩)
  | some root => do
    let artifacts ← demand site fun o t => o.treeArtifacts t root
    failIf (!artifacts.any (·.name == imageMember))
      ("deployment artifact manifest does not include " ++ imageMember)
    pure artifacts

def readBootId : Act String := do
  let r ← run site bootIdCommand []
  requireSuccess r "Read Linux boot ID"
  failIf (trim r.out == "") "Linux boot ID was empty"
  pure (trim r.out)

/-- One look at each account: whether one has come back, and which were seen down. -/
def lookAround (previous : String) : List (Connection × Bool) → Act (Option (List (Connection × Bool)))
  | [] => pure (some [])
  | (c, sawDown) :: rest => do
    match ← attempt (connectChecked site c) with
    | .error _ => do
      let others ← lookAround previous rest
      pure (others.map ((c, true) :: ·))
    | .ok () =>
      match ← attempt (readBootId site) with
      | .ok id =>
        if id ≠ previous then pure none
        else do
          let others ← lookAround previous rest
          pure (others.map ((c, sawDown) :: ·))
      | .error _ =>
        if sawDown then pure none
        else do
          let others ← lookAround previous rest
          pure (others.map ((c, sawDown) :: ·))

/-- The turns of `wait_for_reboot`. -/
def rebootTurns (previous : String) (deadline : Nat) : Nat → List (Connection × Bool) → Act Unit
  | 0, _ => fail "still waiting"
  | n + 1, accounts => do
    let now ← ask site Outside.nowMs
    if now < deadline then do
      checkCancel site
      match ← lookAround site previous accounts with
      | none => pure ()
      | some accounts => rebootTurns previous deadline n accounts
    else do
      checkCancel site
      fail "the Raspberry Pi did not come back after reboot within the wait"

def waitForReboot (connections : List Connection) (previous : String) (timeoutMs : Nat) : Act Unit := do
  let now ← ask site Outside.nowMs
  rebootTurns site previous (now + timeoutMs) site.patience (connections.map (·, false))

def waitForAppliance (c : Connection) : Act Unit := do
  let command := privilegedCommand c "docker inspect -f '\x7b\x7b.State.Status\x7d\x7d' omt-client"
  let start ← ask site Outside.nowMs
  loop (do
      let now ← ask site Outside.nowMs
      if now < start + 3 * 60 * 1000 then do
        checkCancel site
        let r ← run site command (sudoInput c)
        if r.success ∧ trim r.out = "running" then pure (some ()) else pure none
      else fail "the OMT appliance container did not reach running state within three minutes")
    (.outside "still waiting") site.patience

def fetchInitialWebPassword (c : Connection) : Act (Option String) := do
  let command := privilegedArgvCommand c Action.logs.argv
  let start ← ask site Outside.nowMs
  loop (do
      checkCancel site
      let r ← run site command (sudoInput c)
      if r.success = false then pure (some none)
      else
        match firstWebPassword r.combined with
        | some pw => pure (some (some pw))
        | none =>
          if contains r.combined "omt-web listening on" then pure (some none)
          else do
            let now ← ask site Outside.nowMs
            if start + 60 * 1000 ≤ now then pure (some none) else pure none)
    (.outside "still waiting") site.patience

def buildImage (o : DeployOptions) : Act Unit :=
  if o.rebuildImage = false then pure ()
  else
    match o.projectRoot with
    | none => fail "rebuilding the appliance image needs a project root to build it from"
    | some root => demand site fun o t => o.buildImage t root

/-! ## Operations -/

def probePlatform : Act Unit := do
  let r ← run site platformProbe []
  requireSuccess r "Remote platform probe"
  requireSupportedAppliance r.out

def testConnection (c : Connection) : Act Unit := do
  checkCancel site
  connectChecked site c
  probePlatform site

/-- The end of every command that runs an uploaded script. -/
def scriptEnd (remoteQ : String) : String := "; rc=$?; rm -f -- " ++ remoteQ ++ "; exit $rc"

/-- Running the bootstrap script as root, through `su` or with what the host has. -/
def bootstrap (c : Connection) (tooling : HostTooling) (remoteQ : String) : Act SshResult :=
  if needsSuBootstrap tooling c then
    runPtyAfterMarker site
      ("stty -echo; printf '" ++ bootstrapPasswordReady ++ "\\n'; su -c " ++ shellQuote ("/bin/sh " ++ remoteQ) ++
        "; rc=$?; stty echo; rm -f -- " ++ remoteQ ++ "; exit $rc")
      bootstrapPasswordReady (utf8 c.bootstrapRootPassword.text ++ [10])
  else do
    let escalation ← bootstrapEscalation tooling
    run site (escalation ++ " /bin/sh " ++ remoteQ ++ scriptEnd remoteQ) (sudoInput c)

def ensureHostBootstrapped (c : Connection) (projectRoot : Option String) : Act Unit := do
  let r ← run site toolingProbe []
  requireSuccess r "Remote tooling probe"
  let tooling := parseHostTooling r.out
  if tooling.hasBash && tooling.hasSudo then pure ()
  else do
    let pl ← capsuleMember site projectRoot bootstrapMember
    let token ← randomToken site 8
    let remote := "/tmp/omt-bootstrap-" ++ token ++ ".sh"
    uploadPayload site pl remote
    let r ← bootstrap site c tooling (shellQuote remote)
    requireSuccess r "Alpine bootstrap"

def passwordConnection (base : Connection) (username : String) (password : Secret) (escalation : Option Secret) : Connection :=
  { Connection.new with
    host := base.host
    username := username
    port := base.port
    password := password
    knownHostsPath := base.knownHostsPath
    sudoPassword := escalation.getD .absent }

def rebootHost (c : Connection) (input : Bytes) (what : String) : Act Unit := do
  let r ← run site (privilegedArgvCommand c Action.reboot.argv) input
  requireSuccess r what

/-- `wifi_psk`: a key of 64 digits as it is, in lower case, or else one derived from the
passphrase. -/
def wifiPsk (kdf : Pbkdf2) (ssid : String) (password : Secret) : Except Problem Secret :=
  if isHexPsk password.text then Secret.new (String.ofList (password.text.toList.map Char.toLower))
  else deriveWpaPsk kdf ssid password

/-- What `alpine_setup` says about the network: its name in hexadecimal, and its key. -/
def setupWifi (wifi : Option WifiSettings) : Except Problem (String × String) :=
  match wifi with
  | none => .ok ("", "")
  | some w =>
    match wifiPsk site.kdf w.ssid w.password with
    | .ok psk => .ok (hex (utf8 w.ssid), psk.text)
    | .error p => .error p

/-- The lines that the setup script reads. -/
def setupInput (settings : AlpineSettings) (wifi : String × String) : Bytes :=
  [settings.hostname, settings.rootPassword.text, settings.piPassword.text, wifi.1, wifi.2].flatMap fun part =>
    utf8 part ++ [10]

def setupCommand (remoteQ : String) : String := "/bin/sh " ++ remoteQ ++ scriptEnd remoteQ

def alpineSetup (c : Connection) (settings : AlpineSettings) (projectRoot : Option String) : Act Unit := do
  let fs ← ask site Outside.files
  check ((validateConnection fs c).or (validateAlpineSetup settings))
  checkCancel site
  connectChecked site c
  probePlatform site
  let pl ← capsuleMember site projectRoot setupSysMember
  let token ← randomToken site 8
  let remote := "/tmp/omt-setup-sys-" ++ token ++ ".sh"
  uploadPayload site pl remote
  let wifi ← settled (setupWifi site settings.wifi)
  let r ← run site (setupCommand (shellQuote remote)) (setupInput settings wifi)
  let secrets := [settings.rootPassword.text, settings.piPassword.text,
    (settings.wifi.map (·.password.text)).getD "", wifi.2]
  if r.success = false then failWithDetail "Alpine sys install failed" (redact r.combined secrets)
  else do
    failIf (!contains r.combined setupSysComplete) "Alpine sys install finished without the completion marker"
    let bootId ← readBootId site
    rebootHost site c (sudoInput c) "Post-sys-install reboot"
    let pi := passwordConnection c "pi" settings.piPassword (some settings.piPassword)
    let root := passwordConnection c "root" settings.rootPassword none
    waitForReboot site [pi, root] bootId (8 * 60 * 1000)

def manage (c : Connection) (action : Action) : Act Unit := do
  checkCancel site
  connectChecked site c
  let r ← run site (privilegedArgvCommand c action.argv) (sudoInput c)
  requireSuccess r "Remote management action"

/-- `ssh_rename_command`. -/
def sshRenameCommand (remoteQ : String) : String := "/bin/sh " ++ remoteQ ++ scriptEnd remoteQ

def setHostname (c : Connection) (hostname : String) (projectRoot : Option String) : Act Unit := do
  let fs ← ask site Outside.files
  check (validateConnection fs c)
  check (if validApplianceHostname hostname then none else some .newHostname)
  checkCancel site
  connectChecked site c
  let pl ← capsuleMember site projectRoot setHostnameMember
  let token ← randomToken site 8
  let remote := "/tmp/omt-set-hostname-" ++ token ++ ".sh"
  uploadPayload site pl remote
  let command := privilegedStdinCommand c ("sh -c " ++ shellQuote (sshRenameCommand (shellQuote remote)))
  let r ← run site command (sudoInput c ++ utf8 hostname ++ [10])
  if r.success = false then failWithDetail "Hostname change failed" (redact r.combined (connectionSecrets c))
  else
    failIf (!contains (redact r.out (connectionSecrets c)) setHostnameComplete)
      "Hostname change finished without the completion marker"

def changeWebPassword (c : Connection) (password : Secret) : Act Unit := do
  let fs ← ask site Outside.files
  check ((validateConnection fs c).or (validateWebPassword password))
  checkCancel site
  connectChecked site c
  let r ← run site (privilegedStdinCommand c webPasswordCommand) (sudoInput c ++ utf8 password.text ++ [10])
  if r.success = false then failWithDetail "Web GUI password change failed" (redact r.combined [password.text])
  else pure ()

def wifiMarker (token : String) : String := "__OMT_WIFI_PASSWORD_FOLLOWS_" ++ token ++ "__"

def yesNo (b : Bool) : String := if b then "yes" else "no"

/-- The command of `apply_wifi`. -/
def wifiCommand (settings : WifiSettings) (ssidHex marker : String) : String :=
  "sh -eu -c " ++ shellQuote site.wifiScript ++ " sh " ++ shellQuote ssidHex ++ " " ++
    shellQuote (yesNo settings.connect) ++ " " ++ shellQuote (yesNo settings.preserveExistingProfiles) ++ " " ++
    shellQuote marker ++ " " ++ shellQuote settings.ssid

/-- What `apply_wifi` sends to its command. -/
def wifiInput (c : Connection) (marker psk : String) : Bytes :=
  sudoInput c ++ utf8 marker ++ [10] ++ utf8 psk ++ [10]

def applyWifi (c : Connection) (settings : WifiSettings) : Act Unit := do
  let fs ← ask site Outside.files
  check ((validateConnection fs c).or (validateWifi settings))
  checkCancel site
  let psk ← settled (wifiPsk site.kdf settings.ssid settings.password)
  let token ← randomToken site 12
  let marker := wifiMarker token
  connectChecked site c
  let r ← run site (privilegedStdinCommand c (wifiCommand site settings (hex (utf8 settings.ssid)) marker))
    (wifiInput c marker psk.text)
  if r.success = false then
    fail ("Wi-Fi update failed:\n" ++
      redact r.combined (connectionSecrets c ++ [psk.text, settings.password.text]))
  else pure ()

/-! ## Deployment -/

/-- `remove_stage`, which nothing cancels. -/
def removeStage (stageQ : String) : Act Unit := do
  let _ ← attempt (run site ("if [ -d " ++ stageQ ++ " ] && [ ! -L " ++ stageQ ++ " ]; then find -P " ++ stageQ ++
    " -xdev -depth -delete; fi") [])
  pure ()

def runRequired (command : String) (input : Bytes) (what : String) : Act Unit := do
  let r ← run site command input
  requireSuccess r what

structure Staging where
  stage : String
  token : String
  remoteQ : String

/-- The directory of a member, unless it is at the top. -/
def parentOf (name : String) : Option String :=
  match rsplitOnce '/' name.toList with
  | some (dir, _) => if dir = [] then none else some (String.ofList dir)
  | none => none

def stageParent (st : Staging) (a : Artifact) : Act Unit :=
  match parentOf a.name with
  | some dir => runRequired site ("mkdir -p -- " ++ shellQuote (st.stage ++ "/" ++ dir)) [] "Remote staging preparation"
  | none => pure ()

def artifactUnchanged (a : Artifact) : Act Bool :=
  match a.data with
  | .embedded _ => pure true
  | .file _ _ => demand site fun o t => o.unchanged t a

/-- One member: its directory, its upload, and the digest that the remote host finds. -/
def stageMember (st : Staging) (a : Artifact) : Act Unit := do
  checkCancel site
  stageParent site st a
  let remotePath := st.stage ++ "/" ++ a.name
  uploadPayload site a.data remotePath
  let same ← artifactUnchanged site a
  failIf (!same) ("local deployment artifact changed during upload: " ++ a.name)
  let r ← run site ("sha256sum -- " ++ shellQuote remotePath) []
  requireSuccess r "Remote checksum"
  failIf (parseSha256Line r.out != some a.digest) ("SHA-256 mismatch after uploading " ++ a.name)

def stageMembers (st : Staging) : List Artifact → Act Unit
  | [] => pure ()
  | a :: arts => do
    stageMember site st a
    stageMembers st arts

def stageAndPromote (st : Staging) (arts : List Artifact) : Act Unit := do
  stageMembers site st arts
  runRequired site ("bash " ++ shellQuote (st.stage ++ "/deploy/transaction.sh") ++ " promote " ++ st.remoteQ ++ " " ++
    shellQuote st.token ++ " " ++ shellQuote (st.stage ++ "/deploy/manifest-v3.txt")) [] "Deployment promotion"

def executablePaths : List String :=
  ["deploy/host/bootstrap.sh", "deploy/host/setup-sys.sh", "deploy/host/set-hostname.sh", "deploy/host/install.sh",
    "deploy/host/uninstall.sh", "deploy/host/host-diagnostics.sh", "deploy/host/host-event-watcher.sh",
    "deploy/host/host-reboot.sh", "deploy/transaction.sh"]

def recoverCommand (directory : String) : String :=
  let remoteQ := shellQuote directory
  let legacy := shellQuote (directory ++ "/deploy-transaction.sh")
  let legacyManifest := shellQuote (directory ++ "/deploy-artifacts.txt")
  let current := shellQuote (directory ++ "/deploy/transaction.sh")
  "if [ -x " ++ legacy ++ " ] && [ -f " ++ legacyManifest ++ " ]; then " ++ legacy ++ " recover " ++ remoteQ ++ " " ++
    legacyManifest ++ "; fi; if [ -x " ++ current ++ " ]; then " ++ current ++ " recover " ++ remoteQ ++ "; fi"

def stagingCommand (stagingQ stageQ : String) : String :=
  "if [ -L " ++ stagingQ ++ " ] || \x7b [ -e " ++ stagingQ ++ " ] && [ ! -d " ++ stagingQ ++
    " ]; \x7d; then exit 14; fi; install -d -m 700 -- " ++ stagingQ ++ "; mkdir -- " ++ stageQ

def installCommand (c : Connection) (directory : String) : String :=
  " ".intercalate ("chmod +x" :: executablePaths.map fun path => shellQuote (directory ++ "/" ++ path)) ++ " && " ++
    privilegedCommand c
      ("sh -c " ++ shellQuote ("printf 'n\\n' | " ++ shellQuote (directory ++ "/deploy/host/install.sh")))

/-- The part of `deploy` up to the promotion of what was uploaded. -/
def stageDeployment (c : Connection) (o : DeployOptions) (arts : List Artifact) : Act Unit := do
  let directory := trimEnd '/' o.remoteDirectory
  runRequired site
    (privilegedCommand c ("install -d -m 755 -o \"$(id -u)\" -g \"$(id -g)\" " ++ shellQuote directory))
    (sudoInput c) "Remote directory preparation"
  let token ← randomToken site 12
  let stagingRoot := directory ++ "/.deploy-staging"
  let stage := stagingRoot ++ "/" ++ token
  runRequired site (recoverCommand directory) [] "Interrupted deployment recovery"
  runRequired site (stagingCommand (shellQuote stagingRoot) (shellQuote stage)) [] "Remote staging root validation"
  match ← attempt (stageAndPromote site ⟨stage, token, shellQuote directory⟩ arts) with
  | .ok () => pure ()
  | .error e => do
    removeStage site (shellQuote stage)
    raise e

/-- The password of a container that the installer has started. -/
def passwordBeforeReboot (c : Connection) (r : SshResult) : Act (Option String) :=
  if contains r.out "Container startup deferred" then pure none else fetchInitialWebPassword site c

/-- The part of `deploy` after it. -/
def installDeployment (c : Connection) (o : DeployOptions) : Act Unit := do
  let r ← run site (installCommand c (trimEnd '/' o.remoteDirectory)) (sudoInput c)
  requireSuccess r "Remote installer"
  let password ← passwordBeforeReboot site c r
  let bootId ← readBootId site
  rebootHost site c (sudoInput c) "Post-install reboot"
  waitForReboot site [c] bootId (6 * 60 * 1000)
  match ← attempt (waitForAppliance site c) with
  | .error _ => pure ()
  | .ok () =>
    if password.isNone then do
      let _ ← fetchInitialWebPassword site c
      pure ()
    else pure ()

def deploy (c : Connection) (o : DeployOptions) : Act Unit := do
  let fs ← ask site Outside.files
  check ((validateConnection fs c).or (validateOptions fs o))
  checkCancel site
  buildImage site o
  checkCancel site
  let arts ← capsuleArtifacts site o
  connectChecked site c
  probePlatform site
  ensureHostBootstrapped site c o.projectRoot
  stageDeployment site c o arts
  installDeployment site c o

end

/-! ## What operations send and find -/

namespace OpsLemmas

open MachineLemmas

variable {α : Type} {site : Site} {A : Problem → Prop} {P : String × Bytes → Prop}

theorem orderly_failWithDetail (what detail : String) : Orderly A P (failWithDetail what detail : Act α) :=
  orderly_ite (orderly_fail _) (orderly_fail _)

theorem orderly_requireSuccess (r : SshResult) (operation : String) : Orderly A P (requireSuccess r operation) :=
  orderly_ite (orderly_pure ()) (orderly_failWithDetail _ _)

theorem quiet_runRequired (command : String) (input : Bytes) (what : String) : Quiet (runRequired site command input what) :=
  orderly_bind (orderly_run trivial) fun r => orderly_requireSuccess r what

theorem orderly_capsuleMember (root : Option String) (name : String) : Orderly A P (capsuleMember site root name) := by
  unfold capsuleMember
  split
  · exact orderly_demand _
  · split
    · exact orderly_pure _
    · exact orderly_fail _

theorem orderly_capsuleArtifacts (o : DeployOptions) : Orderly A P (capsuleArtifacts site o) := by
  unfold capsuleArtifacts
  split
  · exact orderly_pure _
  · exact orderly_bind (orderly_demand _) fun _ => orderly_bind (orderly_failIf _ _) fun _ => orderly_pure _

theorem orderly_readBootId (hboot : P (bootIdCommand, [])) : Orderly A P (readBootId site) :=
  orderly_bind (orderly_run hboot) fun _ => orderly_bind (orderly_requireSuccess _ _) fun _ => orderly_bind (orderly_failIf _ _)
    fun _ => orderly_pure _

theorem orderly_lookAround {previous : String} {accounts : List (Connection × Bool)}
    (hboot : P (bootIdCommand, [])) (h : ∀ a ∈ accounts, Ruled A a.1) : Orderly A P (lookAround site previous accounts) := by
  induction accounts with
  | nil => exact orderly_pure _
  | cons a rest ih =>
    obtain ⟨hc, hrest⟩ := List.forall_mem_cons.mp h
    have hothers (sawDown : Bool) : Orderly A P (do
        let others ← lookAround site previous rest
        pure (others.map ((a.1, sawDown) :: ·))) := orderly_bind (ih hrest) fun _ => orderly_pure _
    refine orderly_bind (orderly_attempt (orderly_connectChecked hc)) fun r => ?_
    cases r with
    | error e => exact hothers true
    | ok u =>
      refine orderly_bind (orderly_attempt (orderly_readBootId hboot)) fun r => ?_
      cases r with
      | ok id => exact orderly_ite (orderly_pure _) (hothers a.2)
      | error e => exact orderly_ite (orderly_pure _) (hothers a.2)

/-- A look keeps to the accounts it was given. -/
theorem lookAround_accounts {previous : String} {accounts : List (Connection × Bool)} {s : State} :
    wp (lookAround site previous accounts)
      (fun o _ => ∀ others, o = some others → others.map (·.1) = accounts.map (·.1)) (fun _ _ => True) s := by
  induction accounts generalizing s with
  | nil =>
    intro others h
    cases h
    rfl
  | cons a rest ih =>
    have hothers (sawDown : Bool) {s : State} : wp (do
        let others ← lookAround site previous rest
        pure (others.map ((a.1, sawDown) :: ·)))
        (fun o _ => ∀ others, o = some others → others.map (·.1) = (a :: rest).map (·.1)) (fun _ _ => True) s := by
      refine wp_seq ih fun o s' ho => ?_
      intro others h
      obtain ⟨tail, htail, rfl⟩ := Option.map_eq_some_iff.mp h
      rw [List.map_cons, List.map_cons, ho tail htail]
    refine wp_seq (wp_true _) fun r s' _ => ?_
    cases r with
    | error e => exact hothers true
    | ok u =>
      refine wp_seq (wp_true _) fun r s' _ => ?_
      have hnone {s : State} : wp (pure none : Act (Option (List (Connection × Bool))))
          (fun o _ => ∀ others, o = some others → others.map (·.1) = (a :: rest).map (·.1)) (fun _ _ => True) s :=
        fun _ h => (nomatch h)
      cases r with
      | ok id => exact wp_ite.mpr ⟨fun _ => hnone, fun _ => hothers a.2⟩
      | error e => exact wp_ite.mpr ⟨fun _ => hnone, fun _ => hothers a.2⟩

theorem orderly_rebootTurns {previous : String} {deadline n : Nat} {accounts : List (Connection × Bool)}
    (hboot : P (bootIdCommand, [])) (h : ∀ c ∈ accounts.map (·.1), Ruled A c) :
    Orderly A P (rebootTurns site previous deadline n accounts) := by
  induction n generalizing accounts with
  | zero => exact orderly_fail _
  | succ n ih =>
    have hlook : Orderly A P (lookAround site previous accounts) :=
      orderly_lookAround hboot fun a ha => h a.1 (List.mem_map_of_mem ha)
    refine orderly_bind (orderly_ask _) fun now => orderly_ite (orderly_bind orderly_checkCancel fun _ => ?_)
      (orderly_bind orderly_checkCancel fun _ => orderly_fail _)
    -- the next turn has the same accounts, which only the result of the look shows
    intro s hs
    rw [wp_bind]
    refine wp_mono (wp_and (hlook s hs) lookAround_accounts) ?_ fun _ _ he => he.1
    rintro o s' ⟨⟨hs', hμ⟩, ho⟩
    cases o with
    | none => exact ⟨hs', hμ⟩
    | some others =>
      have hsame : ∀ c ∈ others.map (·.1), Ruled A c := by
        rw [ho others rfl]
        exact h
      exact ih hsame s' hs'

theorem orderly_waitForReboot {connections : List Connection} {previous : String} {timeoutMs : Nat}
    (hboot : P (bootIdCommand, [])) (h : ∀ c ∈ connections, Ruled A c) :
    Orderly A P (waitForReboot site connections previous timeoutMs) := by
  refine orderly_bind (orderly_ask _) fun now => orderly_rebootTurns hboot ?_
  rw [List.map_map]
  show ∀ c ∈ connections.map id, Ruled A c
  rw [List.map_id]
  exact h

theorem quiet_waitForAppliance (c : Connection) : Quiet (waitForAppliance site c) := by
  refine orderly_bind (orderly_ask _) fun start => orderly_loop ?_ _
  refine orderly_bind (orderly_ask _) fun now => orderly_ite (orderly_bind orderly_checkCancel fun _ => ?_) (orderly_fail _)
  exact orderly_bind (orderly_run trivial) fun _ => orderly_ite (orderly_pure _) (orderly_pure _)

theorem quiet_fetchInitialWebPassword (c : Connection) : Quiet (fetchInitialWebPassword site c) := by
  refine orderly_bind (orderly_ask _) fun start => orderly_loop ?_ _
  refine orderly_bind orderly_checkCancel fun _ => orderly_bind (orderly_run trivial) fun r => orderly_ite (orderly_pure _) ?_
  split
  · exact orderly_pure _
  · exact orderly_ite (orderly_pure _) (orderly_bind (orderly_ask _) fun _ => orderly_ite (orderly_pure _) (orderly_pure _))

theorem orderly_buildImage (o : DeployOptions) : Orderly A P (buildImage site o) := by
  unfold buildImage
  refine orderly_ite (orderly_pure ()) ?_
  split
  · exact orderly_fail _
  · exact orderly_demand _

theorem orderly_probePlatform (hprobe : P (platformProbe, [])) : Orderly A P (probePlatform site) :=
  orderly_bind (orderly_run hprobe) fun _ => orderly_bind (orderly_requireSuccess _ _) fun _ => orderly_ite (orderly_pure ()) (orderly_fail _)

theorem orderly_bootstrapEscalation (tooling : HostTooling) : Orderly A P (bootstrapEscalation tooling) :=
  orderly_ite (orderly_pure _) (orderly_ite (orderly_pure _) (orderly_ite (orderly_pure _) (orderly_fail _)))

theorem quiet_bootstrap (c : Connection) (tooling : HostTooling) (remoteQ : String) :
    Quiet (bootstrap site c tooling remoteQ) :=
  orderly_ite (orderly_runPtyAfterMarker trivial) (orderly_bind (orderly_bootstrapEscalation _) fun _ => orderly_run trivial)

theorem quiet_ensureHostBootstrapped (c : Connection) (root : Option String) :
    Quiet (ensureHostBootstrapped site c root) := by
  refine orderly_bind (orderly_run trivial) fun r => orderly_bind (orderly_requireSuccess _ _) fun _ => orderly_ite (orderly_pure ()) ?_
  refine orderly_bind (orderly_capsuleMember _ _) fun pl => orderly_bind (orderly_randomToken _) fun token => ?_
  refine orderly_bind (orderly_uploadPayload _ _) fun _ => ?_
  generalize parseHostTooling r.out = tooling
  exact orderly_bind (quiet_bootstrap c tooling _) fun r => orderly_requireSuccess _ _

theorem orderly_rebootHost {c : Connection} {input : Bytes} {what : String}
    (h : P (privilegedArgvCommand c Action.reboot.argv, input)) : Orderly A P (rebootHost site c input what) :=
  orderly_bind (orderly_run h) fun _ => orderly_requireSuccess _ _

theorem quiet_stageMember (st : Staging) (a : Artifact) : Quiet (stageMember site st a) := by
  refine orderly_bind orderly_checkCancel fun _ => orderly_bind ?_ fun _ => orderly_bind (orderly_uploadPayload _ _) fun _ => ?_
  · unfold stageParent
    split
    · exact quiet_runRequired _ _ _
    · exact orderly_pure ()
  · refine orderly_bind ?_ fun same => orderly_bind (orderly_failIf _ _) fun _ => orderly_bind (orderly_run trivial) fun r => ?_
    · unfold artifactUnchanged
      split
      · exact orderly_pure _
      · exact orderly_demand _
    · exact orderly_bind (orderly_requireSuccess _ _) fun _ => orderly_failIf _ _

theorem quiet_stageMembers (st : Staging) (arts : List Artifact) : Quiet (stageMembers site st arts) := by
  induction arts with
  | nil => exact orderly_pure ()
  | cons a arts ih => exact orderly_bind (quiet_stageMember st a) fun _ => ih

theorem quiet_removeStage (stageQ : String) : Quiet (removeStage site stageQ) :=
  orderly_bind (orderly_attempt (orderly_run trivial)) fun _ => orderly_pure ()

/-- What failed is raised again, after the stage was removed. -/
theorem quiet_stageDeployment (c : Connection) (o : DeployOptions) (arts : List Artifact) :
    Quiet (stageDeployment site c o arts) := by
  refine orderly_bind (quiet_runRequired _ _ _) fun _ => orderly_bind (orderly_randomToken _) fun token => ?_
  refine orderly_bind (quiet_runRequired _ _ _) fun _ => orderly_bind (quiet_runRequired _ _ _) fun _ => ?_
  have hstage {st : Staging} : Quiet (stageAndPromote site st arts) :=
    orderly_bind (quiet_stageMembers st arts) fun _ => quiet_runRequired _ _ _
  intro s hs
  rw [wp_bind, wp_attempt]
  refine wp_mono (hstage s hs) (fun _ _ h => h) ?_
  rintro e s' ⟨he, hs', hμ⟩
  exact orderly_bind (quiet_removeStage _) (fun _ => runs_raise he) s' hs'

theorem quiet_installDeployment {c : Connection} (hc : Ruled FromFiles c) (o : DeployOptions) :
    Quiet (installDeployment site c o) := by
  refine orderly_bind (orderly_run trivial) fun r => orderly_bind (orderly_requireSuccess _ _) fun _ => ?_
  refine orderly_bind (orderly_ite (orderly_pure _) (quiet_fetchInitialWebPassword c)) fun password => ?_
  refine orderly_bind (orderly_readBootId trivial) fun id => orderly_bind (orderly_rebootHost trivial) fun _ => ?_
  refine orderly_bind (orderly_waitForReboot trivial ?_) fun _ => orderly_bind (orderly_attempt (quiet_waitForAppliance c)) fun r => ?_
  · intro d hd
    rw [List.mem_singleton.mp hd]
    exact hc
  · cases r with
    | error e => exact orderly_pure ()
    | ok u => exact orderly_ite (orderly_bind (quiet_fetchInitialWebPassword c) fun _ => orderly_pure ()) (orderly_pure ())

/-! ### Whole operations -/

theorem quiet_testConnection {c : Connection} (hc : Ruled FromFiles c) : Quiet (testConnection site c) :=
  orderly_bind orderly_checkCancel fun _ => orderly_bind (orderly_connectChecked hc) fun _ => orderly_probePlatform trivial

theorem quiet_manage {c : Connection} (hc : Ruled FromFiles c) (action : Action) : Quiet (manage site c action) :=
  orderly_bind orderly_checkCancel fun _ => orderly_bind (orderly_connectChecked hc) fun _ => orderly_bind (orderly_run trivial) fun _ =>
    orderly_requireSuccess _ _

/-- A check of the connection, then of something that is fine. -/
theorem orderly_check_connection {c : Connection} (hc : Ruled A c) {fs : Files} {other : Option Problem}
    (h : ∀ p, other = some p → A p) : Orderly A P (check ((validateConnection fs c).or other)) := by
  refine orderly_check fun p hp => ?_
  cases hfirst : validateConnection fs c with
  | some q =>
    rw [hfirst] at hp
    cases hp
    exact hc fs p hfirst
  | none =>
    rw [hfirst] at hp
    exact h p hp

theorem quiet_setHostname {c : Connection} (hc : Ruled FromFiles c) {hostname : String}
    (hname : validApplianceHostname hostname = true) (root : Option String) :
    Quiet (setHostname site c hostname root) := by
  refine orderly_bind (orderly_ask _) fun fs => orderly_bind (orderly_check (hc fs)) fun _ => orderly_bind ?_ fun _ => ?_
  · rw [if_pos hname]
    exact orderly_pure ()
  refine orderly_bind orderly_checkCancel fun _ => orderly_bind (orderly_connectChecked hc) fun _ => ?_
  refine orderly_bind (orderly_capsuleMember _ _) fun _ => orderly_bind (orderly_randomToken _) fun _ => ?_
  refine orderly_bind (orderly_uploadPayload _ _) fun _ => orderly_bind (orderly_run trivial) fun r => ?_
  exact orderly_ite (orderly_failWithDetail _ _) (orderly_failIf _ _)

theorem quiet_changeWebPassword {c : Connection} (hc : Ruled FromFiles c) {password : Secret}
    (hpassword : validateWebPassword password = none) : Quiet (changeWebPassword site c password) := by
  refine orderly_bind (orderly_ask _) fun fs => orderly_bind (orderly_check_connection hc ?_) fun _ => ?_
  · rw [hpassword]
    exact fun _ h => (nomatch h)
  refine orderly_bind orderly_checkCancel fun _ => orderly_bind (orderly_connectChecked hc) fun _ => ?_
  exact orderly_bind (orderly_run trivial) fun _ => orderly_ite (orderly_failWithDetail _ _) (orderly_pure ())

/-- A network is set up with the key that the settings give, in one command. -/
theorem orderly_applyWifi {c : Connection} (hc : Ruled A c) {settings : WifiSettings}
    (hwifi : ∀ p, validateWifi settings = some p → A p)
    (hpsk : ∀ p, wifiPsk site.kdf settings.ssid settings.password = .error p → A p)
    (hsend : ∀ psk token, wifiPsk site.kdf settings.ssid settings.password = .ok psk →
      P (privilegedStdinCommand c (wifiCommand site settings (hex (utf8 settings.ssid)) (wifiMarker token)),
        wifiInput c (wifiMarker token) psk.text)) :
    Orderly A P (applyWifi site c settings) := by
  refine orderly_bind (orderly_ask _) fun fs => orderly_bind (orderly_check_connection hc hwifi) fun _ => ?_
  refine orderly_bind orderly_checkCancel fun _ => orderly_settled_bind hpsk fun psk hkey => ?_
  refine orderly_bind (orderly_randomToken _) fun token => orderly_bind (orderly_connectChecked hc) fun _ => ?_
  exact orderly_bind (orderly_run (hsend psk token hkey)) fun _ => orderly_ite (orderly_fail _) (orderly_pure ())

/-- A setup sends the name and the key of the network that the settings give, to the script
that it has uploaded. -/
theorem orderly_alpineSetup {c : Connection} (hc : Ruled A c) {settings : AlpineSettings}
    (hsettings : ∀ p, validateAlpineSetup settings = some p → A p)
    (hwifi : ∀ p, setupWifi site settings.wifi = .error p → A p)
    (hpi : Ruled A (passwordConnection c "pi" settings.piPassword (some settings.piPassword)))
    (hroot : Ruled A (passwordConnection c "root" settings.rootPassword none))
    (hprobe : P (platformProbe, [])) (hboot : P (bootIdCommand, []))
    (hreboot : P (privilegedArgvCommand c Action.reboot.argv, sudoInput c))
    (hsend : ∀ wifi remoteQ, setupWifi site settings.wifi = .ok wifi →
      P (setupCommand remoteQ, setupInput settings wifi)) (root : Option String) :
    Orderly A P (alpineSetup site c settings root) := by
  refine orderly_bind (orderly_ask _) fun fs => orderly_bind (orderly_check_connection hc hsettings) fun _ => ?_
  refine orderly_bind orderly_checkCancel fun _ => orderly_bind (orderly_connectChecked hc) fun _ => ?_
  refine orderly_bind (orderly_probePlatform hprobe) fun _ => orderly_bind (orderly_capsuleMember _ _) fun _ => ?_
  refine orderly_bind (orderly_randomToken _) fun token => orderly_bind (orderly_uploadPayload _ _) fun _ => ?_
  refine orderly_settled_bind hwifi fun wifi hkey => orderly_bind (orderly_run (hsend wifi _ hkey)) fun _ => ?_
  refine orderly_ite (orderly_failWithDetail _ _) (orderly_bind (orderly_failIf _ _) fun _ => ?_)
  refine orderly_bind (orderly_readBootId hboot) fun _ => orderly_bind (orderly_rebootHost hreboot) fun _ => ?_
  exact orderly_waitForReboot hboot (List.forall_mem_cons.mpr ⟨hpi, List.forall_mem_singleton.mpr hroot⟩)

/-- A deployment finds no rule broken when those of its connection and its options hold. -/
theorem quiet_deploy {c : Connection} (hc : Ruled FromFiles c) {o : DeployOptions}
    (ho : ∀ fs p, validateOptions fs o = some p → p.ofFiles = true) : Quiet (deploy site c o) := by
  refine orderly_bind (orderly_ask _) fun fs => orderly_bind (orderly_check_connection hc (ho fs)) fun _ => ?_
  refine orderly_bind orderly_checkCancel fun _ => orderly_bind (orderly_buildImage o) fun _ => ?_
  refine orderly_bind orderly_checkCancel fun _ => orderly_bind (orderly_capsuleArtifacts o) fun arts => ?_
  refine orderly_bind (orderly_connectChecked hc) fun _ => orderly_bind (orderly_probePlatform trivial) fun _ => ?_
  refine orderly_bind (quiet_ensureHostBootstrapped c _) fun _ => orderly_bind (quiet_stageDeployment c o arts) fun _ => ?_
  exact quiet_installDeployment hc o

end OpsLemmas

end OmtClient.Deploy
