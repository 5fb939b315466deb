import OmtClient.Deploy.Wifi

/-!
# Jobs

`crates/omt-deploy/src/jobs.rs`: what a frontend asks for. A request is captured when its
job starts; `run_job` builds the settings of the operation from it and runs the operation.

1. `ruled_of_valid`: a connection that was valid once breaks only rules about the file
   system later.
-/

namespace OmtClient.Deploy

open OmtClient.Lib OmtClient.Common Prog

inductive JobKind
  | prepareSd
  | test
  | alpine
  | deploy
  | manage
  | webPassword
  | hostname
  | wifi
  deriving DecidableEq, Repr

structure JobRequest where
  job : JobKind
  /-- For `manage`. -/
  action : Action
  connection : Option Connection
  options : DeployOptions
  bootDirectory : String
  wifiCountry : String
  wifiSsid : String
  wifiPassword : Secret
  wifiConnect : Bool
  wifiPreserveExistingProfiles : Bool
  hostname : String
  manageHostname : String
  osRootPassword : Secret
  osPiPassword : Secret
  rotateWebPassword : Bool
  webPassword : Secret

structure ConnectionFields where
  host : String
  username : String
  password : String
  sudoPassword : String
  knownHosts : String
  bootstrapRootPassword : String

/-- A secret that is absent when its field is empty. -/
def optionalSecret (text : String) : Except Problem Secret := if text = "" then .ok .absent else Secret.new text

/-- A connection, or the rule that it breaks. -/
def validated (fs : Files) (c : Connection) : Except Problem Connection :=
  match validateConnection fs c with
  | some problem => .error problem
  | none => .ok c

/-- `connection_from_fields`. -/
def connectionFromFields (fs : Files) (f : ConnectionFields) : Except Problem Connection := do
  let known := trim f.knownHosts
  let password ← Secret.new f.password
  let sudoPassword ← optionalSecret f.sudoPassword
  let bootstrapRootPassword ← optionalSecret f.bootstrapRootPassword
  let c : Connection := { Connection.new with
    host := trim f.host
    username := trim f.username
    knownHostsPath := if known = "" then none else some known
    password := password
    sudoPassword := sudoPassword
    bootstrapRootPassword := bootstrapRootPassword }
  validated fs c

namespace JobRequest

variable (r : JobRequest)

def sdSettings : SdSettings := ⟨r.bootDirectory, r.wifiCountry, r.wifiSsid, r.wifiPassword⟩

def alpineSettings : AlpineSettings :=
  ⟨r.hostname, if r.wifiSsid = "" then none else some ⟨r.wifiSsid, r.wifiPassword, false, true⟩, r.osRootPassword,
    r.osPiPassword⟩

def wifiSettings : WifiSettings := ⟨r.wifiSsid, r.wifiPassword, r.wifiConnect, r.wifiPreserveExistingProfiles⟩

end JobRequest

section

variable (site : Site) (r : JobRequest)

/-- The connection of a request, which every job but one needs. -/
def remote : Act Connection :=
  match r.connection with
  | some c => pure c
  | none => do
    check (some .noConnection)
    raise (.problem .noConnection)

def rotateWebPassword (c : Connection) : Act Unit := do
  check (validateWebPassword r.webPassword)
  changeWebPassword site c r.webPassword

def runJob : Act Unit :=
  match r.job with
  | .prepareSd => prepareSdCard site r.sdSettings
  | .test => do
    let c ← remote r
    testConnection site c
  | .alpine => do
    let c ← remote r
    alpineSetup site c r.alpineSettings r.options.projectRoot
  | .deploy => do
    let c ← remote r
    deploy site c r.options
    if r.rotateWebPassword then rotateWebPassword site r c else pure ()
  | .manage => do
    let c ← remote r
    manage site c r.action
  | .webPassword => do
    let c ← remote r
    rotateWebPassword site r c
  | .hostname => do
    let c ← remote r
    setHostname site c r.manageHostname r.options.projectRoot
  | .wifi => do
    check (validateWifi r.wifiSettings)
    let c ← remote r
    applyWifi site c r.wifiSettings

end

namespace JobsLemmas

open MachineLemmas

/-- A connection that was valid once breaks only rules about the file system later. -/
theorem ruled_of_valid {fs : Files} {c : Connection} (h : validateConnection fs c = none) : Ruled FromFiles c := by
  intro fs' p hp
  unfold validateConnection at h hp
  split at h
  · cases h
  next hhost =>
  rw [if_neg hhost] at hp
  split at h
  · cases h
  next husername =>
  rw [if_neg husername] at hp
  split at h
  · cases h
  next hport =>
  rw [if_neg hport] at hp
  split at hp
  · cases hp
    rfl
  split at h
  · cases h
  split at h
  · cases h
  next hpassword =>
  rw [if_neg hpassword] at hp
  split at hp
  · cases hp
    rfl
  · cases hp

/-- The account of a password on the same host. -/
theorem ruled_passwordConnection {c : Connection} {fs : Files} (h : validateConnection fs c = none) {username : String}
    (husername : validUsername username = true) {password : Secret} (hset : password.isSet = true)
    (escalation : Option Secret) : Ruled FromFiles (passwordConnection c username password escalation) := by
  intro fs' p hp
  unfold validateConnection at h hp
  split at h
  · cases h
  next hhost =>
  rw [if_neg (by exact hhost)] at hp
  rw [if_neg (by rw [passwordConnection]; exact fun hno => Bool.noConfusion (husername.symm.trans hno))] at hp
  split at h
  · cases h
  split at h
  · cases h
  next hport =>
  rw [if_neg (by exact hport)] at hp
  split at hp
  · cases hp
    rfl
  rw [if_neg (by rw [passwordConnection]; exact fun hno => Bool.noConfusion (hset.symm.trans hno.2))] at hp
  rw [if_neg (by rw [passwordConnection]; exact fun hno => nomatch hno.1)] at hp
  cases hp

/-- What is in the file system is all that a valid card can break later. -/
theorem sd_of_valid {fs : Files} {s : SdSettings} (h : validateSdSettings fs s = none) :
    validateWifi s.wifi = none ∧ ∀ fs' p, validateSdSettings fs' s = some p → FromFiles p := by
  unfold validateSdSettings at h
  split at h
  · cases h
  next hcountry =>
  obtain ⟨hwifi, hboot⟩ := Option.or_eq_none_iff.mp h
  refine ⟨hwifi, fun fs' p hp => ?_⟩
  unfold validateSdSettings at hp
  rw [if_neg hcountry, hwifi, Option.none_or] at hp
  unfold bootPartitionProblem at hp
  split at hp
  · cases hp
    rfl
  · cases hp
    rfl
  · split at hp
    · cases hp
      rfl
    · dsimp only at hp
      split at hp
      · cases hp
        rfl
      · split at hp
        · cases hp
          rfl
        · cases hp
  · cases hp
    rfl

theorem isSet_of_new {text : String} {s : Secret} (h : Secret.new text = .ok s) : s.isSet = true ∧ s.text = text := by
  unfold Secret.new at h
  split at h
  · cases h
  · cases h
    exact ⟨rfl, rfl⟩

theorem bind_eq_ok {ε α β : Type} {x : Except ε α} {f : α → Except ε β} {b : β} (h : x >>= f = .ok b) :
    ∃ a, x = .ok a ∧ f a = .ok b := by
  cases x with
  | error e => cases h
  | ok a => exact ⟨a, rfl, h⟩

theorem valid_of_validated {fs : Files} {c c' : Connection} (h : validated fs c = .ok c') :
    validateConnection fs c' = none := by
  unfold validated at h
  split at h
  · cases h
  · next hvalid =>
    cases h
    exact hvalid

/-- The fields make a connection that was valid. -/
theorem valid_of_fields {fs : Files} {f : ConnectionFields} {c : Connection} (h : connectionFromFields fs f = .ok c) :
    validateConnection fs c = none := by
  obtain ⟨password, _, h⟩ := bind_eq_ok h
  obtain ⟨sudoPassword, _, h⟩ := bind_eq_ok h
  obtain ⟨rootPassword, _, h⟩ := bind_eq_ok h
  exact valid_of_validated h

theorem remote_bind {r : JobRequest} {c : Connection} (h : r.connection = some c) {f : Connection → Act Unit} :
    remote r >>= f = f c := by
  rw [remote, h]
  rfl

/-- No rule about a network or a Web password is about the file system. -/
theorem validateWifi_rule {w : WifiSettings} {p : Problem} (h : validateWifi w = some p) : ¬ FromFiles p := by
  unfold validateWifi at h
  split at h
  · cases h
    decide
  · dsimp only at h
    split at h
    · cases h
      decide
    · cases h

theorem validateWebPassword_rule {s : Secret} {p : Problem} (h : validateWebPassword s = some p) : ¬ FromFiles p := by
  unfold validateWebPassword validatePassword at h
  split at h
  · cases h
    decide
  · split at h
    · cases h
      decide
    · cases h

end JobsLemmas

end OmtClient.Deploy
