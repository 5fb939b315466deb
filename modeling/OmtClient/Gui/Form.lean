import OmtClient.Deploy.Calm

/-!
# The deployer's form

`crates/rpi-omt-deploy-gui/src/app.rs`: the values that an operator can edit, what is
checked before a job starts (`App::precheck`) and the request that the job runs with
(`App::request`). The jobs validate what they are given once more, with rules that the
form does not have.

1. `prechecked_job_iff`: when a job that the form lets start breaks no rule of its own.
-/

namespace OmtClient.Gui

open OmtClient.Lib OmtClient.Common OmtClient.Deploy Prog

inductive Field
  | host
  | user
  | password
  | sudoPassword
  | knownHosts
  | bootDirectory
  | wifiCountry
  | hostname
  | osRootPassword
  | osRootConfirm
  | osPiPassword
  | osPiConfirm
  | remoteDirectory
  | webPassword
  | webConfirm
  | manageHostname
  | manageWebPassword
  | manageWebConfirm
  | wifiSsid
  | wifiPassword
  deriving DecidableEq, Repr

/-- The values of `App` that a job is made from. -/
structure Form where
  field : Field → String
  rotateWebPassword : Bool
  wifiConnect : Bool
  wifiPreserve : Bool

namespace Form

variable (f : Form)

def trimmed (field : Field) : String := trim (f.field field)

/-- `build_connection`. -/
def buildConnection (fs : Files) : Except Problem Connection :=
  connectionFromFields fs
    ⟨f.field .host, f.field .user, f.field .password, f.field .sudoPassword, f.field .knownHosts,
      f.field .osRootPassword⟩

/-- The rule that a password of the host breaks. -/
def osPasswordProblem (field : Field) : Option Problem :=
  match Secret.new (f.field field) with
  | .error problem => some problem
  | .ok s => validateOsPassword s

/-- `precheck`: what is said when a job may not start. -/
def precheck (fs : Files) : JobKind → Option String
  | .prepareSd =>
    match Secret.new (f.field .wifiPassword) with
    | .error problem => some problem.text
    | .ok password =>
      (validateSdSettings fs ⟨f.trimmed .bootDirectory, f.trimmed .wifiCountry, f.trimmed .wifiSsid, password⟩).map
        Problem.text
  | .alpine =>
    if validApplianceHostname (f.trimmed .hostname) = false then
      some "Appliance hostname must be one DNS label of 1-63 characters"
    else if f.field .osRootPassword ≠ f.field .osRootConfirm then some "Root password confirmation does not match"
    else if f.field .osPiPassword ≠ f.field .osPiConfirm then some "pi password confirmation does not match"
    else if (f.osPasswordProblem .osRootPassword).isSome then (f.osPasswordProblem .osRootPassword).map Problem.text
    else if (f.osPasswordProblem .osPiPassword).isSome then (f.osPasswordProblem .osPiPassword).map Problem.text
    else if f.trimmed .wifiSsid ≠ "" ∧ f.field .wifiPassword = "" then some "A Wi-Fi SSID needs a Wi-Fi password"
    else none
  | .deploy =>
    if validRemoteDirectory (f.trimmed .remoteDirectory) = false then
      some "Remote directory must be a normalized absolute path, such as /opt/omt-client"
    else if f.rotateWebPassword = true ∧ f.field .webPassword ≠ f.field .webConfirm then
      some "Web GUI password confirmation does not match"
    else none
  | .webPassword =>
    if f.field .manageWebPassword ≠ f.field .manageWebConfirm then some "Web GUI password confirmation does not match"
    else none
  | .hostname =>
    if validApplianceHostname (f.trimmed .manageHostname) = false then
      some "Hostname must be one DNS label of 1-63 characters"
    else none
  | .test | .manage | .wifi => none

/-- The Web password that a job takes: the one of its own view. -/
def webField (job : JobKind) : Field := if job = .webPassword then .manageWebPassword else .webPassword

/-- The connection of a job, which only the preparation of a card does without. -/
def requestConnection (fs : Files) (job : JobKind) : Except Problem (Option Connection) :=
  if job = .prepareSd then .ok none else (f.buildConnection fs).map some

/-- `request`: what a job would run with. -/
def request (fs : Files) (job : JobKind) (action : Action) : Except Problem JobRequest := do
  let connection ← f.requestConnection fs job
  let wifiPassword ← Secret.new (f.field .wifiPassword)
  let osRootPassword ← Secret.new (f.field .osRootPassword)
  let osPiPassword ← Secret.new (f.field .osPiPassword)
  let webPassword ← Secret.new (f.field (webField job))
  .ok
    { job := job
      action := action
      connection := connection
      options := ⟨none, f.trimmed .remoteDirectory, false⟩
      bootDirectory := f.trimmed .bootDirectory
      wifiCountry := f.trimmed .wifiCountry
      wifiSsid := f.trimmed .wifiSsid
      wifiPassword := wifiPassword
      wifiConnect := f.wifiConnect
      wifiPreserveExistingProfiles := f.wifiPreserve
      hostname := f.trimmed .hostname
      manageHostname := f.trimmed .manageHostname
      osRootPassword := osRootPassword
      osPiPassword := osPiPassword
      rotateWebPassword := f.rotateWebPassword
      webPassword := webPassword }

/-! ## What a job needs beyond the prechecks -/

/-- A secret field holds to a rule. -/
def Holds (rule : Secret → Option Problem) (field : Field) : Prop := ∀ s, Secret.new (f.field field) = .ok s → rule s = none

/-- The network of the form, with some other password. -/
def network (password : Secret) : WifiSettings := ⟨f.trimmed .wifiSsid, password, f.wifiConnect, f.wifiPreserve⟩

/-- The rules of a job that no precheck has. -/
def Acceptable : JobKind → Prop
  | .prepareSd => isHexPsk (f.field .wifiPassword) = false
  | .alpine => f.trimmed .wifiSsid ≠ "" → f.Holds (fun s => validateWifi (f.network s)) .wifiPassword
  | .deploy => f.rotateWebPassword = true → f.Holds validateWebPassword .webPassword
  | .webPassword => f.Holds validateWebPassword .manageWebPassword
  | .wifi => f.Holds (fun s => validateWifi (f.network s)) .wifiPassword
  | .test | .manage | .hostname => True

end Form

namespace FormLemmas

open CoreLemmas MachineLemmas OpsLemmas WifiLemmas JobsLemmas CalmLemmas

variable {f : Form} {fs : Files} {job : JobKind} {action : Action} {r : JobRequest}

/-- What a request is made of. -/
structure Made (f : Form) (fs : Files) (job : JobKind) (r : JobRequest) : Prop where
  kind : r.job = job
  connection : f.requestConnection fs job = .ok r.connection
  options : r.options = ⟨none, f.trimmed .remoteDirectory, false⟩
  sd : r.sdSettings = ⟨f.trimmed .bootDirectory, f.trimmed .wifiCountry, f.trimmed .wifiSsid, r.wifiPassword⟩
  network : r.wifiSettings = f.network r.wifiPassword
  hostnames : r.hostname = f.trimmed .hostname ∧ r.manageHostname = f.trimmed .manageHostname
  rotate : r.rotateWebPassword = f.rotateWebPassword
  wifiPassword : Secret.new (f.field .wifiPassword) = .ok r.wifiPassword
  osRootPassword : Secret.new (f.field .osRootPassword) = .ok r.osRootPassword
  osPiPassword : Secret.new (f.field .osPiPassword) = .ok r.osPiPassword
  webPassword : Secret.new (f.field (Form.webField job)) = .ok r.webPassword

theorem made_of_request (h : f.request fs job action = .ok r) : Made f fs job r := by
  obtain ⟨connection, hconnection, h⟩ := bind_eq_ok h
  obtain ⟨wifiPassword, hwifi, h⟩ := bind_eq_ok h
  obtain ⟨osRootPassword, hroot, h⟩ := bind_eq_ok h
  obtain ⟨osPiPassword, hpi, h⟩ := bind_eq_ok h
  obtain ⟨webPassword, hweb, h⟩ := bind_eq_ok h
  cases h
  exact ⟨rfl, hconnection, rfl, rfl, rfl, ⟨rfl, rfl⟩, rfl, hwifi, hroot, hpi, hweb⟩

/-- Every job but the preparation of a card has a connection, which was valid. -/
theorem connected (hmade : Made f fs job r) (hjob : job ≠ .prepareSd) :
    ∃ c, r.connection = some c ∧ validateConnection fs c = none := by
  have hconnection := hmade.connection
  rw [Form.requestConnection, if_neg hjob] at hconnection
  cases hbuild : f.buildConnection fs with
  | error p =>
    rw [hbuild] at hconnection
    cases hconnection
  | ok c =>
    rw [hbuild] at hconnection
    exact ⟨c, (Except.ok.inj hconnection).symm, valid_of_fields hbuild⟩

/-- The secret of a field is the one that a request has. -/
theorem holds_iff {rule : Secret → Option Problem} {field : Field} {s : Secret} (hs : Secret.new (f.field field) = .ok s) :
    f.Holds rule field ↔ rule s = none := by
  refine ⟨fun h => h s hs, fun h s' hs' => ?_⟩
  rw [hs] at hs'
  cases hs'
  exact h

/-- A rule of its own that an operation finds broken makes it no quiet one. -/
theorem fromFiles_of_check {p : Problem} {rest : Unit → Act Unit} (h : Quiet (check (some p) >>= rest)) : FromFiles p :=
  (h .init ⟨fun _ hp => absurd hp List.not_mem_nil, fun _ _ => trivial⟩).1 p rfl

theorem calm_wp {kdf : Pbkdf2} (hkdf : kdf.Total) (files : Nat → Files)
    (h : ∀ site : Site, site.kdf.Total → Quiet (runJob site r)) :
    wp (runJob (calmSite kdf files) r) (fun _ _ => True) (fun e _ => ∀ p, e = .problem p → FromFiles p) .init := by
  refine wp_mono (h (calmSite kdf files) hkdf .init ⟨fun _ hp => absurd hp List.not_mem_nil, fun _ _ => trivial⟩)
    (fun _ _ _ => trivial) fun _ _ he => he.1

/-! ### Each job -/

section

variable (hmade : Made f fs job r)

include hmade

theorem prepareSd_iff (hjob : job = .prepareSd) (hpre : f.precheck fs .prepareSd = none) :
    (∀ site : Site, site.kdf.Total → Quiet (runJob site r)) ↔ isHexPsk (f.field .wifiPassword) = false := by
  have htext := (isSet_of_new hmade.wifiPassword).2
  have hvalid : validateSdSettings fs r.sdSettings = none := by
    rw [Form.precheck, hmade.wifiPassword] at hpre
    rw [hmade.sd]
    exact Option.map_eq_none_iff.mp hpre
  obtain ⟨hwifi, hlater⟩ := sd_of_valid hvalid
  obtain ⟨hssid, hlen, hpass⟩ := validateWifi_eq_none hwifi
  have hrun (site : Site) : runJob site r = prepareSdCard site r.sdSettings := by
    rw [runJob, hmade.kind, hjob]
  rw [← htext]
  constructor
  · intro hquiet
    refine eq_false_of_ne_true fun hhex => ?_
    -- with the partition as it was found and no file on it, the run gets to the key
    let files (t : Nat) : Files := if t = 0 then fs else ⟨fun _ => .missing, fun _ => .missing⟩
    have hmissing : ∀ t, 0 < t → (files t).lstat = fun _ => .missing := by
      intro t ht
      show (if t = 0 then fs else _ : Files).lstat = _
      rw [if_neg (Nat.ne_of_gt ht)]
    have hwp := calm_wp knownKdf_total files hquiet
    rw [hrun] at hwp
    have hrefused := @wpaSupplicantConfig_of_key (calmSite knownKdf files) _ knownKdf_total hwifi hhex
    obtain ⟨_, hbad⟩ := sd_derives (p := .wpaCredentials) hvalid hmissing
      (hrefused _ _) hwp
    exact absurd (hbad _ rfl) (by decide)
  · intro hhex site hkdf
    rw [hrun]
    refine orderly_prepareSdCard hlater fun p hp => ?_
    obtain ⟨psk, hpsk, _⟩ := (deriveWpaPsk_of_total hkdf hssid hlen).1 (hpass hhex)
    rw [wpaSupplicantConfig, show deriveWpaPsk site.kdf r.sdSettings.wifiSsid r.sdSettings.wifiPassword = .ok psk
      from hpsk] at hp
    cases hp

theorem webPassword_iff (hjob : job = .webPassword) :
    (∀ site : Site, site.kdf.Total → Quiet (runJob site r)) ↔ validateWebPassword r.webPassword = none := by
  obtain ⟨c, hc, hvalid⟩ := connected hmade (by rw [hjob]; decide)
  have hrun (site : Site) : runJob site r = rotateWebPassword site r c := by
    rw [runJob, hmade.kind, hjob]
    exact remote_bind hc
  constructor
  · intro hquiet
    cases hrule : validateWebPassword r.webPassword with
    | none => rfl
    | some p =>
      have hfirst := hquiet idleSite knownKdf_total
      rw [hrun, rotateWebPassword, hrule] at hfirst
      exact absurd (fromFiles_of_check hfirst) (validateWebPassword_rule hrule)
  · intro hrule site _
    rw [hrun, rotateWebPassword, hrule]
    exact orderly_bind (orderly_pure ()) fun _ => quiet_changeWebPassword (ruled_of_valid hvalid) hrule

theorem wifi_iff (hjob : job = .wifi) :
    (∀ site : Site, site.kdf.Total → Quiet (runJob site r)) ↔ validateWifi r.wifiSettings = none := by
  obtain ⟨c, hc, hvalid⟩ := connected hmade (by rw [hjob]; decide)
  have hrun (site : Site) : runJob site r = (do check (validateWifi r.wifiSettings); applyWifi site c r.wifiSettings) := by
    rw [runJob, hmade.kind, hjob]
    dsimp only
    rw [remote_bind hc]
  constructor
  · intro hquiet
    cases hrule : validateWifi r.wifiSettings with
    | none => rfl
    | some p =>
      have hfirst := hquiet idleSite knownKdf_total
      rw [hrun, hrule] at hfirst
      exact absurd (fromFiles_of_check hfirst) (validateWifi_rule hrule)
  · intro hrule site hkdf
    rw [hrun, hrule]
    obtain ⟨psk, hpsk, _⟩ := wifiPsk_of_valid hkdf hrule
    refine orderly_bind (orderly_pure ()) fun _ => orderly_applyWifi (ruled_of_valid hvalid) ?_ ?_ fun _ _ _ => trivial
    · rw [hrule]
      exact fun _ h => (nomatch h)
    · rw [hpsk]
      exact fun _ h => (nomatch h)

/-- A deployment and what follows it. -/
theorem deploy_run (hjob : job = .deploy) (hpre : f.precheck fs .deploy = none) :
    ∃ c, validateConnection fs c = none ∧ (∀ fs', validateOptions fs' r.options = none) ∧
      ∀ site, runJob site r = (do
        deploy site c r.options
        if r.rotateWebPassword then rotateWebPassword site r c else pure ()) := by
  obtain ⟨c, hc, hvalid⟩ := connected hmade (by rw [hjob]; decide)
  have hdirectory : validRemoteDirectory (f.trimmed .remoteDirectory) = true := by
    rw [Form.precheck] at hpre
    split at hpre
    · cases hpre
    · next h => exact Bool.not_eq_false _ ▸ h
  refine ⟨c, hvalid, fun fs' => ?_, fun site => ?_⟩
  · rw [hmade.options, validateOptions, if_neg (by exact Bool.false_ne_true), if_neg (by exact fun h => nomatch h.2),
      if_neg (by rw [hdirectory]; exact fun h => nomatch h)]
  · rw [runJob, hmade.kind, hjob]
    exact remote_bind hc

/-- Where all goes well, a deployment gets to its end before the password is looked at. -/
theorem deploy_refused (hjob : job = .deploy) (hpre : f.precheck fs .deploy = none)
    (hrotate : r.rotateWebPassword = true) {p : Problem} (hrule : validateWebPassword r.webPassword = some p) :
    wp (runJob (calmSite knownKdf fun _ => fs) r) (fun _ _ => False) (fun e _ => e = .problem p) .init := by
  obtain ⟨c, hvalid, hoptions, hrun⟩ := deploy_run hmade hjob hpre
  rw [hrun]
  refine wp_seq (wp_mono (gives_deploy (fun _ => hvalid) (fun _ => hoptions fs) (by rw [hmade.options])
    (by rw [hmade.options])) (fun _ _ h => h) fun _ _ h => h.elim) fun _ s _ => ?_
  rw [if_pos hrotate, rotateWebPassword, hrule]
  rfl

theorem deploy_iff (hjob : job = .deploy) (hpre : f.precheck fs .deploy = none) :
    (∀ site : Site, site.kdf.Total → Quiet (runJob site r)) ↔
      (r.rotateWebPassword = true → validateWebPassword r.webPassword = none) := by
  constructor
  · intro hquiet hrotate
    cases hrule : validateWebPassword r.webPassword with
    | none => rfl
    | some p =>
      have hwp := wp_and (calm_wp knownKdf_total (fun _ => fs) hquiet) (deploy_refused hmade hjob hpre hrotate hrule)
      have hfound : wp (runJob (calmSite knownKdf fun _ => fs) r) (fun _ _ => False) (fun _ _ => FromFiles p) .init :=
        wp_mono hwp (fun _ _ h => h.2) fun _ _ h => h.1 p h.2
      exact absurd (stops_of_wp hfound) (validateWebPassword_rule hrule)
  · intro hrule site _
    obtain ⟨c, hvalid, hoptions, hrun⟩ := deploy_run hmade hjob hpre
    have hruled := ruled_of_valid hvalid
    rw [hrun]
    refine orderly_bind (quiet_deploy hruled fun fs' p hp => ?_) fun _ => ?_
    · rw [hoptions] at hp
      cases hp
    · split
      · next hrotate =>
        rw [rotateWebPassword, hrule hrotate]
        exact orderly_bind (orderly_pure ()) fun _ => quiet_changeWebPassword hruled (hrule hrotate)
      · exact orderly_pure ()

theorem hostname_quiet (hjob : job = .hostname) (hpre : f.precheck fs .hostname = none) (site : Site) :
    Quiet (runJob site r) := by
  obtain ⟨c, hc, hvalid⟩ := connected hmade (by rw [hjob]; decide)
  have hname : validApplianceHostname r.manageHostname = true := by
    rw [hmade.hostnames.2]
    rw [Form.precheck] at hpre
    split at hpre
    · cases hpre
    · next h => exact Bool.not_eq_false _ ▸ h
  rw [runJob, hmade.kind, hjob]
  dsimp only
  rw [remote_bind hc]
  exact quiet_setHostname (ruled_of_valid hvalid) hname _

/-- What the prechecks of a setup leave open is its network. -/
theorem alpine_validated (hpre : f.precheck fs .alpine = none) :
    validateAlpineSetup r.alpineSettings = r.alpineSettings.wifi.bind validateWifi := by
  rw [Form.precheck] at hpre
  split at hpre
  · cases hpre
  next hname =>
  split at hpre
  · cases hpre
  split at hpre
  · cases hpre
  split at hpre
  · next hsome =>
    rw [Option.map_eq_none_iff] at hpre
    rw [hpre] at hsome
    cases hsome
  next hroot =>
  split at hpre
  · next hsome =>
    rw [Option.map_eq_none_iff] at hpre
    rw [hpre] at hsome
    cases hsome
  next hpi =>
  rw [Form.osPasswordProblem, hmade.osRootPassword, Option.not_isSome_iff_eq_none] at hroot
  rw [Form.osPasswordProblem, hmade.osPiPassword, Option.not_isSome_iff_eq_none] at hpi
  rw [validateAlpineSetup, if_neg (by rw [JobRequest.alpineSettings, hmade.hostnames.1]; exact hname)]
  show (validateOsPassword r.osRootPassword).or ((validateOsPassword r.osPiPassword).or _) = _
  rw [show validateOsPassword r.osRootPassword = none from hroot, show validateOsPassword r.osPiPassword = none from hpi]
  rfl

theorem alpine_iff (hjob : job = .alpine) (hpre : f.precheck fs .alpine = none) :
    (∀ site : Site, site.kdf.Total → Quiet (runJob site r)) ↔
      (f.trimmed .wifiSsid ≠ "" → validateWifi (f.network r.wifiPassword) = none) := by
  obtain ⟨c, hc, hvalid⟩ := connected hmade (by rw [hjob]; decide)
  have hsettings := alpine_validated hmade hpre
  have hssid : r.wifiSsid = f.trimmed .wifiSsid := congrArg SdSettings.wifiSsid hmade.sd
  have hrun (site : Site) : runJob site r = alpineSetup site c r.alpineSettings r.options.projectRoot := by
    rw [runJob, hmade.kind, hjob]
    exact remote_bind hc
  -- the settings have the network of the form, when it has a name
  have hnetwork : f.trimmed .wifiSsid ≠ "" →
      r.alpineSettings.wifi = some ⟨f.trimmed .wifiSsid, r.wifiPassword, false, true⟩ := by
    intro hname
    rw [JobRequest.alpineSettings]
    dsimp only
    rw [hssid, if_neg hname]
  have hnone : f.trimmed .wifiSsid = "" → r.alpineSettings.wifi = none := by
    intro hname
    rw [JobRequest.alpineSettings]
    dsimp only
    rw [hssid, if_pos hname]
  constructor
  · intro hquiet hname
    cases hrule : validateWifi (f.network r.wifiPassword) with
    | none => rfl
    | some p =>
      have hbroken : (validateConnection fs c).or (validateAlpineSetup r.alpineSettings) = some p := by
        rw [hvalid, hsettings, hnetwork hname]
        exact hrule
      have hwp := calm_wp knownKdf_total (fun _ => fs) hquiet
      rw [hrun, alpineSetup] at hwp
      obtain ⟨_, s, ⟨rfl, _⟩, hrest⟩ := wp_bind_elim hwp
        (gives_ask (P := (· = fs)) Outside.files (fun _ => rfl) .init)
      rw [hbroken] at hrest
      exact absurd (hrest p rfl) (validateWifi_rule hrule)
  · intro hrule site hkdf
    have hfine : r.alpineSettings.wifi.bind validateWifi = none ∧ ∃ wifi, setupWifi site r.alpineSettings.wifi = .ok wifi := by
      by_cases hname : f.trimmed .wifiSsid = ""
      · rw [hnone hname]
        exact ⟨rfl, _, rfl⟩
      · have hwifi : validateWifi ⟨f.trimmed .wifiSsid, r.wifiPassword, false, true⟩ = none := hrule hname
        obtain ⟨psk, hpsk, _⟩ := wifiPsk_of_valid hkdf hwifi
        rw [hnetwork hname, setupWifi, hpsk]
        exact ⟨hwifi, _, rfl⟩
    obtain ⟨hwifi, wifi, hsetup⟩ := hfine
    rw [hrun]
    refine orderly_alpineSetup (ruled_of_valid hvalid) ?_ ?_
      (ruled_passwordConnection hvalid (by decide) (isSet_of_new hmade.osPiPassword).1 _)
      (ruled_passwordConnection hvalid (by decide) (isSet_of_new hmade.osRootPassword).1 _) trivial trivial trivial
      (fun _ _ _ => trivial) _
    · rw [hsettings, hwifi]
      exact fun _ h => by cases h
    · rw [hsetup]
      exact fun _ h => by cases h

end

end FormLemmas

open FormLemmas

/-- For every form and every job that its prechecks let start, the job breaks no rule of its
own in any run, whatever the host, the network and the file system do, exactly when the
form keeps the rules of that job which the prechecks do not have. -/
theorem prechecked_job_iff (f : Form) (fs : Files) (job : JobKind) (action : Action) (r : JobRequest)
    (hpre : f.precheck fs job = none) (hreq : f.request fs job action = .ok r) :
    (∀ site : Site, site.kdf.Total → Quiet (runJob site r)) ↔ f.Acceptable job := by
  have hmade := made_of_request hreq
  cases job with
  | prepareSd => exact prepareSd_iff hmade rfl hpre
  | test =>
    obtain ⟨c, hc, hvalid⟩ := connected hmade (by decide)
    refine ⟨fun _ => trivial, fun _ site _ => ?_⟩
    rw [runJob, hmade.kind]
    dsimp only
    rw [JobsLemmas.remote_bind hc]
    exact OpsLemmas.quiet_testConnection (JobsLemmas.ruled_of_valid hvalid)
  | alpine =>
    have hholds := @holds_iff f (fun s => validateWifi (f.network s)) _ _ hmade.wifiPassword
    exact (alpine_iff hmade rfl hpre).trans (imp_congr_right fun _ => hholds.symm)
  | deploy =>
    rw [deploy_iff hmade rfl hpre, hmade.rotate]
    exact imp_congr_right fun _ => (holds_iff hmade.webPassword).symm
  | manage =>
    obtain ⟨c, hc, hvalid⟩ := connected hmade (by decide)
    refine ⟨fun _ => trivial, fun _ site _ => ?_⟩
    rw [runJob, hmade.kind]
    dsimp only
    rw [JobsLemmas.remote_bind hc]
    exact OpsLemmas.quiet_manage (JobsLemmas.ruled_of_valid hvalid) _
  | webPassword => exact (webPassword_iff hmade rfl).trans (holds_iff hmade.webPassword).symm
  | hostname => exact ⟨fun _ => trivial, fun _ site _ => hostname_quiet hmade rfl hpre site⟩
  | wifi =>
    rw [wifi_iff hmade rfl, hmade.network]
    exact (@holds_iff f (fun s => validateWifi (f.network s)) _ _ hmade.wifiPassword).symm

/-- A form as it is at first, with another Web password. -/
def shortForm (rotate : Bool) (webPassword : String) : Form where
  field
    | .host => "raspberrypi.local"
    | .user => "root"
    | .wifiCountry => "US"
    | .hostname => "omt-client"
    | .remoteDirectory => "/opt/omt-client"
    | .webPassword => webPassword
    | .webConfirm => webPassword
    | _ => ""
  rotateWebPassword := rotate
  wifiConnect := true
  wifiPreserve := true

def noFiles : Files := ⟨fun _ => .missing, fun _ => .missing⟩

/-- A deployment that sets a Web password. -/
theorem rotating_deployment_quiet :
    ∃ r, (shortForm true "correct horse").request noFiles .deploy .status = .ok r ∧
      ∀ site : Site, site.kdf.Total → Quiet (runJob site r) := by
  have hpre : (shortForm true "correct horse").precheck noFiles .deploy = none := by decide +kernel
  have hok : ((shortForm true "correct horse").request noFiles .deploy .status).isOk = true := by decide +kernel
  cases hreq : (shortForm true "correct horse").request noFiles .deploy .status with
  | error p =>
    rw [hreq] at hok
    cases hok
  | ok r =>
    refine ⟨r, rfl, (prechecked_job_iff _ _ _ _ r hpre hreq).mpr fun _ s hs => ?_⟩
    have hrule : ((Secret.new "correct horse").toOption.bind validateWebPassword) = none := by decide +kernel
    rw [show Secret.new "correct horse" = .ok s from hs] at hrule
    exact hrule

/-- The form lets a deployment start whose Web password is too short; the deployment is made,
and only then the password is refused. -/
theorem short_web_password_refused_late :
    (shortForm true "short").precheck noFiles .deploy = none ∧
    ∃ r, (shortForm true "short").request noFiles .deploy .status = .ok r ∧
      wp (runJob (calmSite knownKdf fun _ => noFiles) r) (fun _ _ => False)
        (fun e _ => e = .problem .webPasswordLength) .init ∧
      ¬ ∀ site : Site, site.kdf.Total → Quiet (runJob site r) := by
  have hpre : (shortForm true "short").precheck noFiles .deploy = none := by decide +kernel
  have hok : ((shortForm true "short").request noFiles .deploy .status).isOk = true := by decide +kernel
  refine ⟨hpre, ?_⟩
  cases hreq : (shortForm true "short").request noFiles .deploy .status with
  | error p =>
    rw [hreq] at hok
    cases hok
  | ok r =>
    have hmade := made_of_request hreq
    have hpassword : validateWebPassword r.webPassword = some .webPasswordLength := by
      have hlen : r.webPassword.len = 5 := by
        rw [Secret.len, (JobsLemmas.isSet_of_new hmade.webPassword).2]
        decide +kernel
      rw [validateWebPassword, validatePassword, hlen]
      rfl
    refine ⟨r, rfl, deploy_refused hmade rfl hpre hmade.rotate hpassword, fun hquiet => ?_⟩
    have hnone := (deploy_iff hmade rfl hpre).mp hquiet hmade.rotate
    rw [hpassword] at hnone
    cases hnone

end OmtClient.Gui
