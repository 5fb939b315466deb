import OmtClient.Common.Buf
import OmtClient.Lib.Text
import OmtClient.Omt.Target
import OmtClient.Receiver.Status

/-!
# Secrets, settings and their validation

`crates/omt-deploy/src/core.rs`: what an operator can set for a deployment and the rules
that it is held to. A rule that a value breaks gives a `Problem`, which has the text that
the operator sees. What is in the file system comes in as `Files`, and PBKDF2 as `Pbkdf2`.

1. `Secret`: a credential is at most 4096 bytes long and has no control characters.
2. `new_of_digits`: hexadecimal digits make a secret.
3. `deriveWpaPsk_of_total`: when a key can be derived from a passphrase, and what it is.
-/

namespace OmtClient.Deploy

open OmtClient.Lib OmtClient.Common
open OmtClient.Omt (isAlphanumeric)

def maxSecretBytes : Nat := 4096
def maxManifestMemberBytes : Nat := 240
def minWebPasswordBytes : Nat := 12
def maxWebPasswordBytes : Nat := 128
def minOsPasswordBytes : Nat := 8
def maxOsPasswordBytes : Nat := 128

/-- `str::len`. -/
def len (text : String) : Nat := (utf8 text).length

/-- `str::trim`. -/
def trim (text : String) : String := String.ofList (Receiver.trim text.toList)

/-! ## Problems -/

/-- The rules, by what they find. -/
inductive Problem
  | secret
  | host
  | username
  | port
  | knownHosts
  | sshPassword
  | sshKey
  | projectRoot
  | rebuild
  | remoteDirectory
  | ssid
  | wifiPassword
  | osPasswordLength
  | osPasswordControl
  | hostname
  | webPasswordLength
  | webPasswordControl
  | wpaCredentials
  | wpaDerivation
  | country
  | notFound
  | bootDirectory
  | notAlpineBoot
  | notAlpinePi
  | newHostname
  | noConnection
  deriving DecidableEq, Repr

def Problem.text : Problem → String
  | .secret => "Authentication secret is invalid or exceeds 4096 bytes."
  | .host => "Pi host must be a valid IPv4 address or DNS host name."
  | .username => "SSH username contains invalid characters."
  | .port => "SSH port must be between 1 and 65535."
  | .knownHosts => "OpenSSH known_hosts file does not exist."
  | .sshPassword => "SSH password is required for password authentication."
  | .sshKey => "SSH private-key file does not exist."
  | .projectRoot => "Project root does not exist."
  | .rebuild => "Rebuilding the appliance image needs a project root to build it from."
  | .remoteDirectory => "Remote install directory is not a normalized safe absolute path."
  | .ssid => "Wi-Fi SSID must contain 1-32 UTF-8 bytes and no control characters."
  | .wifiPassword => "Wi-Fi password must be 8-63 printable ASCII characters or a 64-digit hex PSK."
  | .osPasswordLength => "Host password must contain 8-128 UTF-8 bytes."
  | .osPasswordControl => "Host password must not contain control characters."
  | .hostname => "Hostname must be a single DNS label of 1-63 letters, digits, or hyphens."
  | .webPasswordLength => "Web GUI password must contain 12-128 UTF-8 bytes."
  | .webPasswordControl => "Web GUI password must not contain control characters."
  | .wpaCredentials => "Invalid WPA credentials."
  | .wpaDerivation => "WPA derivation failed."
  | .country => "Wi-Fi country must be two uppercase ASCII letters."
  | .notFound => "No such file or directory (os error 2)"
  | .bootDirectory => "Boot partition path must be a real directory."
  | .notAlpineBoot => "The selected directory is not an Alpine boot partition."
  | .notAlpinePi => "The selected directory is not an Alpine Raspberry Pi boot partition."
  | .newHostname => "Hostname must be 1-63 characters: letters, digits, and inner hyphens."
  | .noConnection => "no connection was prepared for this operation"

/-- The rules about what is in the file system. -/
def Problem.ofFiles : Problem → Bool
  | .knownHosts | .sshKey | .projectRoot | .notFound | .bootDirectory | .notAlpineBoot | .notAlpinePi => true
  | _ => false

/-! ## The file system -/

inductive PathKind
  | missing
  | file
  | dir
  | link
  | other
  | error
  deriving DecidableEq, Repr

/-- What paths lead to, following links and not. -/
structure Files where
  stat : String → PathKind
  lstat : String → PathKind

def Files.isFile (fs : Files) (path : String) : Bool := fs.stat path == .file

def Files.isDir (fs : Files) (path : String) : Bool := fs.stat path == .dir

/-- `path_join`, where `/` separates. -/
def pathJoin (dir name : String) : String :=
  if dir = "" ∨ (utf8 dir).getLast? = some 47 then dir ++ name else dir ++ "/" ++ name

/-! ## Secrets -/

def hasControl (text : String) : Bool := text.toList.any Receiver.isControl

/-- A credential. One that is absent is not the same as an empty one. -/
structure Secret where
  value : Option String
  sound : ∀ text, value = some text → len text ≤ maxSecretBytes ∧ hasControl text = false

def Secret.new (text : String) : Except Problem Secret :=
  if h : maxSecretBytes < len text ∨ hasControl text = true then .error .secret
  else .ok ⟨some text, fun t ht => by
    cases ht
    exact ⟨Nat.not_lt.mp fun hlt => h (.inl hlt), eq_false_of_ne_true fun hc => h (.inr hc)⟩⟩

def Secret.absent : Secret := ⟨none, fun _ h => (nomatch h)⟩

namespace Secret

variable (s : Secret)

def isSet : Bool := s.value.isSome

def text : String := s.value.getD ""

def len : Nat := Deploy.len s.text

def nonempty : Bool := s.text != ""

end Secret

/-! ## Settings -/

inductive Auth
  | password
  | key
  deriving DecidableEq, Repr

structure Connection where
  host : String
  username : String
  port : UInt16
  auth : Auth
  password : Secret
  keyPath : Option String
  keyPassphrase : Secret
  /-- None for `~/.ssh/known_hosts`. -/
  knownHostsPath : Option String
  sudoPassword : Secret
  /-- The password of root, only for a first deployment to an untouched Alpine. -/
  bootstrapRootPassword : Secret

/-- `Connection::new`. -/
def Connection.new : Connection := ⟨"", "", 22, .password, .absent, none, .absent, none, .absent, .absent⟩

structure DeployOptions where
  /-- None for the capsule that is part of the deployer. -/
  projectRoot : Option String
  remoteDirectory : String
  rebuildImage : Bool

structure WifiSettings where
  ssid : String
  password : Secret
  connect : Bool
  preserveExistingProfiles : Bool

structure AlpineSettings where
  hostname : String
  wifi : Option WifiSettings
  rootPassword : Secret
  piPassword : Secret

structure SdSettings where
  bootDirectory : String
  country : String
  wifiSsid : String
  wifiPassword : Secret

/-! ## Rules -/

def asciiToken (value extra : Bytes) : Bool := value != [] && value.all fun b => isAlphanumeric b || extra.contains b

def validHost (value : String) : Bool :=
  let v := utf8 value
  v != [] && v.length ≤ 253 && (v.splitOn 46).all fun label =>
    label != [] && label.length ≤ 63 && label.head? != some 45 && label.getLast? != some 45 && asciiToken label [45]

def validUsername (value : String) : Bool := len value ≤ 64 && asciiToken (utf8 value) (utf8 "._-")

def validApplianceHostname (value : String) : Bool :=
  let v := utf8 value
  1 ≤ v.length && v.length ≤ 63 && v.head? != some 45 && v.getLast? != some 45 && asciiToken v [45]

def validManifestName (v : Bytes) : Bool :=
  if v = [] ∨ maxManifestMemberBytes < v.length ∨ v.head? = some 47 ∨ v.getLast? = some 47 ∨
      (findSub [47, 47] v).isSome ∨ (v.all fun b => isAlphanumeric b || (utf8 ".-_/").contains b) = false then
    false
  else (v.splitOn 47).all fun part => part != [] && part != [46] && part != [46, 46]

def validRemoteDirectory (value : String) : Bool :=
  let v := utf8 value
  2 ≤ v.length && v.length ≤ maxManifestMemberBytes && v.head? == some 47 && v.getLast? != some 47 &&
    validManifestName (v.drop 1)

def validateConnection (fs : Files) (c : Connection) : Option Problem :=
  if validHost c.host = false then some .host
  else if validUsername c.username = false then some .username
  else if c.port = 0 then some .port
  else if c.knownHostsPath.any fun p => !fs.isFile p then some .knownHosts
  else if c.auth = .password ∧ c.password.isSet = false then some .sshPassword
  else if c.auth = .key ∧ (c.keyPath.any fs.isFile) = false then some .sshKey
  else none

def validateOptions (fs : Files) (o : DeployOptions) : Option Problem :=
  if o.projectRoot.any fun p => !fs.isDir p then some .projectRoot
  else if o.projectRoot = none ∧ o.rebuildImage = true then some .rebuild
  else if validRemoteDirectory o.remoteDirectory = false then some .remoteDirectory
  else none

/-- `is_ascii_hexdigit`. -/
def isHexDigit (b : Byte) : Bool := (48 ≤ b && b ≤ 57) || (65 ≤ b && b ≤ 70) || (97 ≤ b && b ≤ 102)

def isHexPsk (text : String) : Bool := len text == 64 && (utf8 text).all isHexDigit

def validateWifi (w : WifiSettings) : Option Problem :=
  if w.ssid = "" ∨ 32 < len w.ssid ∨ hasControl w.ssid = true then some .ssid
  else
    let password := utf8 w.password.text
    let printable := 8 ≤ password.length && password.length ≤ 63 && password.all fun b => 0x20 ≤ b && b ≤ 0x7e
    if isHexPsk w.password.text = false ∧ printable = false then some .wifiPassword else none

/-- The length of a password and what is in it. -/
def validatePassword (low high : Nat) (length control : Problem) (s : Secret) : Option Problem :=
  if ¬ (low ≤ s.len ∧ s.len ≤ high) then some length
  else if hasControl s.text = true then some control
  else none

def validateOsPassword : Secret → Option Problem :=
  validatePassword minOsPasswordBytes maxOsPasswordBytes .osPasswordLength .osPasswordControl

def validateAlpineSetup (a : AlpineSettings) : Option Problem :=
  if validApplianceHostname a.hostname = false then some .hostname
  else (validateOsPassword a.rootPassword).or ((validateOsPassword a.piPassword).or (a.wifi.bind validateWifi))

def validateWebPassword : Secret → Option Problem :=
  validatePassword minWebPasswordBytes maxWebPasswordBytes .webPasswordLength .webPasswordControl

/-! ## Keys -/

/-- PBKDF2 with SHA-1: the derived bytes for a password, a salt, a number of rounds and a
length. -/
structure Pbkdf2 where
  sha1 : Bytes → Bytes → Nat → Nat → Option Bytes
  sized : ∀ {password salt rounds size out}, sha1 password salt rounds size = some out → out.length = size

/-- The derivation never fails. -/
def Pbkdf2.Total (kdf : Pbkdf2) : Prop :=
  ∀ password salt rounds size, (kdf.sha1 password salt rounds size).isSome = true

def deriveWpaPsk (kdf : Pbkdf2) (ssid : String) (passphrase : Secret) : Except Problem Secret :=
  if ssid = "" ∨ 32 < len ssid ∨ ¬ (8 ≤ passphrase.len ∧ passphrase.len ≤ 63) then .error .wpaCredentials
  else
    match kdf.sha1 (utf8 passphrase.text) (utf8 ssid) 4096 32 with
    | none => .error .wpaDerivation
    | some derived => Secret.new (hex derived)

/-- `shell_quote`: in single quotes, for a POSIX shell. -/
def shellQuote (value : String) : String :=
  String.ofList (['\''] ++ value.toList.flatMap (fun c => if c = '\'' then "'\\''".toList else [c]) ++ ['\''])

/-- A key as an access point takes it: 64 lower-case digits. -/
def IsPsk (text : String) : Prop := text.toList.length = 64 ∧ ∀ c ∈ text.toList, c ∈ hexDigits

namespace CoreLemmas

theorem hexDigits_plain {c : Char} (h : c ∈ hexDigits) : c.toNat < 128 ∧ Receiver.isControl c = false := by
  have hall : (hexDigits.all fun c => c.toNat < 128 ∧ Receiver.isControl c = false) = true := by decide
  exact of_decide_eq_true (List.all_eq_true.mp hall c h)

theorem len_eq {text : String} (h : ∀ c ∈ text.toList, c.toNat < 128) : len text = text.toList.length := by
  have hbytes := utf8_of_ascii h
  rw [String.ofList_toList] at hbytes
  rw [len, hbytes, List.length_map]

/-- Hexadecimal digits make a secret. -/
theorem new_of_digits {text : String} (h : IsPsk text) :
    ∃ s, Secret.new text = .ok s ∧ s.text = text := by
  obtain ⟨hlength, hdigits⟩ := h
  have hlen : len text = 64 := by
    rw [len_eq fun c hc => (hexDigits_plain (hdigits c hc)).1, hlength]
  have hcontrol : hasControl text = false :=
    List.any_eq_false.mpr fun c hc => Bool.not_eq_true _ ▸ (hexDigits_plain (hdigits c hc)).2
  have hfine : ¬ (maxSecretBytes < len text ∨ hasControl text = true) := by
    rw [hlen, hcontrol]
    decide
  rw [Secret.new, dif_neg hfine]
  exact ⟨_, rfl, rfl⟩

/-- With a derivation that never fails, a passphrase of the right length gives a key; every
other is refused. -/
theorem deriveWpaPsk_of_total {kdf : Pbkdf2} (hkdf : kdf.Total) {ssid : String} {passphrase : Secret}
    (hssid : ssid ≠ "") (hlen : len ssid ≤ 32) :
    (8 ≤ passphrase.len ∧ passphrase.len ≤ 63 →
      ∃ psk, deriveWpaPsk kdf ssid passphrase = .ok psk ∧ IsPsk psk.text) ∧
    (¬ (8 ≤ passphrase.len ∧ passphrase.len ≤ 63) → deriveWpaPsk kdf ssid passphrase = .error .wpaCredentials) := by
  constructor
  · intro hpass
    have hfine : ¬ (ssid = "" ∨ 32 < len ssid ∨ ¬ (8 ≤ passphrase.len ∧ passphrase.len ≤ 63)) := by
      rintro (h | h | h)
      · exact hssid h
      · exact Nat.not_lt.mpr hlen h
      · exact h hpass
    obtain ⟨derived, hderived⟩ := Option.isSome_iff_exists.mp (hkdf (utf8 passphrase.text) (utf8 ssid) 4096 32)
    have hpsk : IsPsk (hex derived) := by
      obtain ⟨hlength, hdigits⟩ := hex_digits derived
      rw [kdf.sized hderived] at hlength
      exact ⟨hlength, hdigits⟩
    obtain ⟨psk, hnew, htext⟩ := new_of_digits hpsk
    rw [deriveWpaPsk, if_neg hfine, hderived]
    exact ⟨psk, hnew, htext ▸ hpsk⟩
  · intro hpass
    rw [deriveWpaPsk, if_pos (.inr (.inr hpass))]

end CoreLemmas

end OmtClient.Deploy
