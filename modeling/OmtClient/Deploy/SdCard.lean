import OmtClient.Deploy.Core

/-!
# Preparing a boot partition

`crates/omt-deploy/src/sd_card.rs`: the settings for the first boot of an appliance, and
the Wi-Fi configuration that is written to its boot partition. It carries a derived key
and not the passphrase.
-/

namespace OmtClient.Deploy

open OmtClient.Lib OmtClient.Common

def headlessFileName : String := "headless.apkovl.tar.gz"

def bootPartitionProblem (fs : Files) (boot : String) : Option Problem :=
  match fs.lstat boot with
  | .missing | .error => some .notFound
  | .dir =>
    if fs.lstat (pathJoin boot ".alpine-release") ≠ .file then some .notAlpineBoot
    else
      let config := fs.lstat (pathJoin boot "config.txt")
      let bootDir := fs.lstat (pathJoin boot "boot")
      if config = .missing ∨ bootDir = .missing then some .notFound
      else if config ≠ .file ∨ bootDir ≠ .dir then some .notAlpinePi
      else none
  | _ => some .bootDirectory

/-- `is_ascii_uppercase`. -/
def isUppercase (b : Byte) : Bool := 65 ≤ b && b ≤ 90

/-- The Wi-Fi settings of a card, as they are validated. -/
def SdSettings.wifi (s : SdSettings) : WifiSettings := ⟨s.wifiSsid, s.wifiPassword, false, true⟩

def validateSdSettings (fs : Files) (s : SdSettings) : Option Problem :=
  if len s.country ≠ 2 ∨ (utf8 s.country).all isUppercase = false then some .country
  else (validateWifi s.wifi).or (bootPartitionProblem fs s.bootDirectory)

/-- The text of `wpa_supplicant.conf` for a country, a network and a key. -/
def wpaSupplicantText (country ssid psk : String) : String :=
  "country=" ++ country ++ "\nnetwork=\x7b\n    key_mgmt=WPA-PSK\n    ssid=" ++ ssid ++ "\n    psk=" ++ psk ++ "\n\x7d\n"

def wpaSupplicantConfig (kdf : Pbkdf2) (s : SdSettings) : Except Problem String :=
  match deriveWpaPsk kdf s.wifiSsid s.wifiPassword with
  | .error e => .error e
  | .ok psk => .ok (wpaSupplicantText s.country (hex (utf8 s.wifiSsid)) psk.text)

end OmtClient.Deploy
