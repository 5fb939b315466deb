import OmtClient.Deploy.Ops

/-!
# The key of a network

The same name and password of a network go to a boot partition as `wpa_supplicant.conf`,
to a running appliance with `apply_wifi`, and to one that is set up with `alpine_setup`.
A password is a passphrase of 8 to 63 characters or a key of 64 digits. The remote paths
take both; the configuration for a boot partition is derived from a passphrase only.

1. `wifiPsk_of_valid`: the remote paths have a key for every password that is valid.
2. `wifi_paths_agree_iff`: all paths install the same key, exactly when the password is
   not itself a key.
-/

namespace OmtClient.Deploy

open OmtClient.Lib OmtClient.Common Prog
open CoreLemmas MachineLemmas OpsLemmas

/-- A boot partition is configured with the network and this key. -/
def CardGets (site : Site) (w : WifiSettings) (psk : String) : Prop :=
  ∀ boot country, wpaSupplicantConfig site.kdf ⟨boot, country, w.ssid, w.password⟩ =
    .ok (wpaSupplicantText country (hex (utf8 w.ssid)) psk)

/-- All that `apply_wifi` sends is the command for the network, with this key. -/
def ApplianceGets (site : Site) (w : WifiSettings) (psk : String) : Prop :=
  ∀ c, ∀ e ∈ ((applyWifi site c w).run .init).2.sent, ∃ token,
    e = (privilegedStdinCommand c (wifiCommand site w (hex (utf8 w.ssid)) (wifiMarker token)),
      wifiInput c (wifiMarker token) psk)

/-- The setup script is run with the network and this key only. -/
def SetupGets (site : Site) (w : WifiSettings) (psk : String) : Prop :=
  ∀ c settings root, settings.wifi = some w → ∀ e ∈ ((alpineSetup site c settings root).run .init).2.sent,
    ∀ remoteQ, e.1 = setupCommand remoteQ → e.2 = setupInput settings (hex (utf8 w.ssid), psk)

/-- The remote paths have a key of 64 digits for the network, and all paths install it. -/
def PathsAgree (site : Site) (w : WifiSettings) : Prop :=
  ∃ psk, wifiPsk site.kdf w.ssid w.password = .ok psk ∧ IsPsk psk.text ∧ CardGets site w psk.text ∧
    ApplianceGets site w psk.text ∧ SetupGets site w psk.text

namespace WifiLemmas

variable {site : Site} {w : WifiSettings}

/-- What a valid name and password are. -/
theorem validateWifi_eq_none (h : validateWifi w = none) :
    w.ssid ≠ "" ∧ len w.ssid ≤ 32 ∧
      (isHexPsk w.password.text = false → 8 ≤ w.password.len ∧ w.password.len ≤ 63) := by
  unfold validateWifi at h
  split at h
  · cases h
  · next hssid =>
    rw [not_or, not_or, Nat.not_lt] at hssid
    refine ⟨hssid.1, hssid.2.1, fun hhex => ?_⟩
    dsimp only at h
    split at h
    · cases h
    · next hpassword =>
      rw [not_and, Bool.not_eq_false, Bool.and_eq_true, Bool.and_eq_true, decide_eq_true_eq, decide_eq_true_eq]
        at hpassword
      exact (hpassword hhex).1

theorem len_of_isHexPsk {text : String} (h : isHexPsk text = true) : len text = 64 := by
  rw [isHexPsk, Bool.and_eq_true, beq_iff_eq] at h
  exact h.1

theorem lt_of_isHexDigit {b : Byte} (h : isHexDigit b = true) : b < 128 := by
  simp only [isHexDigit, Bool.or_eq_true, Bool.and_eq_true, decide_eq_true_eq] at h
  obtain (⟨_, h⟩ | ⟨_, h⟩) | ⟨_, h⟩ := h
  · exact UInt8.lt_of_le_of_lt h (by decide)
  · exact UInt8.lt_of_le_of_lt h (by decide)
  · exact UInt8.lt_of_le_of_lt h (by decide)

theorem toLower_mem : ∀ n, n < 128 → isHexDigit (UInt8.ofNat n) = true → (Char.ofNat n).toLower ∈ hexDigits := by
  decide

/-- A key of 64 digits in lower case. -/
theorem isPsk_lower {text : String} (h : isHexPsk text = true) : IsPsk (String.ofList (text.toList.map Char.toLower)) := by
  have hlen := len_of_isHexPsk h
  rw [isHexPsk, Bool.and_eq_true] at h
  have hdigits := List.all_eq_true.mp h.2
  have hascii : ∀ c ∈ text.toList, c.toNat < 128 := ascii_of_utf8 fun b hb => lt_of_isHexDigit (hdigits b hb)
  have hbytes := utf8_of_ascii hascii
  rw [String.ofList_toList] at hbytes
  rw [IsPsk, String.toList_ofList, List.length_map, ← len_eq hascii, hlen]
  refine ⟨rfl, fun c hc => ?_⟩
  obtain ⟨d, hd, rfl⟩ := List.mem_map.mp hc
  have hdigit : isHexDigit (UInt8.ofNat d.toNat) = true := by
    refine hdigits _ ?_
    rw [hbytes]
    exact List.mem_map_of_mem hd
  have hlower := toLower_mem d.toNat (hascii d hd) hdigit
  rwa [Char.ofNat_toNat] at hlower

/-- The remote paths have a key for every password that is valid. -/
theorem wifiPsk_of_valid (hkdf : site.kdf.Total) (h : validateWifi w = none) :
    ∃ psk, wifiPsk site.kdf w.ssid w.password = .ok psk ∧ IsPsk psk.text := by
  obtain ⟨hssid, hlen, hpass⟩ := validateWifi_eq_none h
  rw [wifiPsk]
  cases hhex : isHexPsk w.password.text with
  | true =>
    have hpsk := isPsk_lower hhex
    obtain ⟨psk, hnew, htext⟩ := new_of_digits hpsk
    exact ⟨psk, hnew, htext ▸ hpsk⟩
  | false => exact (deriveWpaPsk_of_total hkdf hssid hlen).1 (hpass hhex)

/-- A configuration is derived from a passphrase only. -/
theorem wpaSupplicantConfig_of_key (hkdf : site.kdf.Total) (h : validateWifi w = none)
    (hhex : isHexPsk w.password.text = true) (boot country : String) :
    wpaSupplicantConfig site.kdf ⟨boot, country, w.ssid, w.password⟩ = .error .wpaCredentials := by
  obtain ⟨hssid, hlen, _⟩ := validateWifi_eq_none h
  have hlong : ¬ (8 ≤ w.password.len ∧ w.password.len ≤ 63) := by
    rw [Secret.len, len_of_isHexPsk hhex]
    decide
  rw [wpaSupplicantConfig]
  dsimp only
  rw [(deriveWpaPsk_of_total hkdf hssid hlen).2 hlong]

theorem ruled_true (c : Connection) : Ruled (fun _ => True) c := fun _ _ _ => trivial

theorem applianceGets {psk : Secret} (h : wifiPsk site.kdf w.ssid w.password = .ok psk) :
    ApplianceGets site w psk.text := by
  intro c
  have horderly : Orderly (fun _ => True) (fun e => ∃ token,
      e = (privilegedStdinCommand c (wifiCommand site w (hex (utf8 w.ssid)) (wifiMarker token)),
        wifiInput c (wifiMarker token) psk.text)) (applyWifi site c w) := by
    refine orderly_applyWifi (ruled_true c) (fun _ _ => trivial) (fun _ _ => trivial) fun psk' token h' => ⟨token, ?_⟩
    rw [h] at h'
    cases h'
    rfl
  exact (horderly.state ⟨fun _ h => absurd h List.not_mem_nil, fun _ h => absurd h List.not_mem_nil⟩).2

/-- A text that is written out begins with its first character. -/
theorem head_append {c : Char} {cs : List Char} {rest : String} :
    (String.ofList (c :: cs) ++ rest).toList.head? = some c := by
  rw [String.toList_append, String.toList_ofList]
  rfl

theorem head_platformProbe : platformProbe.toList.head? = some 'u' := head_append

theorem head_sudo (n : String) (rest : String) (h : n = "sudo -S -p ''" ∨ n = "sudo -n") :
    (n ++ rest).toList.head? = some 's' := by
  rcases h with rfl | rfl
  · exact head_append
  · exact head_append

/-- No other command begins as the setup command does. -/
theorem ne_setupCommand {text remoteQ : String} (h : text.toList.head? ≠ some '/') : text ≠ setupCommand remoteQ := by
  rintro rfl
  rw [setupCommand, String.append_assoc, String.toList_append] at h
  exact h rfl

theorem reboot_ne_setupCommand (c : Connection) (remoteQ : String) :
    privilegedArgvCommand c Action.reboot.argv ≠ setupCommand remoteQ := by
  refine ne_setupCommand ?_
  rw [privilegedArgvCommand, privilegedCommand, sudoPrefix]
  split
  · decide
  · split
    · rw [if_neg (by decide), String.append_assoc, head_sudo _ _ (.inl rfl)]
      decide
    · rw [if_neg (by decide), String.append_assoc, head_sudo _ _ (.inr rfl)]
      decide

theorem setupGets {psk : Secret} (h : wifiPsk site.kdf w.ssid w.password = .ok psk) : SetupGets site w psk.text := by
  intro c settings root hwifi
  have horderly : Orderly (fun _ => True)
      (fun e => ∀ remoteQ, e.1 = setupCommand remoteQ → e.2 = setupInput settings (hex (utf8 w.ssid), psk.text))
      (alpineSetup site c settings root) := by
    refine orderly_alpineSetup (ruled_true c) (fun _ _ => trivial) (fun _ _ => trivial) (ruled_true _) (ruled_true _)
      ?_ ?_ ?_ ?_ root
    · exact fun _ hcommand => absurd hcommand (ne_setupCommand (by rw [head_platformProbe]; decide))
    · exact fun _ hcommand => absurd hcommand (ne_setupCommand (by decide))
    · exact fun remoteQ hcommand => absurd hcommand (reboot_ne_setupCommand c remoteQ)
    · intro wifi _ hset _ _
      rw [hwifi, setupWifi, h] at hset
      cases hset
      rfl
  exact (horderly.state ⟨fun _ h => absurd h List.not_mem_nil, fun _ h => absurd h List.not_mem_nil⟩).2

end WifiLemmas

open WifiLemmas

/-- For every network that is valid, all paths install the same key, exactly when the
password is a passphrase. -/
theorem wifi_paths_agree_iff (site : Site) (hkdf : site.kdf.Total) (w : WifiSettings) (hw : validateWifi w = none) :
    PathsAgree site w ↔ isHexPsk w.password.text = false := by
  constructor
  · rintro ⟨psk, _, _, hcard, _⟩
    refine eq_false_of_ne_true fun hhex => ?_
    have hconfig := hcard "" ""
    rw [wpaSupplicantConfig_of_key hkdf hw hhex] at hconfig
    cases hconfig
  · intro hhex
    obtain ⟨psk, hremote, hpsk⟩ := wifiPsk_of_valid hkdf hw
    refine ⟨psk, hremote, hpsk, fun boot country => ?_, applianceGets hremote, setupGets hremote⟩
    -- without a key in the password, the remote paths derive theirs as the card's path does
    rw [wifiPsk, hhex] at hremote
    rw [wpaSupplicantConfig]
    dsimp only
    rw [show deriveWpaPsk site.kdf w.ssid w.password = .ok psk from hremote]

/-- A derivation that knows one passphrase. -/
def knownKdf : Pbkdf2 where
  sha1 password salt rounds size :=
    if password = utf8 "password" ∧ salt = utf8 "IEEE" ∧ rounds = 4096 ∧ size = 32 then
      some [0xf4, 0x2c, 0x6f, 0xc5, 0x2d, 0xf0, 0xeb, 0xef, 0x9e, 0xbb, 0x4b, 0x90, 0xb3, 0x8a, 0x5f, 0x90,
        0x2e, 0x83, 0xfe, 0x1b, 0x13, 0x5a, 0x70, 0xe2, 0x3a, 0xed, 0x76, 0x2e, 0x97, 0x10, 0xa1, 0x2e]
    else some (List.replicate size 0)
  sized := by
    intro password salt rounds size out h
    split at h
    · next hknown =>
      cases h
      exact hknown.2.2.2.symm
    · cases h
      exact List.length_replicate

theorem knownKdf_total : knownKdf.Total := by
  intro password salt rounds size
  unfold knownKdf
  dsimp only
  split
  · rfl
  · rfl

/-- A deployer whose host runs nothing. -/
def idleSite : Site :=
  ⟨knownKdf, fun _ => "", [], "", 0, .calm (fun _ => ⟨fun _ => .missing, fun _ => .missing⟩) fun _ _ _ => .error "refused"⟩

def passphraseNetwork : WifiSettings :=
  ⟨"IEEE", ⟨some "password", fun t h => by cases h; decide⟩, true, true⟩

/-- The same network, by its key. -/
def keyNetwork : WifiSettings :=
  ⟨"IEEE", ⟨some "f42c6fc52df0ebef9ebb4b90b38a5f902e83fe1b135a70e23aed762e9710a12e", fun t h => by cases h; decide⟩, true, true⟩

theorem passphrase_paths_agree : validateWifi passphraseNetwork = none ∧ PathsAgree idleSite passphraseNetwork := by
  have hvalid : validateWifi passphraseNetwork = none := by decide +kernel
  exact ⟨hvalid, (wifi_paths_agree_iff idleSite knownKdf_total passphraseNetwork hvalid).mpr (by decide +kernel)⟩

/-- A key of 64 digits is valid, but no boot partition can be configured with it. -/
theorem key_refused_for_card :
    validateWifi keyNetwork = none ∧ idleSite.kdf.Total ∧
      (wifiPsk idleSite.kdf keyNetwork.ssid keyNetwork.password).toOption.map Secret.text =
        some "f42c6fc52df0ebef9ebb4b90b38a5f902e83fe1b135a70e23aed762e9710a12e" ∧
      wpaSupplicantConfig idleSite.kdf ⟨"/media/boot", "US", keyNetwork.ssid, keyNetwork.password⟩ =
        .error .wpaCredentials ∧
      ¬ PathsAgree idleSite keyNetwork := by
  have hvalid : validateWifi keyNetwork = none := by decide +kernel
  have hrefused := @wpaSupplicantConfig_of_key idleSite _ knownKdf_total hvalid (by decide +kernel)
  refine ⟨hvalid, knownKdf_total, by decide +kernel, hrefused _ _, ?_⟩
  rintro ⟨psk, _, _, hcard, _⟩
  have hconfig := hcard "" ""
  rw [hrefused] at hconfig
  cases hconfig

end OmtClient.Deploy
