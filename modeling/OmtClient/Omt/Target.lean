import OmtClient.Common.Buf
import OmtClient.Lib.Address
import OmtClient.Lib.Text
import OmtClient.Lib.Utf8
import OmtClient.Omt.Protocol
import OmtClient.Receiver.Status

/-!
# Targets

The grammar of targets in `crates/omt-protocol/src/lib.rs`: direct addresses
`omt://host:port` and the names of discovered sources. Addresses are their bytes. The
tables of Unicode normalisation are a parameter.

1. `parseDirectTarget_name`, `parseDirectTarget_ipv6`: which addresses are accepted.
-/

namespace OmtClient.Omt

open OmtClient.Lib OmtClient.Common

def sourceNameMaxBytes : Nat := 63
def targetMaxBytes : Nat := 512
def hostMaxBytes : Nat := 256

structure DirectTarget where
  host : Bytes
  port : Nat
  deriving DecidableEq, Repr

/-- `is_ascii_alphanumeric`. -/
def isAlphanumeric (b : Byte) : Bool :=
  (48 ≤ b && b ≤ 57) || (65 ≤ b && b ≤ 90) || (97 ≤ b && b ≤ 122)

/-- One label of a host name. -/
def validLabel (label : Bytes) : Bool :=
  label != [] && label.length ≤ 63 && label.head? != some 45 && label.getLast? != some 45 &&
    label.all fun c => isAlphanumeric c || c == 45

/-- `valid_dns`. -/
def validDns (host : Bytes) : Bool :=
  !(host == [] || 253 < host.length) && (host.splitOn 46).all validLabel

/-- `is_undiallable_ipv4`: unspecified, multicast or broadcast. -/
def isUndiallableIpv4 (x : Ipv4Addr) : Bool :=
  x == ⟨0, 0, 0, 0⟩ || (224 ≤ x.a && x.a ≤ 239) || x == ⟨255, 255, 255, 255⟩

/-- `is_undiallable_ipv6`: unspecified, multicast or link-local. -/
def isUndiallableIpv6 (x : Ipv6Addr) : Bool :=
  x.segments == List.replicate 8 0 || x.segments.headD 0 &&& 0xFF00 == 0xFF00 ||
    x.segments.headD 0 &&& 0xFFC0 == 0xFE80

def scheme : Bytes := utf8 "omt://"

/-- The bytes that an address may not have. -/
def refusedByte (b : Byte) : Bool := b == 47 || b == 63 || b == 35 || b == 64 || b ≤ 31 || b == 127

def invalidTarget (detail : String) : ProtoError := ⟨.invalid, detail⟩

/-- The host and port of an address, and whether the host is bracketed. -/
def splitTarget (auth : Bytes) : Except ProtoError (Bytes × Bytes × Bool) :=
  match auth with
  | 91 :: rest =>
    match findSub [93, 58] rest with
    | none => .error (invalidTarget "IPv6 target")
    | some close =>
      let port := rest.drop (close + 2)
      if 58 ∈ port then .error (invalidTarget "IPv6 target") else .ok (rest.take close, port, true)
  | _ =>
    match rsplitOnce 58 auth with
    | none => .error (invalidTarget "OMT target port")
    | some (host, port) =>
      if 58 ∈ host then .error (invalidTarget "IPv6 brackets") else .ok (host, port, false)

/-- What the host must be. -/
def checkHost (host : Bytes) (ipv6 : Bool) : Except ProtoError Unit :=
  if ipv6 then
    match parseIpv6 host with
    | some a =>
      if 37 ∉ host ∧ !isUndiallableIpv6 a then .ok () else .error (invalidTarget "IPv6 target")
    | none => .error (invalidTarget "IPv6 target")
  else
    let v4 := parseIpv4 host
    if host = [] ∨ hostMaxBytes ≤ host.length ∨ (v4.isNone ∧ !validDns host) then
      .error (invalidTarget "OMT target host")
    else if v4.any isUndiallableIpv4 then .error (invalidTarget "OMT target host")
    else .ok ()

/-- `parse_direct_target`. -/
def parseDirectTarget (value : Bytes) : Except ProtoError DirectTarget :=
  if targetMaxBytes < value.length then .error (invalidTarget "OMT direct target")
  else
    match stripPrefix scheme value with
    | none => .error (invalidTarget "OMT direct target")
    | some auth =>
      if auth.any refusedByte then .error (invalidTarget "OMT direct target")
      else do
        let (host, portText, ipv6) ← splitTarget auth
        match (parseU64 portText 65535).filter (· != 0) with
        | none => .error (invalidTarget "OMT target port")
        | some port =>
          checkHost host ipv6
          if hostMaxBytes ≤ host.length then .error (invalidTarget "OMT target host")
          else .ok ⟨host, port⟩

namespace TargetLemmas

/-- A byte of a host name or an IPv4 address. -/
def nameByte (b : Byte) : Bool := isAlphanumeric b || b == 45 || b == 46

theorem nameByte_plain (b : Byte) (h : nameByte b = true) : refusedByte b = false ∧ b ≠ 58 ∧ b ≠ 91 := by
  revert b
  exact forall_byte (by decide +kernel)

theorem grouped_plain (b : Byte) (h : AddressLemmas.Grouped b) :
    refusedByte b = false ∧ b ≠ 91 ∧ b ≠ 93 ∧ b ≠ 37 := by
  unfold AddressLemmas.Grouped at h
  revert b
  exact forall_byte (by decide +kernel)

theorem digit_plain (b : Byte) (h : isAsciiDigit b = true) :
    refusedByte b = false ∧ b ≠ 58 := by
  revert b
  exact forall_byte (by decide +kernel)

variable {port : Nat}

theorem parseU64_port (hport : port ≤ 65535) (hpos : 0 < port) :
    (parseU64 (numeral 10 port) 65535).filter (· != 0) = some port := by
  have hparse : parseU64 (numeral 10 port) 65535 = some port :=
    (parseU64_eq_some (by decide)).mpr ⟨numeral_ne_nil, List.all_eq_true.mpr (isAsciiDigit_numeral port),
      by rw [decimal_numeral]; exact hport, decimal_numeral port⟩
  rw [hparse, Option.filter, if_pos (by simpa using Nat.ne_of_gt hpos)]

theorem colon_numeral : (58 : Byte) ∉ numeral 10 port := fun h =>
  (digit_plain 58 (isAsciiDigit_numeral port 58 h)).2 rfl

theorem length_port (hport : port ≤ 65535) : (numeral 10 port).length ≤ 5 :=
  (length_numeral_le (by decide) (by decide)).mpr (by omega)

/-- An address past its scheme, in allowed bytes and of a bounded length. -/
theorem parseDirectTarget_split {auth host : Bytes} {ipv6 : Bool} (hlen : auth.length ≤ 506)
    (hplain : ∀ b ∈ auth, refusedByte b = false) (hsplit : splitTarget auth = .ok (host, numeral 10 port, ipv6))
    (hhost : host.length < hostMaxBytes) (hport : port ≤ 65535) (hpos : 0 < port) :
    parseDirectTarget (scheme ++ auth) = (checkHost host ipv6).map fun _ => ⟨host, port⟩ := by
  have hscheme : scheme.length = 6 := by decide
  have hshort : ¬ targetMaxBytes < (scheme ++ auth).length := by
    rw [List.length_append, hscheme, targetMaxBytes]
    omega
  have hany : ¬ auth.any refusedByte = true := by
    rw [List.any_eq_true]
    rintro ⟨b, hb, href⟩
    rw [hplain b hb] at href
    cases href
  rw [parseDirectTarget, if_neg hshort, stripPrefix_append]
  dsimp only
  rw [if_neg hany, hsplit]
  dsimp only [bind, Except.bind]
  rw [parseU64_port hport hpos]
  dsimp only
  cases checkHost host ipv6 with
  | error e => rfl
  | ok _ => exact if_neg (Nat.not_le.mpr hhost)

end TargetLemmas

open TargetLemmas

/-- A host name or an IPv4 address, with its port. -/
theorem parseDirectTarget_name {host : Bytes} {port : Nat} (hname : ∀ b ∈ host, nameByte b = true)
    (hlen : host.length < hostMaxBytes) (hport : port ≤ 65535) (hpos : 0 < port) :
    parseDirectTarget (scheme ++ (host ++ 58 :: numeral 10 port)) =
      (checkHost host false).map fun _ => ⟨host, port⟩ := by
  have hdigits := length_port hport
  rw [hostMaxBytes] at hlen
  refine parseDirectTarget_split ?_ ?_ ?_ hlen hport hpos
  · rw [List.length_append, List.length_cons]
    omega
  · intro b hb
    rcases List.mem_append.mp hb with hb | hb
    · exact (nameByte_plain b (hname b hb)).1
    rcases List.mem_cons.mp hb with rfl | hb
    · decide
    · exact (digit_plain b (isAsciiDigit_numeral port b hb)).1
  · have hcolon : 58 ∉ host := fun h => (nameByte_plain 58 (hname 58 h)).2.1 rfl
    have hbare : ∀ rest, host ++ 58 :: numeral 10 port ≠ 91 :: rest := by
      intro rest heq
      cases host with
      | nil => cases heq
      | cons b host =>
        cases heq
        exact (nameByte_plain 91 (hname 91 List.mem_cons_self)).2.2 rfl
    unfold splitTarget
    split
    · next heq => exact absurd heq (hbare _)
    · rw [rsplitOnce_eq_some.mpr ⟨rfl, colon_numeral⟩]
      exact if_neg hcolon

/-- An IPv6 address in brackets, with its port. -/
theorem parseDirectTarget_ipv6 (x : Ipv6Addr) {port : Nat} (hport : port ≤ 65535) (hpos : 0 < port) :
    parseDirectTarget (scheme ++ (91 :: x.display ++ 93 :: 58 :: numeral 10 port)) =
      if isUndiallableIpv6 x then .error (invalidTarget "IPv6 target") else .ok ⟨x.display, port⟩ := by
  have hdigits := length_port hport
  have hdisplay := length_display6 x
  have hchars := display6_chars x
  rw [(@parseDirectTarget_split _ _ x.display true) ?_ ?_ ?_ (by rw [hostMaxBytes]; omega) hport hpos]
  · have hzone : 37 ∉ x.display := fun h => (grouped_plain 37 (hchars 37 h)).2.2.2 rfl
    rw [checkHost, if_pos rfl, parseIpv6_display]
    dsimp only
    cases isUndiallableIpv6 x with
    | true =>
      rw [if_neg fun h => nomatch h.2]
      rfl
    | false =>
      rw [if_pos ⟨hzone, rfl⟩]
      rfl
  · simp only [List.length_append, List.length_cons]
    omega
  · intro b hb
    simp only [List.mem_append, List.mem_cons] at hb
    rcases hb with (rfl | hb) | rfl | rfl | hb
    · decide
    · exact (grouped_plain b (hchars b hb)).1
    · decide
    · decide
    · exact (digit_plain b (isAsciiDigit_numeral port b hb)).1
  · have hclose : 93 ∉ x.display := fun h => (grouped_plain 93 (hchars 93 h)).2.2.1 rfl
    have hfind : findSub [93, 58] (x.display ++ 93 :: 58 :: numeral 10 port) = some x.display.length :=
      findSub_after (p := [58]) hclose _
    have hdrop : (x.display ++ 93 :: 58 :: numeral 10 port).drop (x.display.length + 2) = numeral 10 port :=
      List.drop_length_add_append _
    rw [List.cons_append, splitTarget, hfind]
    dsimp only
    rw [hdrop, if_neg colon_numeral, List.take_left]

/-- An accepted address starts with the scheme and has no refused byte after it. -/
theorem parseDirectTarget_scheme {value : Bytes} {t : DirectTarget} (h : parseDirectTarget value = .ok t) :
    ∃ auth, value = scheme ++ auth ∧ ∀ b ∈ auth, refusedByte b = false := by
  unfold parseDirectTarget at h
  split at h
  · cases h
  split at h
  · cases h
  next auth hstrip =>
  split at h
  · cases h
  next hany =>
  refine ⟨auth, stripPrefix_eq_some.mp hstrip, fun b hb => ?_⟩
  by_contra href
  exact hany (List.any_eq_true.mpr ⟨b, hb, Bool.eq_true_of_not_eq_false href⟩)

/-! ## Source names -/

/-- `FORBIDDEN_NAME_RANGES`. -/
def forbiddenNameRanges : List (Nat × Nat) :=
  [(0x0, 0x1f), (0x7f, 0x9f), (0xad, 0xad), (0x600, 0x605), (0x61c, 0x61c), (0x6dd, 0x6dd), (0x70f, 0x70f),
    (0x890, 0x891), (0x8e2, 0x8e2), (0x180e, 0x180e), (0x200b, 0x200f), (0x2028, 0x202e), (0x2060, 0x2064),
    (0x2066, 0x206f), (0xd800, 0xdfff), (0xfeff, 0xfeff), (0xfff9, 0xfffb), (0x110bd, 0x110bd),
    (0x110cd, 0x110cd), (0x13430, 0x1343f), (0x1bca0, 0x1bca3), (0x1d173, 0x1d17a), (0xe0001, 0xe0001),
    (0xe0020, 0xe007f)]

/-- `is_forbidden_name_char`; the ranges are sorted and disjoint, so that the binary search
of the source finds one whenever there is one. -/
def isForbiddenNameChar (c : Char) : Bool := forbiddenNameRanges.any fun r => r.1 ≤ c.toNat && c.toNat ≤ r.2

section

variable (isNormalized : String → Nat → Bool)

/-- `is_valid_source_name`. -/
def isValidSourceName (value : String) : Bool :=
  if value = "" ∨ sourceNameMaxBytes < (utf8 value).length then false
  else if !isNormalized value sourceNameMaxBytes then false
  else if value.toList.any isForbiddenNameChar then false
  else !value.toList.head?.any Receiver.isWhitespace && !value.toList.getLast?.any Receiver.isWhitespace

/-- `is_valid_target`. -/
def isValidTarget (value : String) : Bool :=
  if scheme.isPrefixOf (utf8 value) then (parseDirectTarget (utf8 value)).isOk
  else isValidSourceName isNormalized value

end

end OmtClient.Omt
