import OmtClient.Omt.Target

/-!
# The Discovery Server's address

`normalize_server` of `crates/omt-web/src/network.rs`, and what the receiver makes of the
address that it returns (`parse_direct_target`). A host is an IPv4 or IPv6 address or a
name in any case.

1. `normalizeServer_normal`: a normalised address is its own normal form.
2. `server_accepted_iff`: the receiver accepts it, as the same host and port, exactly when
   the host is not an address that no connect can use.
-/

namespace OmtClient.Web.Network

open OmtClient.Lib OmtClient.Common OmtClient.Omt OmtClient.Omt.TargetLemmas

def defaultPort : Nat := 6399

/-- `canonical_host`. -/
def canonicalHost (host : Bytes) : Option Bytes :=
  if host = [] ∨ !host.all (· < 128) then none
  else
    match parseIpv4 host with
    | some v4 => some v4.display
    | none =>
      match parseIpv6 host with
      | some v6 => some (91 :: v6.display ++ [93])
      | none =>
        if 253 < host.length ∨ host.head? = some 46 ∨ host.getLast? = some 46 then none
        else if (host.splitOn 46).all validLabel then some (host.map asciiLower)
        else none

/-- `parse_port`: a `u16` as the standard library parses one. -/
def parsePort (s : Bytes) : Option Nat := parseUnsigned 65535 s

/-- The host and port of an address. -/
def authority (auth : Bytes) : Except String (Bytes × Nat) :=
  match auth with
  | 91 :: rest =>
    match splitOnce 93 rest with
    | none => .error "Discovery Server is invalid."
    | some (host, suffix) =>
      if suffix = [] then .ok (host, defaultPort)
      else
        match (stripPrefix [58] suffix).bind parsePort with
        | none => .error "Discovery Server is invalid."
        | some port => .ok (host, port)
  | _ =>
    if auth.count 58 = 1 then
      match splitOnce 58 auth with
      | none => .error "Discovery Server is invalid."
      | some (host, port) => (parsePort port).elim (.error "Discovery Server is invalid.") fun port => .ok (host, port)
    else if auth.count 58 = 0 then .ok (auth, defaultPort)
    else .error "Discovery Server IPv6 addresses must be bracketed."

/-- The host and port that an operator's text names; none for an empty field. -/
def serverOf (value : String) : Except String (Option (Bytes × Nat)) :=
  let v := (Receiver.trim value.toList).flatMap encode
  if v = [] then .ok none
  else if 512 < v.length ∨ v.any fun c => !(32 ≤ c && c < 128) || c == 127 then
    .error "Discovery Server contains unsupported characters."
  else
    let auth := (stripPrefix scheme v).getD v
    if auth.any fun c => c == 47 || c == 63 || c == 35 || c == 64 then
      .error "Discovery Server must be a host or omt://host:port."
    else (authority auth).map some

/-- `normalize_server`: `omt://host:port`, or nothing for an empty field. -/
def normalizeServer (value : String) : Except String Bytes := do
  match ← serverOf value with
  | none => .ok []
  | some (host, port) =>
    if port = 0 then .error "Discovery Server is invalid."
    else
      match canonicalHost host with
      | none => .error "Discovery Server host is invalid."
      | some canonical => .ok (scheme ++ canonical ++ 58 :: numeral 10 port)

/-! ## What a host denotes -/

inductive Host
  | ipv4 (x : Ipv4Addr)
  | ipv6 (x : Ipv6Addr)
  | name (n : Bytes)
  deriving DecidableEq, Repr

/-- The address that a host's text denotes, or else its name. -/
def denote (host : Bytes) : Host :=
  match parseIpv4 host with
  | some x => .ipv4 x
  | none =>
    match parseIpv6 host with
    | some x => .ipv6 x
    | none => .name (host.map asciiLower)

/-- An address that no connect can use. -/
def Host.undiallable : Host → Bool
  | .ipv4 x => isUndiallableIpv4 x
  | .ipv6 x => isUndiallableIpv6 x
  | .name _ => false

/-! ## Canonical hosts -/

/-- A host as `canonical_host` writes it, and what it denotes. -/
inductive Canonical : Bytes → Host → Prop
  | ipv4 (x : Ipv4Addr) : Canonical x.display (.ipv4 x)
  | ipv6 (x : Ipv6Addr) : Canonical (91 :: x.display ++ [93]) (.ipv6 x)
  | name {n : Bytes} (hdns : validDns n = true) (hlower : n.map asciiLower = n) (hipv4 : parseIpv4 n = none) :
    Canonical n (.name n)

namespace NetworkLemmas

/-- What lower case does to the characters of a host name. -/
theorem lower_facts (b : Byte) : asciiLower (asciiLower b) = asciiLower b ∧
    (AddressLemmas.Dotted (asciiLower b) → asciiLower b = b) ∧ (asciiLower b = 46 ↔ b = 46) ∧ (asciiLower b = 45 ↔ b = 45) ∧
    (isAlphanumeric (asciiLower b) || asciiLower b == 45) = (isAlphanumeric b || b == 45) ∧
    (AddressLemmas.Dotted b → nameByte b = true) := by
  unfold AddressLemmas.Dotted
  revert b
  exact forall_byte (by decide +kernel)

theorem lower_lower (b : Byte) : asciiLower (asciiLower b) = asciiLower b := (lower_facts b).1

theorem lower_dotted (b : Byte) (h : AddressLemmas.Dotted (asciiLower b)) : asciiLower b = b := (lower_facts b).2.1 h

theorem lower_dot (b : Byte) : asciiLower b = 46 ↔ b = 46 := (lower_facts b).2.2.1

theorem lower_dash (b : Byte) : asciiLower b = 45 ↔ b = 45 := (lower_facts b).2.2.2.1

theorem labelByte_lower (b : Byte) :
    (isAlphanumeric (asciiLower b) || asciiLower b == 45) = (isAlphanumeric b || b == 45) := (lower_facts b).2.2.2.2.1

theorem digit_nameByte (b : Byte) (h : isAsciiDigit b = true) : nameByte b = true := by
  unfold isAsciiDigit at h
  simp only [nameByte, isAlphanumeric, h, Bool.true_or]

theorem dotted_nameByte (b : Byte) (h : AddressLemmas.Dotted b) : nameByte b = true :=
  (lower_facts b).2.2.2.2.2 h

theorem nameByte_labelByte (b : Byte) (h : (isAlphanumeric b || b == 45) = true) : nameByte b = true := by
  rw [nameByte, h]
  rfl

theorem validLabel_lower (label : Bytes) : validLabel (label.map asciiLower) = validLabel label := by
  have hhead : ∀ o : Option Byte, (o.map asciiLower != some 45) = (o != some 45) := by
    intro o
    cases o with
    | none => rfl
    | some b =>
      rw [Bool.eq_iff_iff]
      simp only [Option.map_some, bne_iff_ne, ne_eq, Option.some.injEq, lower_dash]
  have hempty : (label.map asciiLower != []) = (label != []) := by
    cases label with
    | nil => rfl
    | cons b label => rfl
  have hall : ((label.map asciiLower).all fun c => isAlphanumeric c || c == 45) =
      label.all fun c => isAlphanumeric c || c == 45 := by
    rw [List.all_map]
    exact congrArg (fun f => label.all f) (funext labelByte_lower)
  rw [validLabel, validLabel, List.head?_map, List.getLast?_map, hhead, hhead, hempty, hall, List.length_map]

theorem splitOn_lower (host : Bytes) : (host.map asciiLower).splitOn 46 = (host.splitOn 46).map (·.map asciiLower) := by
  induction host with
  | nil => rfl
  | cons b host ih =>
    rw [List.map_cons, List.splitOn_cons_eq_if_modifyHead, List.splitOn_cons_eq_if_modifyHead, ih]
    by_cases hb : b = 46
    · rw [hb]
      rfl
    · have hsame : ¬ (b == 46) = true := by simpa using hb
      have hlower : ¬ (asciiLower b == 46) = true := by simpa [lower_dot] using hb
      rw [if_neg hsame, if_neg hlower]
      cases host.splitOn 46 with
      | nil => rfl
      | cons l ls => rfl

theorem validDns_lower (host : Bytes) : validDns (host.map asciiLower) = validDns host := by
  have hempty : (host.map asciiLower == []) = (host == []) := by
    cases host with
    | nil => rfl
    | cons b host => rfl
  rw [validDns, validDns, hempty, List.length_map, splitOn_lower, List.all_map]
  exact congrArg (fun f => _ && (host.splitOn 46).all f) (funext validLabel_lower)

theorem lower_map (host : Bytes) : (host.map asciiLower).map asciiLower = host.map asciiLower := by
  rw [List.map_map]
  exact List.map_congr_left fun b _ => lower_lower b

theorem validDns_chars {n : Bytes} (h : validDns n = true) : ∀ b ∈ n, nameByte b = true := by
  intro b hb
  rw [validDns, Bool.and_eq_true] at h
  rcases mem_splitOn (c := 46) hb with rfl | ⟨label, hlabel, hmem⟩
  · decide
  · have hvalid := List.all_eq_true.mp h.2 label hlabel
    rw [validLabel, Bool.and_eq_true] at hvalid
    exact nameByte_labelByte b (List.all_eq_true.mp hvalid.2 b hmem)

theorem canonicalHost_canonical {host c : Bytes} (h : canonicalHost host = some c) :
    Canonical c (denote host) := by
  unfold canonicalHost at h
  unfold denote
  split at h
  · cases h
  next hfirst =>
  split at h
  · next x hx =>
    cases h
    exact .ipv4 x
  next hipv4 =>
  split at h
  · next x hx =>
    cases h
    exact .ipv6 x
  split at h
  · cases h
  next hlong =>
  split at h
  · next hlabels =>
    cases h
    refine .name ?_ (lower_map host) ?_
    · rw [validDns_lower, validDns, hlabels, Bool.and_true, Bool.not_eq_true', Bool.or_eq_false_iff]
      rw [not_or] at hfirst hlong
      exact ⟨beq_false_of_ne hfirst.1, decide_eq_false hlong.1⟩
    · -- a dotted text has no letters to lower
      by_contra hsome
      obtain ⟨x, hx⟩ := Option.ne_none_iff_exists'.mp hsome
      have hsame : host.map asciiLower = host := by
        have hid : host.map asciiLower = host.map id := by
          refine List.map_congr_left fun b hb => ?_
          exact lower_dotted b (parseIpv4_chars hx _ (List.mem_map_of_mem hb))
        rw [hid, List.map_id]
      rw [hsame, hipv4] at hx
      cases hx
  · cases h

variable {c : Bytes} {h : Host}

/-- The bytes of a canonical host that is not bracketed. -/
theorem display4_chars (x : Ipv4Addr) : ∀ b ∈ x.display, nameByte b = true := fun b hb =>
  dotted_nameByte b (parseIpv4_chars (parseIpv4_display x) b hb)

theorem colonless {n : Bytes} (hn : ∀ b ∈ n, nameByte b = true) : 58 ∉ n := fun hmem =>
  (nameByte_plain 58 (hn 58 hmem)).2.1 rfl

theorem display4_ne_nil (x : Ipv4Addr) : x.display ≠ [] := by
  intro hnil
  have hparse := parseIpv4_display x
  rw [hnil] at hparse
  cases hparse

theorem parseIpv4_display6 (x : Ipv6Addr) : parseIpv4 x.display = none := by
  by_contra hsome
  obtain ⟨y, hy⟩ := Option.ne_none_iff_exists'.mp hsome
  have hcolon : 58 ∈ x.display := by
    by_contra hno
    have hnone := parseIpv6_colonless hno
    rw [parseIpv6_display] at hnone
    cases hnone
  rcases parseIpv4_chars hy 58 hcolon with hdigit | hdot
  · exact absurd hdigit (by decide)
  · exact absurd hdot (by decide)

end NetworkLemmas

open NetworkLemmas

/-- The receiver's reading of a canonical host and a port. -/
theorem parseDirectTarget_canonical {c : Bytes} {h : Host} {port : Nat} (hc : Canonical c h)
    (hport : port ≤ 65535) (hpos : 0 < port) :
    (∃ t, parseDirectTarget (scheme ++ (c ++ 58 :: numeral 10 port)) = .ok t ∧ t.port = port ∧ denote t.host = h) ↔
      h.undiallable = false := by
  cases hc with
  | ipv4 x =>
    have hlen := AddressLemmas.length_display4 x
    have hdenote : denote x.display = .ipv4 x := by rw [denote, parseIpv4_display]
    rw [parseDirectTarget_name (display4_chars x) (by rw [hostMaxBytes]; omega) hport hpos]
    have hfirst : ¬ (x.display = [] ∨ hostMaxBytes ≤ x.display.length ∨
        ((some x).isNone ∧ !validDns x.display)) := by
      rintro (hnil | hlong | ⟨hnone, _⟩)
      · exact display4_ne_nil x hnil
      · rw [hostMaxBytes] at hlong
        omega
      · cases hnone
    rw [checkHost, if_neg (by decide), parseIpv4_display]
    dsimp only
    rw [if_neg hfirst, Host.undiallable, Option.any_some]
    cases isUndiallableIpv4 x with
    | true =>
      constructor
      · rintro ⟨_, hok, _⟩
        cases hok
      · rintro ⟨⟩
    | false => exact ⟨fun _ => rfl, fun _ => ⟨_, rfl, rfl, hdenote⟩⟩
  | ipv6 x =>
    have hdenote : denote x.display = .ipv6 x := by
      rw [denote, parseIpv4_display6, parseIpv6_display]
    have hassoc : 91 :: x.display ++ [93] ++ 58 :: numeral 10 port =
        91 :: x.display ++ 93 :: 58 :: numeral 10 port := by
      rw [List.append_assoc]
      rfl
    rw [hassoc, parseDirectTarget_ipv6 x hport hpos, Host.undiallable]
    cases isUndiallableIpv6 x with
    | true =>
      constructor
      · rintro ⟨_, hok, _⟩
        cases hok
      · rintro ⟨⟩
    | false => exact ⟨fun _ => rfl, fun _ => ⟨_, rfl, rfl, hdenote⟩⟩
  | name hdns hlower hipv4 =>
    have hchars := validDns_chars hdns
    have hdenote : denote c = .name c := by
      rw [denote, hipv4, parseIpv6_colonless (colonless hchars), hlower]
    have hshape := hdns
    rw [validDns, Bool.and_eq_true, Bool.not_eq_true', Bool.or_eq_false_iff] at hshape
    obtain ⟨⟨hempty, hlong⟩, _⟩ := hshape
    have hlen : c.length ≤ 253 := Nat.not_lt.mp (of_decide_eq_false hlong)
    rw [parseDirectTarget_name hchars (by rw [hostMaxBytes]; omega) hport hpos]
    have hfirst : ¬ (c = [] ∨ hostMaxBytes ≤ c.length ∨ ((none : Option Ipv4Addr).isNone ∧ !validDns c)) := by
      rintro (hnil | hlong | ⟨_, hinvalid⟩)
      · exact absurd hnil (ne_of_beq_false hempty)
      · rw [hostMaxBytes] at hlong
        omega
      · rw [hdns] at hinvalid
        cases hinvalid
    rw [checkHost, if_neg (by decide), hipv4]
    dsimp only
    rw [if_neg hfirst, Option.any_none, if_neg (by decide)]
    exact ⟨fun _ => rfl, fun _ => ⟨_, rfl, rfl, hdenote⟩⟩

/-! ## Normal forms -/

namespace NetworkLemmas

theorem parsePort_le {s : Bytes} {port : Nat} (h : parsePort s = some port) : port ≤ 65535 := by
  unfold parsePort parseUnsigned at h
  dsimp only at h
  rw [Option.ite_none_right_eq_some] at h
  obtain ⟨⟨_, _, hle⟩, heq⟩ := h
  cases heq
  exact hle

theorem authority_port {auth host : Bytes} {port : Nat} (h : authority auth = .ok (host, port)) : port ≤ 65535 := by
  have hdefault : defaultPort ≤ 65535 := by decide
  unfold authority at h
  split at h
  · split at h
    · cases h
    split at h
    · cases h
      exact hdefault
    split at h
    · cases h
    · next hparse =>
      cases h
      obtain ⟨_, _, hparse⟩ := Option.bind_eq_some_iff.mp hparse
      exact parsePort_le hparse
  · split at h
    · split at h
      · cases h
      · cases hparse : parsePort _ with
        | none =>
          rw [hparse] at h
          cases h
        | some p =>
          rw [hparse] at h
          cases h
          exact parsePort_le hparse
    · split at h
      · cases h
        exact hdefault
      · cases h

theorem serverOf_port {value : String} {host : Bytes} {port : Nat} (h : serverOf value = .ok (some (host, port))) :
    port ≤ 65535 := by
  unfold serverOf at h
  dsimp only at h
  split at h
  · cases h
  split at h
  · cases h
  split at h
  · cases h
  cases hauth : authority ((stripPrefix scheme ((Receiver.trim value.toList).flatMap encode)).getD
      ((Receiver.trim value.toList).flatMap encode)) with
  | error e =>
    rw [hauth] at h
    cases h
  | ok p =>
    rw [hauth] at h
    cases h
    exact authority_port hauth

/-- What an accepted text is saved as. -/
theorem normalizeServer_cases {value : String} {v : Bytes} (h : normalizeServer value = .ok v) :
    (serverOf value = .ok none ∧ v = []) ∨
      ∃ host port c, serverOf value = .ok (some (host, port)) ∧ 0 < port ∧ port ≤ 65535 ∧
        Canonical c (denote host) ∧ v = scheme ++ (c ++ 58 :: numeral 10 port) := by
  unfold normalizeServer at h
  cases hserver : serverOf value with
  | error e =>
    rw [hserver] at h
    cases h
  | ok server =>
    rw [hserver] at h
    cases server with
    | none =>
      cases h
      exact .inl ⟨rfl, rfl⟩
    | some p =>
      obtain ⟨host, port⟩ := p
      dsimp only [bind, Except.bind] at h
      split at h
      · cases h
      next hzero =>
      split at h
      · cases h
      · next c hcanonical =>
        cases h
        exact .inr ⟨host, port, c, rfl, Nat.pos_of_ne_zero hzero, serverOf_port hserver,
          canonicalHost_canonical hcanonical, List.append_assoc _ _ _⟩

/-- A byte of a normalised address. -/
def serverByte (b : Byte) : Prop := nameByte b = true ∨ AddressLemmas.Grouped b ∨ b = 91 ∨ b = 93 ∨ b = 58

theorem serverByte_plain (b : Byte) (h : serverByte b) :
    (32 < b.toNat ∧ b.toNat < 127 ∧ b ≠ 47 ∧ b ≠ 63 ∧ b ≠ 35 ∧ b ≠ 64) ∧ b ≠ 60 ∧ b ≠ 38 := by
  unfold serverByte AddressLemmas.Grouped at h
  revert b
  exact forall_byte (by decide +kernel)

variable {port : Nat}

theorem numeral_chars (b : Byte) (hb : b ∈ numeral 10 port) : nameByte b = true :=
  digit_nameByte b (isAsciiDigit_numeral port b hb)

theorem canonical_chars (hc : Canonical c h) : ∀ b ∈ c ++ 58 :: numeral 10 port, serverByte b := by
  intro b hb
  rcases List.mem_append.mp hb with hb | hb
  · cases hc with
    | ipv4 x => exact .inl (display4_chars x b hb)
    | ipv6 x =>
      simp only [List.mem_append, List.mem_cons, List.not_mem_nil, or_false] at hb
      rcases hb with (rfl | hb) | rfl
      · exact .inr (.inr (.inl rfl))
      · exact .inr (.inl (display6_chars x b hb))
      · exact .inr (.inr (.inr (.inl rfl)))
    | name hdns hlower hipv4 => exact .inl (validDns_chars hdns b hb)
  · rcases List.mem_cons.mp hb with rfl | hb
    · exact .inr (.inr (.inr (.inr rfl)))
    · exact .inl (numeral_chars b hb)

theorem length_canonical (hc : Canonical c h) : c.length ≤ 253 := by
  cases hc with
  | ipv4 x => exact Nat.le_trans (AddressLemmas.length_display4 x) (by decide)
  | ipv6 x =>
    have := length_display6 x
    simp only [List.length_append, List.length_cons, List.length_nil]
    omega
  | name hdns hlower hipv4 =>
    rw [validDns, Bool.and_eq_true, Bool.not_eq_true', Bool.or_eq_false_iff] at hdns
    exact Nat.not_lt.mp (of_decide_eq_false hdns.1.2)

theorem parsePort_numeral (hport : port ≤ 65535) : parsePort (numeral 10 port) = some port := by
  have hparse := (@parseUnsigned_digits _ 65535) numeral_ne_nil
    (List.all_eq_true.mpr (isAsciiDigit_numeral port)) (by rw [decimal_numeral]; exact hport)
  rw [decimal_numeral] at hparse
  exact hparse

/-- A host that is not bracketed is cut at the one colon. -/
theorem authority_bare {n : Bytes} (hn : ∀ b ∈ n, nameByte b = true) (hport : port ≤ 65535) :
    authority (n ++ 58 :: numeral 10 port) = .ok (n, port) := by
  have hcolon := colonless hn
  have hcount : (n ++ 58 :: numeral 10 port).count 58 = 1 := by
    rw [List.count_append, List.count_cons_self, List.count_eq_zero.mpr hcolon,
      List.count_eq_zero.mpr colon_numeral]
  have hbare : ∀ rest, n ++ 58 :: numeral 10 port ≠ 91 :: rest := by
    intro rest heq
    cases n with
    | nil => cases heq
    | cons b n =>
      cases heq
      exact (nameByte_plain 91 (hn 91 List.mem_cons_self)).2.2 rfl
  unfold authority
  split
  · next heq => exact absurd heq (hbare _)
  · rw [if_pos hcount, splitOnce_append hcolon]
    dsimp only
    rw [parsePort_numeral hport]
    rfl

theorem all_ascii {n : Bytes} (hn : ∀ b ∈ n, serverByte b) : n.all (· < 128) = true := by
  rw [List.all_eq_true]
  intro b hb
  have := (serverByte_plain b (hn b hb)).1.2.1
  rw [decide_eq_true_eq, UInt8.lt_iff_toNat_lt]
  exact Nat.lt_trans this (by decide)

theorem canonicalHost_bare {n : Bytes} (hne : n ≠ []) (hn : ∀ b ∈ n, serverByte b) :
    ¬ (n = [] ∨ !n.all (· < 128)) := by
  rintro (hnil | hhigh)
  · exact hne hnil
  · rw [all_ascii hn] at hhigh
    cases hhigh

/-- The host of a canonical address is canonical. -/
theorem authority_canonical (hc : Canonical c h) (hport : port ≤ 65535) :
    ∃ host, authority (c ++ 58 :: numeral 10 port) = .ok (host, port) ∧ canonicalHost host = some c := by
  cases hc with
  | ipv4 x =>
    refine ⟨_, authority_bare (display4_chars x) hport, ?_⟩
    rw [canonicalHost, if_neg (canonicalHost_bare (display4_ne_nil x) fun b hb => .inl (display4_chars x b hb)),
      parseIpv4_display]
  | ipv6 x =>
    have hclose : 93 ∉ x.display := fun hmem => (grouped_plain 93 (display6_chars x 93 hmem)).2.2.1 rfl
    have hne : x.display ≠ [] := by
      intro hnil
      have hparse := parseIpv6_display x
      rw [hnil] at hparse
      cases hparse
    refine ⟨x.display, ?_, ?_⟩
    · rw [List.append_assoc, List.cons_append, authority, List.singleton_append, splitOnce_append hclose]
      dsimp only
      have hsuffix : stripPrefix [58] (58 :: numeral 10 port) = some (numeral 10 port) := stripPrefix_append [58] _
      rw [if_neg (List.cons_ne_nil _ _), hsuffix, Option.bind_some, parsePort_numeral hport]
    · rw [canonicalHost, if_neg (canonicalHost_bare hne fun b hb => .inr (.inl (display6_chars x b hb))),
        parseIpv4_display6, parseIpv6_display]
  | name hdns hlower hipv4 =>
    have hchars := validDns_chars hdns
    refine ⟨c, authority_bare hchars hport, ?_⟩
    have hshape := hdns
    rw [validDns, Bool.and_eq_true, Bool.not_eq_true', Bool.or_eq_false_iff] at hshape
    obtain ⟨⟨hempty, hlong⟩, hlabels⟩ := hshape
    have hdots : ¬ (253 < c.length ∨ c.head? = some 46 ∨ c.getLast? = some 46) := by
      have hlabel : [] ∉ c.splitOn 46 := fun hmem => absurd (List.all_eq_true.mp hlabels [] hmem) (by decide)
      rintro (hlen | hhead | hlast)
      · exact of_decide_eq_false hlong hlen
      · obtain ⟨rest, rfl⟩ := List.head?_eq_some_iff.mp hhead
        exact hlabel (List.splitOn_append_cons_self (a := (46 : Byte)) [] rest ▸ List.mem_cons_self)
      · obtain ⟨front, rfl⟩ := List.getLast?_eq_some_iff.mp hlast
        exact hlabel (List.splitOn_append_cons_self (a := (46 : Byte)) front [] ▸
          List.mem_append_right _ (List.mem_singleton_self _))
    rw [canonicalHost, if_neg (canonicalHost_bare (ne_of_beq_false hempty) fun b hb => .inl (hchars b hb)),
      hipv4, parseIpv6_colonless (colonless hchars)]
    dsimp only
    rw [if_neg hdots, if_pos hlabels, hlower]

/-- Text of printable ASCII has nothing to trim. -/
theorem trim_plain {t : String} (h : ∀ b ∈ utf8 t, 32 < b.toNat ∧ b.toNat < 127) :
    Receiver.trim t.toList = t.toList := by
  have hword : ∀ c ∈ t.toList, Receiver.isWhitespace c = false := by
    intro c hc
    have hmem : ∀ b ∈ encode c, b ∈ utf8 t := by
      intro b hb
      rw [utf8_eq]
      exact List.mem_flatMap.mpr ⟨c, hc, hb⟩
    rcases encode_cases c with ⟨hascii, hencode⟩ | ⟨hhigh, hbytes⟩
    · have hbyte := h _ (hmem _ (hencode ▸ List.mem_singleton_self _))
      rw [UInt8.toNat_ofNat_of_lt' (Nat.lt_trans hascii (by decide))] at hbyte
      simp only [Receiver.isWhitespace, Bool.or_eq_false_iff, Bool.and_eq_false_iff, decide_eq_false_iff_not,
        beq_eq_false_iff_ne, ne_eq]
      omega
    · obtain ⟨b, hb⟩ := List.exists_mem_of_ne_nil (encode c) String.utf8EncodeChar_ne_nil
      have := (h b (hmem b hb)).2
      have := UInt8.le_iff_toNat_le.mp (hbytes b hb)
      exact absurd (Nat.lt_of_le_of_lt this ‹_›) (by decide)
  have hnone (cs : List Char) (hcs : ∀ c ∈ cs, Receiver.isWhitespace c = false) :
      cs.dropWhile Receiver.isWhitespace = cs := by
    cases cs with
    | nil => rfl
    | cons c cs => rw [List.dropWhile_cons, hcs c List.mem_cons_self]; rfl
  rw [Receiver.trim, hnone _ hword, hnone _ fun c hc => hword c (List.mem_reverse.mp hc), List.reverse_reverse]

/-- A canonical address is its own normal form. -/
theorem normalizeServer_canonical (hc : Canonical c h) (hport : port ≤ 65535) (hpos : 0 < port) {t : String}
    (ht : utf8 t = scheme ++ (c ++ 58 :: numeral 10 port)) : normalizeServer t = .ok (utf8 t) := by
  have hchars := (@canonical_chars port) hc
  have hplain : ∀ b ∈ utf8 t, 32 < b.toNat ∧ b.toNat < 127 := by
    intro b hb
    rw [ht] at hb
    rcases List.mem_append.mp hb with hb | hb
    · have hscheme : ∀ b ∈ scheme, 32 < b.toNat ∧ b.toNat < 127 := by decide
      exact hscheme b hb
    · have := (serverByte_plain b (hchars b hb)).1
      exact ⟨this.1, this.2.1⟩
  have htrim : (Receiver.trim t.toList).flatMap encode = utf8 t := by
    rw [trim_plain hplain, utf8_eq]
  have hne : utf8 t ≠ [] := by
    rw [ht]
    exact List.cons_ne_nil _ _
  have hallowed : ¬ (512 < (utf8 t).length ∨
      ((utf8 t).any fun c => !(32 ≤ c && c < 128) || c == 127) = true) := by
    rintro (hlong | hbad)
    · have hcanonical := length_canonical hc
      have hdigits := length_port hport
      have hscheme : scheme.length = 6 := by decide
      rw [ht, List.length_append, List.length_append, List.length_cons, hscheme] at hlong
      omega
    · obtain ⟨b, hb, hbad⟩ := List.any_eq_true.mp hbad
      have hrange := hplain b hb
      have hlow : (32 : Byte) ≤ b := UInt8.le_iff_toNat_le.mpr (Nat.le_of_lt hrange.1)
      have hhigh : b < 128 := UInt8.lt_iff_toNat_lt.mpr (Nat.lt_succ_of_lt hrange.2)
      have hdelete : (b == 127) = false := beq_false_of_ne fun h => by
        rw [h] at hrange
        exact absurd hrange.2 (by decide)
      rw [decide_eq_true hlow, decide_eq_true hhigh, hdelete] at hbad
      cases hbad
  have hclean : ¬ ((c ++ 58 :: numeral 10 port).any fun c => c == 47 || c == 63 || c == 35 || c == 64) = true := by
    intro hbad
    obtain ⟨b, hb, hbad⟩ := List.any_eq_true.mp hbad
    obtain ⟨_, _, hslash, hquery, hhash, hat⟩ := (serverByte_plain b (hchars b hb)).1
    simp only [Bool.or_eq_true, beq_iff_eq] at hbad
    rcases hbad with ((h | h) | h) | h <;> contradiction
  obtain ⟨host, hauthority, hcanonical⟩ := authority_canonical hc hport
  have hserver : serverOf t = .ok (some (host, port)) := by
    unfold serverOf
    dsimp only
    rw [htrim, if_neg hne, if_neg hallowed, ht, stripPrefix_append, Option.getD_some, if_neg hclean, hauthority]
    rfl
  rw [normalizeServer, hserver]
  dsimp only [bind, Except.bind]
  rw [if_neg (Nat.ne_of_gt hpos), hcanonical, ht]
  exact congrArg Except.ok (List.append_assoc _ _ _)

end NetworkLemmas

/-- A normalised address is its own normal form. -/
theorem normalizeServer_normal {value t : String} {v : Bytes} (h : normalizeServer value = .ok v) (ht : utf8 t = v) :
    normalizeServer t = .ok v := by
  subst ht
  rcases normalizeServer_cases h with ⟨_, hempty⟩ | ⟨host, port, c, _, hpos, hport, hc, hv⟩
  · have hnil : t = "" := utf8_injective hempty
    subst hnil
    rfl
  · exact normalizeServer_canonical hc hport hpos hv

/-- The bytes of a normalised address are printable and none of them is markup. -/
theorem normalizeServer_plain {value : String} {v : Bytes} (h : normalizeServer value = .ok v) :
    ∀ b ∈ v, b < 128 ∧ b ≠ 60 ∧ b ≠ 38 := by
  have hserver : ∀ b : Byte, serverByte b → b < 128 ∧ b ≠ 60 ∧ b ≠ 38 := fun b hb =>
    have hplain := serverByte_plain b hb
    ⟨UInt8.lt_iff_toNat_lt.mpr (Nat.lt_succ_of_lt hplain.1.2.1), hplain.2⟩
  rcases normalizeServer_cases h with ⟨_, rfl⟩ | ⟨host, port, c, _, _, _, hc, rfl⟩
  · exact nofun
  · intro b hb
    rcases List.mem_append.mp hb with hb | hb
    · have hscheme : ∀ b ∈ scheme, b < 128 ∧ b ≠ 60 ∧ b ≠ 38 := by decide
      exact hscheme b hb
    · exact hserver b (canonical_chars hc b hb)

/-- **The address that is saved is the one the receiver reads.** For every text that names a
server, the receiver accepts the address that is saved for it, and reads it as the same host
and port, exactly when the host is not an unspecified, multicast, broadcast or link-local
address. -/
theorem server_accepted_iff (value : String) (v : Bytes) (h : normalizeServer value = .ok v) (hne : v ≠ []) :
    ∃ host port, serverOf value = .ok (some (host, port)) ∧
      ((∃ t, parseDirectTarget v = .ok t ∧ t.port = port ∧ denote t.host = denote host) ↔
        (denote host).undiallable = false) := by
  rcases normalizeServer_cases h with ⟨_, hempty⟩ | ⟨host, port, c, hserver, hpos, hport, hc, rfl⟩
  · exact absurd hempty hne
  · exact ⟨host, port, hserver, parseDirectTarget_canonical hc hport hpos⟩

theorem pi_server_accepted :
    normalizeServer "Pi.Example:7000" = .ok (utf8 "omt://pi.example:7000") ∧
      ∃ host port, serverOf "Pi.Example:7000" = .ok (some (host, port)) ∧
        ((∃ t, parseDirectTarget (utf8 "omt://pi.example:7000") = .ok t ∧ t.port = port ∧ denote t.host = denote host) ↔
          (denote host).undiallable = false) :=
  ⟨by decide +kernel, server_accepted_iff "Pi.Example:7000" _ (by decide +kernel) (by decide)⟩

/-- A multicast address is saved, and the receiver refuses it. -/
theorem multicast_server_refused :
    normalizeServer "224.0.0.1" = .ok (utf8 "omt://224.0.0.1:6399") ∧
      parseDirectTarget (utf8 "omt://224.0.0.1:6399") = .error (invalidTarget "OMT target host") := by
  decide +kernel

end OmtClient.Web.Network
