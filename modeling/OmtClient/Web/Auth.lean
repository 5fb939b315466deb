import Mathlib.Data.List.Lex
import Mathlib.Data.Prod.Lex
import OmtClient.Common.JsonDoc
import OmtClient.Common.JsonSound
import OmtClient.Lib.Evict
import OmtClient.Lib.Text
import OmtClient.Web.Playback

/-!
# Sessions

`crates/omt-web/src/auth.rs`: the operator's password, the session registry and the CSRF
tokens. The registry is one file that each operation reads, changes and replaces as a
whole; the clock, the random identifier and what the disk does are inputs. The keyed hash
and the password hashes are the system library's.

1. `readRegistry_holdable`: what a registry file holds, whatever its bytes.
2. `readRegistry_registryText`: a written registry reads back as its records.
-/

namespace OmtClient.Web.Session

open OmtClient.Lib OmtClient.Common

def minimumPasswordBytes : Nat := 12
def maximumPasswordBytes : Nat := 128
def sessionIdHex : Nat := 64
def secretLimit : Nat := 256
def passwordLimit : Nat := 16 * 1024
def registryLimit : Nat := 64 * 1024
def maximumSessions : Nat := 64
def pbkdf2Iterations : Nat := 600000

/-- The functions of the system's cryptographic library; each may fail. -/
structure Crypto where
  hmacSha256 : Bytes → Bytes → Option Bytes
  /-- Password, salt, iterations and output length. -/
  pbkdf2Sha256 : Bytes → Bytes → Nat → Nat → Option Bytes
  /-- Password, salt, the parameters N, r and p, and output length. -/
  scrypt : Bytes → Bytes → Nat → Nat → Nat → Nat → Option Bytes

/-- `hex`: lower-case hexadecimal. -/
def hex (bytes : Bytes) : String :=
  String.ofList (bytes.flatMap fun b => [Nat.digitChar (b.toNat / 16), Nat.digitChar (b.toNat % 16)])

/-! ## The password -/

/-- A stored password: a PBKDF2-SHA256 or scrypt hash, or plaintext. -/
inductive Password
  | plain (p : Bytes)
  | pbkdf2 (iterations : Nat) (salt digest : Bytes)
  | scrypt (n r p : Nat) (salt digest : Bytes)
  deriving DecidableEq, Repr

/-- The bytes that pairs of hexadecimal digits denote. -/
def hexPairs : Bytes → Option Bytes
  | hi :: lo :: rest => do
    let h ← toDigit 16 hi
    let l ← toDigit 16 lo
    let bytes ← hexPairs rest
    some (UInt8.ofNat (h * 16 + l) :: bytes)
  | _ => some []

/-- `hex_decode`. -/
def hexDecode (s : Bytes) (cap : Nat) : Option Bytes :=
  if s.length % 2 ≠ 0 ∨ cap < s.length / 2 then none else hexPairs s

/-- `u32::from_str`. -/
def parseU32 (s : Bytes) : Option Nat := parseUnsigned (2 ^ 32 - 1) s

def isPowerOfTwo (n : Nat) : Bool := n != 0 && n &&& (n - 1) == 0

/-- The three scrypt parameters, each a `u32`. -/
def scryptParams (text : Bytes) : Except String (Nat × Nat × Nat) :=
  let number (part : Option Bytes) (name : String) : Except String Nat :=
    match part with
    | none => .error ("missing scrypt " ++ name)
    | some part => (parseU32 part).elim (.error ("invalid scrypt " ++ name)) .ok
  let parts := text.splitOn 58
  do
    let n ← number parts[0]? "N"
    let r ← number parts[1]? "r"
    let p ← number parts[2]? "p"
    if 3 < parts.length then .error "invalid scrypt parameters" else .ok (n, r, p)

/-- `Password::parse`. -/
def Password.parse (value : Bytes) : Except String Password :=
  match stripPrefix (utf8 "pbkdf2:sha256:") value with
  | some rest =>
    match splitOnce 36 rest with
    | none => .error "invalid PBKDF2 password hash"
    | some (count, rest) =>
      match splitOnce 36 rest with
      | none => .error "invalid PBKDF2 password hash"
      | some (salt, digits) =>
        match (parseU32 count).filter (· != 0) with
        | none => .error "invalid PBKDF2 iterations"
        | some iterations =>
          match hexDecode digits 64 with
          | none => .error "invalid hexadecimal value"
          | some digest =>
            if digest.length ≠ 32 then .error "invalid PBKDF2 SHA-256 digest length"
            else .ok (.pbkdf2 iterations salt digest)
  | none =>
    match stripPrefix (utf8 "scrypt:") value with
    | some rest =>
      match splitOnce 36 rest with
      | none => .error "invalid scrypt password hash"
      | some (params, rest) => do
        let (n, r, p) ← scryptParams params
        if n < 2 ∨ !isPowerOfTwo n then .error "invalid scrypt parameters"
        else
          match splitOnce 36 rest with
          | none => .error "invalid scrypt password hash"
          | some (salt, digits) =>
            let outLen := digits.length / 2
            if r = 0 ∨ p = 0 ∨ 2 ^ 30 ≤ r * p ∨ outLen < 10 ∨ 64 < outLen then
              .error "unsupported scrypt parameters"
            else
              match hexDecode digits 64 with
              | none => .error "invalid hexadecimal value"
              | some digest => .ok (.scrypt n r p salt digest)
    | none =>
      if (utf8 "argon2:").isPrefixOf value ∨ (utf8 "pbkdf2:").isPrefixOf value then
        .error "The Web GUI password hash uses an unsupported format"
      else .ok (.plain value)

/-- `scrypt` of `crates/omt-crypto/src/lib.rs`: the bounds it checks before any work. -/
def scryptChecked (c : Crypto) (password salt : Bytes) (n r p outLen : Nat) : Option Bytes :=
  if n < 2 ∨ !isPowerOfTwo n ∨ r = 0 ∨ p = 0 ∨ 2 ^ 30 ≤ r * p ∨ outLen < 10 ∨ 64 < outLen then none
  else if 2 ^ 30 < 128 * r * n * 2 + 128 * r * p then none
  else c.scrypt password salt n r p outLen

/-- `Password::verify`. -/
def Password.verify (c : Crypto) (password : Password) (supplied : Bytes) : Bool :=
  match password with
  | .plain p => p == supplied
  | .pbkdf2 iterations salt digest =>
    (c.pbkdf2Sha256 supplied salt iterations digest.length).any (· == digest)
  | .scrypt n r p salt digest => (scryptChecked c supplied salt n r p digest.length).any (· == digest)

/-! ## The registry -/

structure Record where
  key : String
  expiresAt : Nat
  passwordDigest : String
  deriving DecidableEq, Repr

/-- `keyed_hex`. -/
def keyedHex (c : Crypto) (key data : Bytes) : Option String :=
  ((c.hmacSha256 key data).map hex).filter fun h => (utf8 h).length == sessionIdHex

/-- What a login needs; the digest is the keyed hash of the password as it is stored. -/
structure Auth (c : Crypto) where
  sessionLifetime : Nat
  secret : Bytes
  password : Password
  passwordDigest : String
  derived : ∃ text, keyedHex c secret text = some passwordDigest

/-- `read_trimmed`: nothing when the file is missing or blank. -/
def readTrimmed (file : Option Bytes) (limit : Nat) : Except String (Option String) := do
  match ← readText file limit with
  | none => .ok none
  | some text =>
    let trimmed := String.ofList (Receiver.trim text.toList)
    .ok (if trimmed = "" then none else some trimmed)

/-- The password as it is stored: the emergency override, or else the password file. -/
def passwordText (emergency : Option String) (passwordFile : Option Bytes) : Except String String :=
  match emergency with
  | some p => .ok p
  | none => do
    match ← readTrimmed passwordFile passwordLimit with
    | none => .error "The Web GUI password file is missing or unsafe"
    | some p => .ok p

def secretText (secretFile : Option Bytes) : Except String String := do
  match ← readTrimmed secretFile secretLimit with
  | none => .error "The Web secret is missing or unsafe"
  | some s => .ok s

/-- `Auth::load`. -/
def Auth.load (c : Crypto) (secretFile : Option Bytes) (emergency : Option String) (passwordFile : Option Bytes)
    (sessionLifetime : Nat) : Except String (Auth c) := do
  let secret ← secretText secretFile
  let password ← passwordText emergency passwordFile
  match h : keyedHex c (utf8 secret) (utf8 password) with
  | none => .error "unable to derive the password digest"
  | some passwordDigest => do
    let parsed ← Password.parse (utf8 password)
    .ok { sessionLifetime, secret := utf8 secret, password := parsed, passwordDigest, derived := ⟨_, h⟩ }

section

variable {F : Type} (dec : Json.Decimal F)

/-- One record of the registry, after those read before it. -/
def readRecord (out : List Record) (member : String × Json.Value F) : Option (List Record) :=
  let (key, rec) := member
  match (rec.get "expires_at").bind Json.Value.asU64, (rec.get "password_digest").bind Json.Value.asStr with
  | some expiresAt, some digest =>
    if rec.onlyKeys ["expires_at", "password_digest"] ∧ (utf8 digest).length ≤ sessionIdHex ∧
        (utf8 key).length ≤ sessionIdHex ∧ out.length < maximumSessions + 1 then
      some (out ++ [⟨key, expiresAt, digest⟩])
    else none
  | _, _ => none

/-- `read_registry`: anything but a well-formed registry reads as empty. -/
def readRegistry (file : Option Bytes) : List Record :=
  match readText file registryLimit with
  | .ok (some text) =>
    match Json.parse dec (utf8 text) with
    | .error _ => []
    | .ok root =>
      match (root.get "sessions").bind Json.Value.asObject with
      | none => []
      | some sessions =>
        if !root.onlyKeys ["version", "sessions"] ∨ (root.get "version").bind Json.Value.asU64 ≠ some 2 then []
        else (sessions.foldlM (readRecord) []).getD []
  | _ => []

end

/-- The bytes of a key as numbers, which compare as the texts do. -/
def keyRank (s : String) : List Nat := (utf8 s).map UInt8.toNat

/-- The order in which sessions give way: by expiry, then by key. -/
def Record.rank (r : Record) : ℕ ×ₗ List ℕ := toLex (r.expiresAt, keyRank r.key)

def recordText (r : Record) : Bytes :=
  Json.writeString r.key ++ utf8 ":\x7b\"expires_at\":" ++ numeral 10 r.expiresAt ++
    utf8 ",\"password_digest\":" ++ Json.writeString r.passwordDigest ++ utf8 "\x7d"

/-- The registry's document. -/
def registryText (records : List Record) : Bytes :=
  utf8 "\x7b\"version\":2,\"sessions\":\x7b" ++ [44].intercalate (records.map recordText) ++ utf8 "\x7d\x7d\n"

def sortByKey (records : List Record) : List Record :=
  records.mergeSort fun a b => decide (keyRank a.key ≤ keyRank b.key)

/-- What the disk does with a replacement: it takes effect, fails, or takes effect and is
then reported as failed because the directory could not be synced. -/
inductive Disk
  | written
  | failed
  | unsynced
  deriving DecidableEq, Repr

/-- `atomic_replace`. -/
def atomicReplace (disk : Disk) (file : Option Bytes) (data : Bytes) (maximum : Nat) :
    Except String Unit × Option Bytes :=
  if maximum < data.length then (.error "replacement exceeds its size limit", file)
  else
    match disk with
    | .written => (.ok (), some data)
    | .failed => (.error "unable to replace the file", file)
    | .unsynced => (.error "unable to sync the directory", some data)

/-- `write_registry`. -/
def writeRegistry (disk : Disk) (file : Option Bytes) (records : List Record) :
    Except String Unit × Option Bytes :=
  let out := registryText (sortByKey records)
  if registryLimit < out.length then (.error "session registry exceeds its size limit", file)
  else atomicReplace disk file out registryLimit

section

variable {c : Crypto} {F : Type} (dec : Json.Decimal F) (a : Auth c)

/-- `session_digest`. -/
def Auth.sessionDigest (id : String) : Option String := keyedHex c a.secret (utf8 id)

/-- Which records stay when a session is issued. -/
def Auth.survives (now : Nat) (previous : Option String) (r : Record) : Bool :=
  decide (now < r.expiresAt) && r.passwordDigest == a.passwordDigest && previous != some r.key

/-- The record of a session that is issued now. -/
def Auth.fresh (key : String) (now : Nat) : Record :=
  ⟨key, min (now + a.sessionLifetime) (2 ^ 64 - 1), a.passwordDigest⟩

/-- `Iterator::rposition`. -/
def rposition {α : Type} (p : α → Bool) (l : List α) : Option Nat :=
  (l.reverse.findIdx? p).map fun i => l.length - 1 - i

/-- A record in the place of one with its key, or else at the end. -/
def replaceOrPush (records : List Record) (r : Record) : List Record :=
  match rposition (fun x => x.key == r.key) records with
  | some i => records.set i r
  | none => records ++ [r]

/-- `authenticate`. -/
def Auth.authenticate (password : Bytes) (previous : Option String) (random : Option String) (now : Nat)
    (disk : Disk) (file : Option Bytes) : Except String (Option String) × Option Bytes :=
  if !a.password.verify c password then (.ok none, file)
  else
    match random with
    | none => (.error "unable to read randomness", file)
    | some session =>
      let previousDigest := previous.bind a.sessionDigest
      let records := (readRegistry dec file).filter (a.survives now previousDigest)
      match a.sessionDigest session with
      | none => (.error "unable to derive the session key", file)
      | some key =>
        let records := evict Record.rank maximumSessions (replaceOrPush records (a.fresh key now))
        match writeRegistry disk file records with
        | (.error e, file) => (.error e, file)
        | (.ok (), file) => (.ok (some session), file)

/-- `is_current`. -/
def Auth.isCurrent (id : String) (now : Nat) (file : Option Bytes) : Bool :=
  match a.sessionDigest id with
  | none => false
  | some digest => (readRegistry dec file).any fun r =>
    r.key == digest && decide (now < r.expiresAt) && r.passwordDigest == a.passwordDigest

/-- `revoke`. -/
def Auth.revoke (id : String) (disk : Disk) (file : Option Bytes) : Except String Unit × Option Bytes :=
  match a.sessionDigest id with
  | none => (.error "unable to derive the session key", file)
  | some digest =>
    let records := readRegistry dec file
    match records.findIdx? fun r => r.key == digest with
    | some i => writeRegistry disk file (swapRemove records i)
    | none => (.ok (), file)

/-- `csrf_token`. -/
def Auth.csrfToken (scope nonce : String) : Option String :=
  let msg := utf8 "csrf\x00" ++ utf8 scope ++ [0] ++ utf8 nonce
  if 4096 < msg.length then none else keyedHex c a.secret msg

/-- `verify_csrf`. -/
def Auth.verifyCsrf (scope nonce token : String) : Bool :=
  (a.csrfToken scope nonce).any fun e => utf8 e == utf8 token

end

/-! ## Changing the password -/

/-- `validate_new_password`. -/
def validateNewPassword (password : String) : Except String Unit :=
  let size := (utf8 password).length
  if size < minimumPasswordBytes ∨ maximumPasswordBytes < size then
    .error "The Web GUI password must contain 12-128 UTF-8 bytes"
  else if password.toList.any Receiver.isControl then
    .error "The Web GUI password must not contain control characters"
  else .ok ()

/-- `encode_password`, with the random salt. -/
def encodePassword (c : Crypto) (salt : Option String) (password : String) : Except String Bytes :=
  match salt with
  | none => .error "unable to read randomness"
  | some salt =>
    match c.pbkdf2Sha256 (utf8 password) (utf8 salt) pbkdf2Iterations 32 with
    | none => .error "unable to derive the password hash"
    | some digest =>
      .ok (utf8 "pbkdf2:sha256:600000$" ++ utf8 salt ++ utf8 "$" ++ utf8 (hex digest) ++ utf8 "\n")

/-- `replace_password`. -/
def replacePassword (c : Crypto) (emergency : Option String) (password : String) (salt : Option String)
    (disk : Disk) (file : Option Bytes) : Except String Unit × Option Bytes :=
  if emergency.isSome then
    (.error "OMT_WEB_PASSWORD overrides the password file; remove the emergency override first", file)
  else
    match validateNewPassword password with
    | .error e => (.error e, file)
    | .ok () =>
      match encodePassword c salt password with
      | .error e => (.error e, file)
      | .ok encoded => atomicReplace disk file encoded passwordLimit

/-! ## What a registry file holds -/

/-- A record that fits the registry's limits. -/
structure WellFormed (r : Record) : Prop where
  expires : r.expiresAt < 2 ^ 64
  key : (utf8 r.key).length ≤ sessionIdHex
  digest : (utf8 r.passwordDigest).length ≤ sessionIdHex
  text : PlaybackLemmas.nulFree r.passwordDigest = true

/-- Records that a registry file can hold. -/
structure Holdable (records : List Record) : Prop where
  wellFormed : ∀ r ∈ records, WellFormed r
  keys : (records.map Record.key).Nodup
  few : records.length ≤ maximumSessions + 1

namespace AuthLemmas

variable {c : Crypto} {F : Type} {dec : Json.Decimal F}

theorem hex_digits (bytes : Bytes) :
    (utf8 (hex bytes)).length = 2 * bytes.length ∧ PlaybackLemmas.nulFree (hex bytes) = true := by
  have hdigit : ∀ n, n < 16 → (encode (Nat.digitChar n)).length = 1 ∧ Nat.digitChar n ≠ '\x00' := by decide
  have hbyte (b : Byte) : b.toNat / 16 < 16 ∧ b.toNat % 16 < 16 := by
    have := b.toNat_lt
    exact ⟨by omega, by omega⟩
  constructor
  · rw [hex, utf8_ofList]
    induction bytes with
    | nil => rfl
    | cons b bytes ih =>
      rw [List.flatMap_cons, List.flatMap_append, List.length_append, ih]
      simp only [List.flatMap_cons, List.flatMap_nil, List.append_nil, List.length_append,
        (hdigit _ (hbyte b).1).1, (hdigit _ (hbyte b).2).1, List.length_cons]
      omega
  · rw [PlaybackLemmas.nulFree, hex, String.toList_ofList]
    simp only [Bool.not_eq_true', List.contains_eq_mem, decide_eq_false_iff_not, List.mem_flatMap,
      List.mem_cons, List.not_mem_nil, or_false, not_exists, not_and, not_or]
    intro b _
    exact ⟨fun h => (hdigit _ (hbyte b).1).2 h.symm, fun h => (hdigit _ (hbyte b).2).2 h.symm⟩

theorem keyedHex_text {key data : Bytes} {h : String} (heq : keyedHex c key data = some h) :
    (utf8 h).length = sessionIdHex ∧ PlaybackLemmas.nulFree h = true := by
  obtain ⟨hmac, hlen⟩ := Option.filter_eq_some_iff.mp heq
  obtain ⟨tag, _, rfl⟩ := Option.map_eq_some_iff.mp hmac
  exact ⟨beq_iff_eq.mp hlen, (hex_digits tag).2⟩

theorem asStr_nulFree {v : Json.Value F} {s : String} (h : v.asStr = some s) :
    PlaybackLemmas.nulFree s = true := by
  cases v with
  | string t =>
    rw [PlaybackLemmas.asStr_string] at h
    obtain ⟨hfree, heq⟩ := Option.ite_none_right_eq_some.mp h
    exact Option.some.inj heq ▸ hfree
  | null => cases h
  | bool b => cases h
  | number n => cases h
  | array items => cases h
  | object members => cases h

/-- One record read: its key is the member's, and it fits. -/
theorem readRecord_some {out out' : List Record} {member : String × Json.Value F} (hsound : Json.Sound member.2)
    (h : readRecord out member = some out') :
    ∃ r, out' = out ++ [r] ∧ r.key = member.1 ∧ WellFormed r ∧ out.length < maximumSessions + 1 := by
  unfold readRecord at h
  dsimp only at h
  split at h
  · next expires digest hexpires hdigest =>
    obtain ⟨hfits, heq⟩ := Option.ite_none_right_eq_some.mp h
    obtain ⟨item, hitem, hu64⟩ := Option.bind_eq_some_iff.mp hexpires
    obtain ⟨text, _, hstr⟩ := Option.bind_eq_some_iff.mp hdigest
    refine ⟨⟨member.1, expires, digest⟩, (Option.some.inj heq).symm, rfl, ?_, hfits.2.2.2⟩
    exact ⟨Json.asU64_lt (Json.sound_get hsound hitem) hu64, hfits.2.2.1, hfits.2.1, asStr_nulFree hstr⟩
  · cases h

theorem readRecords_some {sessions : List (String × Json.Value F)} (hsound : ∀ m ∈ sessions, Json.Sound m.2)
    {out out' : List Record} (hout : ∀ r ∈ out, WellFormed r) (hfew : out.length ≤ maximumSessions + 1)
    (h : sessions.foldlM readRecord out = some out') :
    (∀ r ∈ out', WellFormed r) ∧ out'.map Record.key = out.map Record.key ++ sessions.map Prod.fst ∧
      out'.length ≤ maximumSessions + 1 := by
  induction sessions generalizing out with
  | nil =>
    cases h
    exact ⟨hout, (List.append_nil _).symm, hfew⟩
  | cons m sessions ih =>
    rw [List.foldlM_cons] at h
    obtain ⟨next, hnext, hrest⟩ := Option.bind_eq_some_iff.mp h
    obtain ⟨r, rfl, hkey, hr, hroom⟩ := readRecord_some (hsound m List.mem_cons_self) hnext
    have hall : ∀ x ∈ out ++ [r], WellFormed x := by
      intro x hx
      rcases List.mem_append.mp hx with hx | hx
      · exact hout x hx
      · cases List.mem_singleton.mp hx
        exact hr
    obtain ⟨hout', hkeys, hlen⟩ := ih (fun x hx => hsound x (List.mem_cons_of_mem _ hx)) hall
      (by rw [List.length_append]; exact hroom) hrest
    refine ⟨hout', ?_, hlen⟩
    rw [hkeys, List.map_append, List.map_cons, List.map_nil, hkey, List.append_assoc]
    rfl

end AuthLemmas

open AuthLemmas

/-- Whatever its bytes, a registry file reads as records that one can hold. -/
theorem readRegistry_holdable {F : Type} (dec : Json.Decimal F) (file : Option Bytes) :
    Holdable (readRegistry dec file) := by
  have hnil : Holdable [] := ⟨fun _ h => (nomatch h), List.nodup_nil, Nat.zero_le _⟩
  unfold readRegistry
  split
  · split
    · exact hnil
    · next root hparse =>
      split
      · exact hnil
      · next sessions hsessions =>
        split
        · exact hnil
        · obtain ⟨item, hitem, hobject⟩ := Option.bind_eq_some_iff.mp hsessions
          have hsound : Json.Sound item := Json.sound_get (Json.parse_sound hparse) hitem
          cases item with
          | object members =>
            cases hobject
            obtain ⟨hkeys, hall⟩ := Json.sound_members hsound
            cases hread : sessions.foldlM readRecord [] with
            | none => exact hnil
            | some out =>
              obtain ⟨hout, hmap, hlen⟩ := (@readRecords_some _ _ hall []) (fun _ h => nomatch h) (Nat.zero_le _) hread
              rw [List.map_nil, List.nil_append] at hmap
              exact ⟨hout, hmap ▸ hkeys, hlen⟩
          | null => cases hobject
          | bool b => cases hobject
          | number n => cases hobject
          | string s => cases hobject
          | array items => cases hobject
  · exact hnil

/-! ## Writing and reading back -/

namespace AuthLemmas

variable {c : Crypto} {F : Type} {dec : Json.Decimal F}

/-- A record's value in the registry. -/
def recordValue (float : Nat → F) (r : Record) : Json.Value F :=
  .object [("expires_at", .number ⟨true, false, some r.expiresAt, float r.expiresAt⟩),
    ("password_digest", .string r.passwordDigest)]

def recordBytes (r : Record) : Bytes :=
  Json.recordBytes [("expires_at", numeral 10 r.expiresAt), ("password_digest", Json.writeString r.passwordDigest)]

theorem recordText_eq (r : Record) : recordText r = Json.writeString r.key ++ 58 :: recordBytes r := by
  have hfirst : utf8 ":\x7b\"expires_at\":" = 58 :: 123 :: (Json.writeString "expires_at" ++ [58]) := by decide
  have hnext : utf8 ",\"password_digest\":" = 44 :: (Json.writeString "password_digest" ++ [58]) := by decide
  have hlast : utf8 "\x7d" = [125] := by decide
  rw [recordText, hfirst, hnext, hlast, recordBytes, Json.recordBytes, List.map_cons, List.map_cons, List.map_nil,
    List.intercalate_cons_cons, List.intercalate_singleton]
  simp only [List.append_assoc, List.cons_append, List.nil_append]

theorem registryText_eq (records : List Record) :
    registryText records = Json.recordBytes [("version", [50]),
      ("sessions", Json.recordBytes (records.map fun r => (r.key, recordBytes r)))] ++ [10] := by
  have hfirst : utf8 "\x7b\"version\":2,\"sessions\":\x7b" =
      123 :: (Json.writeString "version" ++ 58 :: 50 :: 44 :: (Json.writeString "sessions" ++ [58, 123])) := by
    decide
  have hlast : utf8 "\x7d\x7d\n" = [125, 125, 10] := by decide
  have hrecords : records.map recordText =
      (records.map fun r => (r.key, recordBytes r)).map fun f => Json.writeString f.1 ++ 58 :: f.2 := by
    rw [List.map_map]
    exact List.map_congr_left fun r _ => recordText_eq r
  rw [registryText, hfirst, hlast, hrecords, Json.recordBytes, List.map_cons, List.map_cons, List.map_nil,
    List.intercalate_cons_cons, List.intercalate_singleton, Json.recordBytes]
  simp only [List.append_assoc, List.cons_append, List.nil_append]

/-- The floats that go with the numbers of a registry. -/
theorem exists_floats (dec : Json.Decimal F) : ∃ float : Nat → F, ∀ n, n < 2 ^ 64 →
    Json.Written dec 0 (numeral 10 n) (.number ⟨true, false, some n, float n⟩) := by
  obtain ⟨v, _⟩ := Json.written_number dec (show 0 < 2 ^ 64 by decide)
  have hall (n : Nat) : ∃ v, n < 2 ^ 64 →
      Json.Written dec 0 (numeral 10 n) (.number ⟨true, false, some n, v⟩) := by
    by_cases hn : n < 2 ^ 64
    · obtain ⟨v, hv⟩ := Json.written_number dec hn
      exact ⟨v, fun _ => hv⟩
    · exact ⟨v, fun h => absurd h hn⟩
  exact ⟨fun n => Classical.choose (hall n), fun n => Classical.choose_spec (hall n)⟩

theorem written_recordBytes {float : Nat → F}
    (hfloat : ∀ n, n < 2 ^ 64 → Json.Written dec 0 (numeral 10 n) (.number ⟨true, false, some n, float n⟩))
    {r : Record} (h : WellFormed r) : Json.Written dec 1 (recordBytes r) (recordValue float r) := by
  refine Json.written_record [⟨"expires_at", _, .number ⟨true, false, some r.expiresAt, float r.expiresAt⟩⟩,
    ⟨"password_digest", _, .string r.passwordDigest⟩] (fun f hf => ?_)
    (show ["expires_at", "password_digest"].Nodup by decide)
  rcases List.mem_cons.mp hf with rfl | hf
  · exact hfloat _ h.expires
  · cases List.mem_singleton.mp hf
    exact Json.written_text _

/-- The registry's document, as a value of its own. -/
theorem written_registry (dec : Json.Decimal F) {records : List Record} (h : Holdable records) :
    ∃ float two, Json.Written dec 3 (Json.recordBytes [("version", [50]),
        ("sessions", Json.recordBytes (records.map fun r => (r.key, recordBytes r)))])
      (.object [("version", .number ⟨true, false, some 2, two⟩),
        ("sessions", .object (records.map fun r => (r.key, recordValue float r)))]) := by
  obtain ⟨float, hfloat⟩ := exists_floats dec
  refine ⟨float, float 2, ?_⟩
  have hsessions : Json.Written dec 2 (Json.recordBytes (records.map fun r => (r.key, recordBytes r)))
      (.object (records.map fun r => (r.key, recordValue float r))) := by
    have hrecord := (@Json.written_record _ dec 1)
      (records.map fun r => (⟨r.key, recordBytes r, recordValue float r⟩ : Json.Field F)) (fun f hf => ?_) ?_
    · simp only [List.map_map, Function.comp_def] at hrecord
      exact hrecord
    · obtain ⟨r, hr, rfl⟩ := List.mem_map.mp hf
      exact written_recordBytes hfloat (h.wellFormed r hr)
    · rw [List.map_map]
      exact h.keys
  refine Json.written_record [⟨"version", _, _⟩, ⟨"sessions", _, _⟩] (fun f hf => ?_)
    (show ["version", "sessions"].Nodup by decide)
  rcases List.mem_cons.mp hf with rfl | hf
  · exact (hfloat 2 (by decide)).mono (Nat.zero_le _)
  · cases List.mem_singleton.mp hf
    exact hsessions

theorem readRecords_records {float : Nat → F} (out : List Record) {records : List Record}
    (hall : ∀ r ∈ records, WellFormed r) (hfew : out.length + records.length ≤ maximumSessions + 1) :
    (records.map fun r => (r.key, recordValue float r)).foldlM readRecord out = some (out ++ records) := by
  induction records generalizing out with
  | nil => rw [List.append_nil]; rfl
  | cons r records ih =>
    have hr := hall r List.mem_cons_self
    rw [List.length_cons] at hfew
    have hone : readRecord out (r.key, recordValue float r) = some (out ++ [r]) := by
      have hexpires : ((recordValue float r).get "expires_at").bind Json.Value.asU64 = some r.expiresAt := rfl
      have hdigest : ((recordValue float r).get "password_digest").bind Json.Value.asStr = some r.passwordDigest := by
        show (Json.Value.string r.passwordDigest : Json.Value F).asStr = _
        rw [PlaybackLemmas.asStr_string, if_pos hr.text]
      unfold readRecord
      dsimp only
      rw [hexpires, hdigest]
      exact if_pos ⟨rfl, hr.digest, hr.key, by omega⟩
    rw [List.map_cons, List.foldlM_cons, hone]
    show (records.map fun r => (r.key, recordValue float r)).foldlM readRecord (out ++ [r]) = _
    rw [ih (out ++ [r]) (fun x hx => hall x (List.mem_cons_of_mem _ hx))
      (by rw [List.length_append, List.length_singleton]; omega), List.append_assoc]
    rfl

theorem length_escapeByte (b : Byte) : (Json.escapeByte b).length ≤ 6 := by
  have hall : ∀ n, n < 256 → (Json.escapeByte (UInt8.ofNat n)).length ≤ 6 := by decide +kernel
  have := hall b.toNat b.toNat_lt
  rwa [UInt8.ofNat_toNat] at this

theorem length_writeString (s : String) : (Json.writeString s).length ≤ 6 * (utf8 s).length + 2 := by
  have hbody (bs : Bytes) : (bs.flatMap Json.escapeByte).length ≤ 6 * bs.length := by
    induction bs with
    | nil => exact Nat.le_refl _
    | cons b bs ih =>
      have := length_escapeByte b
      rw [List.flatMap_cons, List.length_append, List.length_cons]
      omega
  have := hbody (utf8 s)
  simp only [Json.writeString, List.length_append, List.length_cons, List.length_nil]
  omega

theorem length_recordText {r : Record} (h : WellFormed r) : (recordText r).length ≤ 830 := by
  have hkey := length_writeString r.key
  have hdigest := length_writeString r.passwordDigest
  have hkey' : (utf8 r.key).length ≤ 64 := h.key
  have hdigest' : (utf8 r.passwordDigest).length ≤ 64 := h.digest
  have hnumber : (numeral 10 r.expiresAt).length ≤ 20 :=
    (length_numeral_le (by decide) (by decide)).mpr (Nat.lt_trans h.expires (by decide))
  have hfixed : (utf8 ":\x7b\"expires_at\":").length = 15 ∧ (utf8 ",\"password_digest\":").length = 19 ∧
      (utf8 "\x7d").length = 1 := by decide
  simp only [recordText, List.length_append, hfixed.1, hfixed.2.1, hfixed.2.2]
  omega

/-- A registry never meets its size limit. -/
theorem length_registryText {records : List Record} (h : Holdable records) :
    (registryText records).length ≤ registryLimit := by
  have hjoin (ts : List Bytes) (hts : ∀ t ∈ ts, t.length ≤ 830) :
      ([44].intercalate ts).length ≤ 831 * ts.length := by
    induction ts with
    | nil => exact Nat.le_refl _
    | cons t ts ih =>
      have ht := hts t List.mem_cons_self
      have hrest := ih fun x hx => hts x (List.mem_cons_of_mem _ hx)
      cases ts with
      | nil =>
        rw [List.intercalate_singleton, List.length_singleton]
        omega
      | cons t' ts =>
        simp only [List.intercalate_cons_cons, List.length_append, List.length_cons, List.length_nil] at hrest ⊢
        omega
  have hrecords := hjoin (records.map recordText) fun t ht => by
    obtain ⟨r, hr, rfl⟩ := List.mem_map.mp ht
    exact length_recordText (h.wellFormed r hr)
  rw [List.length_map] at hrecords
  have hfew : records.length ≤ 65 := h.few
  have hfixed : (utf8 "\x7b\"version\":2,\"sessions\":\x7b").length = 25 ∧ (utf8 "\x7d\x7d\n").length = 3 := by
    decide
  simp only [registryText, registryLimit, List.length_append, hfixed.1, hfixed.2]
  omega

end AuthLemmas

/-- A written registry reads back as its records. -/
theorem readRegistry_registryText {F : Type} (dec : Json.Decimal F) {records : List Record}
    (h : Holdable records) : readRegistry dec (some (registryText records)) = records := by
  have hsize := length_registryText h
  obtain ⟨float, two, hwritten⟩ := written_registry dec h
  have hparse := Json.parse_written hwritten (by decide)
  rw [← registryText_eq] at hparse
  obtain ⟨text, htext⟩ : Valid (registryText records) := by
    rw [registryText_eq]
    exact valid_append hwritten.valid (valid_plain (by decide))
  have hread : readText (some (registryText records)) registryLimit = .ok (some text) := by
    rw [readText, readBounded, if_neg (Nat.not_lt.mpr hsize)]
    show (ofUtf8 (registryText records)).elim _ _ = _
    rw [← htext, ofUtf8_utf8]
    rfl
  unfold readRegistry
  rw [hread]
  dsimp only
  rw [htext, hparse]
  dsimp only
  show (if _ then [] else
    ((records.map fun r : Record => (r.key, recordValue float r)).foldlM readRecord []).getD []) = _
  rw [readRecords_records [] h.wellFormed (by rw [List.length_nil, Nat.zero_add]; exact h.few)]
  refine if_neg ?_
  rintro (honly | hversion)
  · exact Bool.false_ne_true honly
  · exact hversion rfl

end OmtClient.Web.Session
