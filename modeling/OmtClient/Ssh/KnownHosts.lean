import OmtClient.Deploy.Core
import OmtClient.Lib.Wildcard
import OmtClient.Ssh.Base64
import OmtClient.Ssh.Kex

/-!
# known_hosts

`crates/omt-deploy/src/ssh/known_hosts.rs`: the lines of a known_hosts file, the patterns of
their hosts and the verdict on an offered key. HMAC-SHA1 is a function that may fail.

1. `hostsMatch_iff`: what a hosts field names.
2. `verdict_exact`: the verdict by the lines of the file, whatever their order.
3. `glob_exact`: the loop over a pattern, against the recursive definition.
-/

namespace OmtClient.Ssh.KnownHosts

open OmtClient.Lib OmtClient.Ssh

/-! ## Patterns -/

/-- `?` stands for any character, and letters for themselves in either case. -/
def globFits (x c : Byte) : Bool := x == 63 || asciiLower x == asciiLower c

/-- `glob`: a pattern with `*` and `?`, without regard to case. -/
def glob (s p : Bytes) : Bool := wildcard globFits (· == 42) s p

/-- The recursive reference: `*` stands for any run of characters, `?` for any one of them, and
every other character for itself in either case. -/
def matchPattern : Bytes → Bytes → Bool
  | [], name => name == []
  | x :: p, name =>
    if x = 42 then name.tails.any (matchPattern p)
    else
      match name with
      | [] => false
      | c :: name => (x == 63 || asciiLower x == asciiLower c) && matchPattern p name

/-! ## Lines -/

section

variable (hmac : Bytes → Bytes → Option Bytes)

/-- `|1|base64(salt)|base64(HMAC-SHA1(salt, name))`. -/
def hashedMatch (entry name : Bytes) : Bool :=
  match (stripPrefix (utf8 "|1|") entry).bind (splitOnce 124) with
  | none => false
  | some (salt, hash) =>
    match Wire.base64Decode salt false, Wire.base64Decode hash false with
    | some salt, some hash => if salt.length ≠ 20 ∨ hash.length ≠ 20 then false else hmac salt name == some hash
    | _, _ => false

/-- The loop over the patterns of a line. -/
def patternsMatch (name : Bytes) (positive : Bool) : List Bytes → Bool
  | [] => positive
  | pattern :: rest =>
    let (negated, pat) := match stripPrefix [33] pattern with
      | some p => (true, p)
      | none => (false, pattern)
    if pat = [] then patternsMatch name positive rest
    else if glob name pat then bif negated then false else patternsMatch name true rest
    else patternsMatch name positive rest

def hostsMatch (field name : Bytes) : Bool :=
  if field.head? = some 124 then hashedMatch hmac field name else patternsMatch name false (field.splitOn 44)

/-- `blob_type`: the key type a blob declares, or nothing. -/
def blobType (blob : Bytes) : Bytes := (Wire.string blob).elim [] Prod.fst

def lookupName (host : String) (port : Nat) : Bytes :=
  let lowered := ((host.toList.take 255).flatMap encode).map asciiLower
  if port = 22 then lowered else 91 :: lowered ++ 93 :: 58 :: numeral 10 port

/-- The fields of a line. -/
def fields (raw : Bytes) : List Bytes :=
  let line := if raw.getLast? = some 13 then raw.dropLast else raw
  (line.splitOnP fun b => b == 32 || b == 9).filter (· ≠ [])

/-- What a line has to say: whether it revokes, its hosts and its key. -/
def entry (raw : Bytes) : Option (Bool × Bytes × Bytes) :=
  let keyed := fun (revoked : Bool) (hosts : Bytes) (rest : List Bytes) =>
    rest[1]?.bind fun data => (Wire.base64Decode data false).map fun key => (revoked, hosts, key)
  match fields raw with
  | [] => none
  | field :: rest =>
    if field.head? = some 35 then none
    else if field.head? = some 64 then
      -- @cert-authority and anything unknown
      if field ≠ utf8 "@revoked" then none
      else
        match rest with
        | [] => none
        | hosts :: rest => keyed true hosts rest
    else keyed false field rest

structure Found where
  known : Bool
  revoked : Bool
  sameType : Bool
  types : String
  deriving DecidableEq, Repr

def line (name key : Bytes) (found : Found) (raw : Bytes) : Found :=
  match entry raw with
  | none => found
  | some (isRevoked, hosts, lineKey) =>
    let equal := key != [] && lineKey == key
    -- a revoked key is refused for every host it might appear for
    if isRevoked then { found with revoked := found.revoked || equal }
    else if hostsMatch hmac hosts name then
      { found with
        known := found.known || equal
        sameType := found.sameType || (blobType key != [] && blobType lineKey == blobType key)
        types :=
          if blobType lineKey = [] then found.types
          else (if found.types = "" then "" else found.types ++ ",") ++ fromUtf8Lossy (blobType lineKey) }
    else found

def Found.status (found : Found) : HostStatus :=
  if found.revoked then .revoked else if found.known then .known else if found.sameType then .changed else .unknown

/-- `parse`: the verdict, and the key types listed for the host. -/
def parse (text : Bytes) (host : String) (port : Nat) (key : Bytes) : HostStatus × String :=
  let found := (text.splitOn 10).foldl (line hmac (lookupName host port) key) ⟨false, false, false, ""⟩
  (found.status, found.types)

/-! ## What the lines say -/

/-- A hashed entry with the salted hash of a name. -/
def Hashed (field name : Bytes) : Prop :=
  ∃ salt hash, field = utf8 "|1|" ++ (Wire.base64Encode salt ++ 124 :: Wire.base64Encode hash) ∧
    salt.length = 20 ∧ hash.length = 20 ∧ hmac salt name = some hash

/-- Patterns of which one is of the name, and no negated one is. -/
structure Patterned (field name : Bytes) : Prop where
  positive : ∃ p ∈ field.splitOn 44, p ≠ [] ∧ p.head? ≠ some 33 ∧ glob name p = true
  negated : ∀ p, 33 :: p ∈ field.splitOn 44 → p ≠ [] → glob name p = false

/-- A hosts field that names a host. -/
def Names (field name : Bytes) : Prop :=
  (field.head? = some 124 ∧ Hashed hmac field name) ∨ (field.head? ≠ some 124 ∧ Patterned field name)

/-- A line that lists a key for some hosts, or revokes it. -/
inductive Says (raw : Bytes) : Bool → Bytes → Bytes → Prop
  | lists {hosts type key : Bytes} {rest : List Bytes} (h : fields raw = hosts :: type :: Wire.base64Encode key :: rest)
      (comment : hosts.head? ≠ some 35) (marker : hosts.head? ≠ some 64) : Says raw false hosts key
  | revokes {hosts type key : Bytes} {rest : List Bytes}
      (h : fields raw = utf8 "@revoked" :: hosts :: type :: Wire.base64Encode key :: rest) : Says raw true hosts key

def lines (text : Bytes) : List Bytes := text.splitOn 10

/-- A line revokes the key, for whatever hosts. -/
def Revokes (text key : Bytes) : Prop := ∃ raw ∈ lines text, ∃ hosts, Says raw true hosts key

/-- A line for the host lists the key. -/
def Trusts (text name key : Bytes) : Prop := ∃ raw ∈ lines text, ∃ hosts, Says raw false hosts key ∧ Names hmac hosts name

/-- A line for the host lists a key of the type that this one declares. -/
def Replaces (text name key : Bytes) : Prop :=
  ∃ raw ∈ lines text, ∃ hosts k, Says raw false hosts k ∧ Names hmac hosts name ∧ blobType key ≠ [] ∧ blobType k = blobType key

end

namespace KnownHostsLemmas

variable {hmac : Bytes → Bytes → Option Bytes} {field name hosts key raw text : Bytes} {b : Byte}

theorem char_no_bar (v : Nat) : Wire.b64Char v ≠ 124 := by
  have hall : ∀ v, v < 64 → Wire.b64Char v ≠ 124 := by decide +kernel
  rcases Nat.lt_or_ge v 64 with h | h
  · exact hall v h
  · unfold Wire.b64Char
    rw [List.getD_eq_getElem?_getD, List.getElem?_eq_none (by exact h)]
    decide

theorem encode_no_bar (y : Bytes) : (124 : Byte) ∉ Wire.base64Encode y := by
  induction y using Wire.base64Encode.induct with
  | case1 => exact List.not_mem_nil
  | case2 a =>
    simp only [Wire.base64Encode, List.mem_cons, List.not_mem_nil, or_false, not_or]
    exact ⟨(char_no_bar _).symm, (char_no_bar _).symm, by decide, by decide⟩
  | case3 a b =>
    simp only [Wire.base64Encode, List.mem_cons, List.not_mem_nil, or_false, not_or]
    exact ⟨(char_no_bar _).symm, (char_no_bar _).symm, (char_no_bar _).symm, by decide⟩
  | case4 a b c rest ih =>
    simp only [Wire.base64Encode, List.mem_cons, not_or]
    exact ⟨(char_no_bar _).symm, (char_no_bar _).symm, (char_no_bar _).symm, (char_no_bar _).symm, ih⟩

theorem hashedMatch_iff : hashedMatch hmac field name = true ↔ Hashed hmac field name := by
  unfold hashedMatch
  constructor
  · intro h
    split at h
    · cases h
    next salt hash hcut =>
      obtain ⟨rest, hprefix, hsplit⟩ := Option.bind_eq_some_iff.mp hcut
      split at h
      next s h' hsalt hhash =>
        split at h
        · cases h
        next hlen =>
          rw [not_or, not_ne_iff, not_ne_iff] at hlen
          refine ⟨s, h', ?_, hlen.1, hlen.2, beq_iff_eq.mp h⟩
          rw [stripPrefix_eq_some.mp hprefix, (splitOnce_eq_some.mp hsplit).1, (Wire.base64Decode_iff _ _).mp hsalt,
            (Wire.base64Decode_iff _ _).mp hhash]
      · cases h
  · rintro ⟨salt, hash, rfl, hsalt, hhash, hmatch⟩
    rw [stripPrefix_append, Option.bind_some, splitOnce_append (encode_no_bar salt)]
    dsimp only
    rw [(Wire.base64Decode_iff _ _).mpr rfl, (Wire.base64Decode_iff _ _).mpr rfl]
    dsimp only
    rw [if_neg (by rw [not_or, not_ne_iff, not_ne_iff]; exact ⟨hsalt, hhash⟩), hmatch]
    exact beq_self_eq_true _

/-- The loop over the patterns: what was there before it, and no negated pattern of the name. -/
theorem patternsMatch_iff (positive : Bool) (ps : List Bytes) : patternsMatch name positive ps = true ↔
    (positive = true ∨ ∃ p ∈ ps, p ≠ [] ∧ p.head? ≠ some 33 ∧ glob name p = true) ∧
      ∀ p, 33 :: p ∈ ps → p ≠ [] → glob name p = false := by
  induction ps generalizing positive with
  | nil => simp [patternsMatch]
  | cons q ps ih =>
    unfold patternsMatch
    by_cases hq : q.head? = some 33
    · obtain ⟨p, rfl⟩ : ∃ p, q = 33 :: p := by
        cases q with
        | nil => cases hq
        | cons c q =>
          cases hq
          exact ⟨q, rfl⟩
      have hstrip : stripPrefix [33] (33 :: p) = some p := stripPrefix_append [33] p
      rw [hstrip]
      dsimp only
      have hrest : (∃ r ∈ (33 :: p) :: ps, r ≠ [] ∧ r.head? ≠ some 33 ∧ glob name r = true) ↔
          ∃ r ∈ ps, r ≠ [] ∧ r.head? ≠ some 33 ∧ glob name r = true := by
        constructor
        · rintro ⟨r, hr, hne, hhead, hglob⟩
          rcases List.mem_cons.mp hr with rfl | hr
          · exact absurd rfl hhead
          · exact ⟨r, hr, hne, hhead, hglob⟩
        · rintro ⟨r, hr, h⟩
          exact ⟨r, List.mem_cons_of_mem _ hr, h⟩
      rw [hrest]
      by_cases hp : p = []
      · rw [if_pos hp, ih, hp]
        simp
      · rw [if_neg hp]
        by_cases hglob : glob name p = true
        · rw [if_pos hglob]
          constructor
          · rintro ⟨⟩
          · rintro ⟨-, hnone⟩
            cases (hnone p List.mem_cons_self hp).symm.trans hglob
        · rw [if_neg hglob, ih]
          refine and_congr_right fun _ => ?_
          constructor
          · intro h r hr hne
            rcases List.mem_cons.mp hr with heq | hr
            · cases heq
              exact Bool.eq_false_iff.mpr hglob
            · exact h r hr hne
          · exact fun h r hr => h r (List.mem_cons_of_mem _ hr)
    · have hstrip : stripPrefix [33] q = none := by
        rw [Option.eq_none_iff_forall_ne_some]
        intro rest hrest
        rw [stripPrefix_eq_some.mp hrest] at hq
        exact hq rfl
      rw [hstrip]
      dsimp only
      have hrest : (∀ p, 33 :: p ∈ q :: ps → p ≠ [] → glob name p = false) ↔
          ∀ p, 33 :: p ∈ ps → p ≠ [] → glob name p = false := by
        constructor
        · exact fun h r hr => h r (List.mem_cons_of_mem _ hr)
        · intro h r hr
          rcases List.mem_cons.mp hr with rfl | hr
          · exact absurd rfl hq
          · exact h r hr
      rw [hrest]
      by_cases hp : q = []
      · rw [if_pos hp, ih, hp]
        simp
      · rw [if_neg hp]
        by_cases hglob : glob name q = true
        · rw [if_pos hglob, cond_false, ih]
          simp [hp, hq, hglob]
        · rw [if_neg hglob, ih]
          simp [hglob]

/-! ## Lines -/

theorem entry_iff {revoked : Bool} : entry raw = some (revoked, hosts, key) ↔ Says raw revoked hosts key := by
  constructor
  · intro h
    unfold entry at h
    dsimp only at h
    split at h
    · cases h
    next field rest hfields =>
      split at h
      · cases h
      next hcomment =>
        split at h
        next hmarker =>
          split at h
          · cases h
          next hrevoked =>
            rw [not_ne_iff] at hrevoked
            split at h
            · cases h
            next hosts' rest' =>
              obtain ⟨data, hdata, hkey⟩ := Option.bind_eq_some_iff.mp h
              obtain ⟨k, hk, hsame⟩ := Option.map_eq_some_iff.mp hkey
              cases hsame
              cases rest' with
              | nil => cases hdata
              | cons type rest' =>
                cases rest' with
                | nil => cases hdata
                | cons data' rest' =>
                  cases hdata
                  rw [(Wire.base64Decode_iff _ _).mp hk, hrevoked] at hfields
                  exact .revokes hfields
        next hmarker =>
          obtain ⟨data, hdata, hkey⟩ := Option.bind_eq_some_iff.mp h
          obtain ⟨k, hk, hsame⟩ := Option.map_eq_some_iff.mp hkey
          cases hsame
          cases rest with
          | nil => cases hdata
          | cons type rest =>
            cases rest with
            | nil => cases hdata
            | cons data' rest =>
              cases hdata
              rw [(Wire.base64Decode_iff _ _).mp hk] at hfields
              exact .lists hfields hcomment hmarker
  · rintro (⟨h, hcomment, hmarker⟩ | h)
    · unfold entry
      rw [h]
      dsimp only
      rw [if_neg hcomment, if_neg hmarker]
      show ((Wire.base64Decode (Wire.base64Encode key) false).map _) = _
      rw [(Wire.base64Decode_iff _ _).mpr rfl]
      rfl
    · unfold entry
      rw [h]
      dsimp only
      rw [if_neg (by decide), if_pos (by decide), if_neg (not_not.mpr rfl)]
      show ((Wire.base64Decode (Wire.base64Encode key) false).map _) = _
      rw [(Wire.base64Decode_iff _ _).mpr rfl]
      rfl

/-- The fields of a line are not empty, so no line lists the empty key. -/
theorem says_key {revoked : Bool} (h : Says raw revoked hosts key) : key ≠ [] := by
  have hmem : Wire.base64Encode key ∈ fields raw := by
    cases h with
    | lists h => simp [h]
    | revokes h => simp [h]
  unfold fields at hmem
  have hne := of_decide_eq_true (List.mem_filter.mp hmem).2
  rintro rfl
  exact hne rfl

end KnownHostsLemmas

open KnownHostsLemmas

/-- What a hosts field names: a hashed entry its name, patterns what one of them is of and no
negated one, in whatever order. -/
theorem hostsMatch_iff (hmac : Bytes → Bytes → Option Bytes) (field name : Bytes) :
    hostsMatch hmac field name = true ↔ Names hmac field name := by
  unfold hostsMatch Names
  by_cases h : field.head? = some 124
  · rw [if_pos h, hashedMatch_iff]
    simp [h]
  · rw [if_neg h, patternsMatch_iff]
    constructor
    · rintro ⟨hpositive, hnegated⟩
      exact .inr ⟨h, hpositive.resolve_left Bool.false_ne_true, hnegated⟩
    · rintro (⟨hno, -⟩ | ⟨-, hpositive, hnegated⟩)
      · exact absurd hno h
      · exact ⟨.inr hpositive, hnegated⟩

namespace KnownHostsLemmas

variable {hmac : Bytes → Bytes → Option Bytes} {name key raw : Bytes} {found : Found}

theorem says_unique {r r' : Bool} {hosts hosts' k k' : Bytes} (h : Says raw r hosts k) (h' : Says raw r' hosts' k') :
    r = r' ∧ hosts = hosts' ∧ k = k' := by
  have hsame := ((entry_iff).mpr h).symm.trans ((entry_iff).mpr h')
  simpa using hsame

/-- What one line adds to what has been found. -/
theorem line_found (found : Found) (raw : Bytes) :
    ((line hmac name key found raw).revoked = true ↔ found.revoked = true ∨ ∃ hosts, Says raw true hosts key) ∧
    ((line hmac name key found raw).known = true ↔
      found.known = true ∨ ∃ hosts, Says raw false hosts key ∧ Names hmac hosts name) ∧
    ((line hmac name key found raw).sameType = true ↔ found.sameType = true ∨
      ∃ hosts k, Says raw false hosts k ∧ Names hmac hosts name ∧ blobType key ≠ [] ∧ blobType k = blobType key) := by
  unfold line
  cases hentry : entry raw with
  | none =>
    have hnone (r : Bool) (hosts k : Bytes) : ¬ Says raw r hosts k := by
      intro h
      cases hentry.symm.trans ((entry_iff).mpr h)
    simp only [hnone, false_and, exists_false, or_false]
    exact ⟨trivial, trivial, trivial⟩
  | some e =>
    obtain ⟨r, hosts, k⟩ := e
    have hsays := (entry_iff).mp hentry
    have hkey : (key != [] && k == key) = true ↔ k = key := by
      rw [Bool.and_eq_true, bne_iff_ne, beq_iff_eq]
      exact ⟨And.right, fun h => ⟨h ▸ says_key hsays, h⟩⟩
    dsimp only
    cases r with
    | true =>
      have hlists (h k' : Bytes) : ¬ Says raw false h k' := by
        intro h
        cases (says_unique hsays h).1
      rw [if_pos rfl]
      simp only [hlists, false_and, exists_false, or_false, Bool.or_eq_true, hkey]
      refine ⟨or_congr_right ?_, trivial, trivial⟩
      constructor
      · rintro rfl
        exact ⟨hosts, hsays⟩
      · rintro ⟨h, hs⟩
        exact (says_unique hsays hs).2.2
    | false =>
      have hrevokes (h k' : Bytes) : ¬ Says raw true h k' := by
        intro h
        cases (says_unique hsays h).1
      rw [if_neg Bool.false_ne_true]
      by_cases hhost : hostsMatch hmac hosts name = true
      · have hnames := (hostsMatch_iff hmac hosts name).mp hhost
        rw [if_pos hhost]
        simp only [hrevokes, exists_false, or_false, Bool.or_eq_true, hkey, true_and]
        refine ⟨or_congr_right ?_, or_congr_right ?_⟩
        · constructor
          · rintro rfl
            exact ⟨hosts, hsays, hnames⟩
          · rintro ⟨h, hs, -⟩
            exact (says_unique hsays hs).2.2
        · rw [Bool.and_eq_true, bne_iff_ne, beq_iff_eq]
          constructor
          · rintro ⟨hne, htype⟩
            exact ⟨hosts, k, hsays, hnames, hne, htype⟩
          · rintro ⟨h, k', hs, -, hne, htype⟩
            obtain ⟨-, -, rfl⟩ := says_unique hsays hs
            exact ⟨hne, htype⟩
      · have hnot (h k' : Bytes) : ¬ (Says raw false h k' ∧ Names hmac h name) := by
          rintro ⟨hs, hn⟩
          obtain ⟨-, rfl, -⟩ := says_unique hsays hs
          exact hhost ((hostsMatch_iff hmac hosts name).mpr hn)
        have hnot' (h k' : Bytes) : ¬ (Says raw false h k' ∧ Names hmac h name ∧ blobType key ≠ [] ∧
            blobType k' = blobType key) := fun hall => hnot h k' ⟨hall.1, hall.2.1⟩
        rw [if_neg hhost]
        simp only [hrevokes, hnot, hnot', exists_false, or_false]
        exact ⟨trivial, trivial, trivial⟩

/-- A flag that every line can raise is up at the end when some line raises it. -/
theorem fold_flag {flag : Found → Bool} {raises : Bytes → Prop} {f : Found → Bytes → Found}
    (hstep : ∀ found raw, flag (f found raw) = true ↔ flag found = true ∨ raises raw) (ls : List Bytes) (found : Found) :
    flag (ls.foldl f found) = true ↔ flag found = true ∨ ∃ raw ∈ ls, raises raw := by
  induction ls generalizing found with
  | nil => simp
  | cons raw ls ih =>
    rw [List.foldl_cons, ih, hstep, or_assoc]
    simp

/-- What is found in a whole file. -/
theorem text_found (hmac : Bytes → Bytes → Option Bytes) (name key text : Bytes) :
    let found := (lines text).foldl (line hmac name key) ⟨false, false, false, ""⟩
    (found.revoked = true ↔ Revokes text key) ∧ (found.known = true ↔ Trusts hmac text name key) ∧
      (found.sameType = true ↔ Replaces hmac text name key) := by
  refine ⟨?_, ?_, ?_⟩
  · rw [@fold_flag Found.revoked _ _ fun found raw => (line_found found raw).1]
    simp [Revokes]
  · rw [@fold_flag Found.known _ _ fun found raw => (line_found found raw).2.1]
    simp [Trusts]
  · rw [@fold_flag Found.sameType _ _ fun found raw => (line_found found raw).2.2]
    simp [Replaces]

theorem status_iff (found : Found) :
    (found.status = .revoked ↔ found.revoked = true) ∧
      (found.status = .known ↔ ¬ found.revoked = true ∧ found.known = true) ∧
      (found.status = .changed ↔ ¬ found.revoked = true ∧ ¬ found.known = true ∧ found.sameType = true) ∧
      (found.status = .unknown ↔ ¬ found.revoked = true ∧ ¬ found.known = true ∧ ¬ found.sameType = true) := by
  unfold Found.status
  cases found.revoked <;> cases found.known <;> cases found.sameType <;> decide

/-- The verdict is about which lines there are. -/
theorem found_congr {text text' : Bytes} (h : ∀ raw, raw ∈ lines text' ↔ raw ∈ lines text) :
    (Revokes text' key ↔ Revokes text key) ∧ (Trusts hmac text' name key ↔ Trusts hmac text name key) ∧
      (Replaces hmac text' name key ↔ Replaces hmac text name key) := by
  unfold Revokes Trusts Replaces
  simp only [h]
  exact ⟨trivial, trivial, trivial⟩

/-! ## Names -/

theorem lower_not_star : ∀ b : Byte, asciiLower b = 42 → b = 42 := forall_byte (by decide +kernel)

theorem host_not_star {host : String} (h : Deploy.validHost host = true) : (42 : Byte) ∉ utf8 host := by
  unfold Deploy.validHost at h
  rw [Bool.and_eq_true] at h
  have hlabels := List.all_eq_true.mp h.2
  intro hstar
  rcases mem_splitOn (c := 46) hstar with hdot | ⟨label, hlabel, hmem⟩
  · revert hdot
    decide
  · have htoken := hlabels label hlabel
    rw [Bool.and_eq_true] at htoken
    have hbyte := List.all_eq_true.mp (Bool.and_eq_true _ _ ▸ htoken.2).2 42 hmem
    revert hbyte
    decide

theorem name_not_star {host : String} (h : (42 : Byte) ∉ utf8 host) (port : Nat) : (42 : Byte) ∉ lookupName host port := by
  have hlowered : (42 : Byte) ∉ ((host.toList.take 255).flatMap encode).map asciiLower := by
    intro hmem
    obtain ⟨b, hb, hlower⟩ := List.mem_map.mp hmem
    obtain ⟨c, hc, hbc⟩ := List.mem_flatMap.mp hb
    rw [lower_not_star b hlower] at hbc
    rw [utf8_eq] at h
    exact h (List.mem_flatMap.mpr ⟨c, List.mem_of_mem_take hc, hbc⟩)
  unfold lookupName
  dsimp only
  split
  · exact hlowered
  · intro hmem
    rcases List.mem_append.mp hmem with hmem | hmem
    · rcases List.mem_cons.mp hmem with hmem | hmem
      · revert hmem
        decide
      · exact hlowered hmem
    · rcases List.mem_cons.mp hmem with hmem | hmem
      · revert hmem
        decide
      · rcases List.mem_cons.mp hmem with hmem | hmem
        · revert hmem
          decide
        · have hdigit := isAsciiDigit_numeral port 42 hmem
          revert hdigit
          decide

theorem glob_iff {name : Bytes} (h : (42 : Byte) ∉ name) (p : Bytes) :
    glob name p = true ↔ OfPattern globFits (· == 42) name p := by
  refine wildcard_iff fun x c hx hc => ?_
  rw [beq_iff_eq.mp hx]
  refine Bool.eq_false_iff.mpr fun hfits => ?_
  rcases (Bool.or_eq_true _ _).mp hfits with hfits | hfits
  · revert hfits
    decide
  · have hstar : asciiLower c = 42 := (beq_iff_eq.mp hfits).symm
    rw [lower_not_star c hstar] at hc
    exact h hc

theorem matchPattern_iff (p name : Bytes) : matchPattern p name = true ↔ OfPattern globFits (· == 42) name p := by
  induction p generalizing name with
  | nil => exact beq_iff_eq
  | cons x p ih =>
    rw [matchPattern.eq_def, OfPattern]
    simp only [beq_iff_eq]
    split
    · rw [List.any_eq_true]
      simp only [List.mem_tails, ih]
    · cases name with
      | nil =>
        constructor
        · intro h
          cases h
        · rintro ⟨_, _, heq, _⟩
          cases heq
      | cons c name =>
        rw [Bool.and_eq_true, ih]
        constructor
        · rintro ⟨hfits, hrest⟩
          exact ⟨c, name, rfl, hfits, hrest⟩
        · rintro ⟨_, _, heq, hfits, hrest⟩
          cases heq
          exact ⟨hfits, hrest⟩

end KnownHostsLemmas

/-- The verdict of a file, by what its lines say and in whatever order they do. The patterns
are matched by a loop, and the names that it looks for are of the hosts that are accepted. -/
theorem verdict_exact (hmac : Bytes → Bytes → Option Bytes) (text : Bytes) (host : String) (port : Nat) (key : Bytes) :
    (((parse hmac text host port key).1 = .revoked ↔ Revokes text key) ∧
      ((parse hmac text host port key).1 = .known ↔ ¬ Revokes text key ∧ Trusts hmac text (lookupName host port) key) ∧
      ((parse hmac text host port key).1 = .changed ↔ ¬ Revokes text key ∧
        ¬ Trusts hmac text (lookupName host port) key ∧ Replaces hmac text (lookupName host port) key) ∧
      ((parse hmac text host port key).1 = .unknown ↔ ¬ Revokes text key ∧
        ¬ Trusts hmac text (lookupName host port) key ∧ ¬ Replaces hmac text (lookupName host port) key)) ∧
    (∀ text', (∀ raw, raw ∈ lines text' ↔ raw ∈ lines text) →
      (parse hmac text' host port key).1 = (parse hmac text host port key).1) ∧
    ((42 : Byte) ∉ utf8 host → ∀ p, glob (lookupName host port) p = true ↔
      OfPattern globFits (· == 42) (lookupName host port) p) ∧
    (Deploy.validHost host = true → (42 : Byte) ∉ utf8 host) := by
  have hverdict (text : Bytes) := status_iff ((lines text).foldl (line hmac (lookupName host port) key) ⟨false, false, false, ""⟩)
  have hfound (text : Bytes) := text_found hmac (lookupName host port) key text
  dsimp only at hfound
  simp only [hfound] at hverdict
  refine ⟨hverdict text, fun text' h => ?_, fun h => glob_iff (name_not_star h port), host_not_star⟩
  obtain ⟨hrevokes, htrusts, hreplaces⟩ := @found_congr hmac (lookupName host port) key text text' h
  have hthere := hverdict text'
  rw [hrevokes, htrusts, hreplaces] at hthere
  cases hstatus : (parse hmac text host port key).1 with
  | revoked => exact hthere.1.mpr ((hverdict text).1.mp hstatus)
  | known => exact hthere.2.1.mpr ((hverdict text).2.1.mp hstatus)
  | changed => exact hthere.2.2.1.mpr ((hverdict text).2.2.1.mp hstatus)
  | unknown => exact hthere.2.2.2.mpr ((hverdict text).2.2.2.mp hstatus)

/-- The loop matches by the reference, on every name that is looked up. -/
theorem glob_exact (host : String) (port : Nat) (pattern : Bytes) (hvalid : Deploy.validHost host = true) :
    glob (lookupName host port) pattern = matchPattern pattern (lookupName host port) := by
  have hname : (42 : Byte) ∉ lookupName host port := name_not_star (host_not_star hvalid) port
  rw [Bool.eq_iff_iff, glob_iff hname, matchPattern_iff]

theorem glob_appliance :
    glob (lookupName "omt.lan" 2222) (utf8 "[*O?T.*:22*2") = matchPattern (utf8 "[*O?T.*:22*2") (lookupName "omt.lan" 2222) :=
  glob_exact "omt.lan" 2222 (utf8 "[*O?T.*:22*2") (by decide +kernel)

end OmtClient.Ssh.KnownHosts
