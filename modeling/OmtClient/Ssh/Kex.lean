import OmtClient.Ssh.Transport

/-!
# Key exchange

`crates/omt-deploy/src/ssh/kex.rs`: negotiation, the exchange methods, host-key
verification against known_hosts, key derivation and the switch of keys. Strict
key exchange is mandatory.

What libcrypto and the operator's files contribute is a `Library`: digests, the
key agreements, the reading and checking of public keys, and how known_hosts
classifies a host key. Big numbers are natural numbers.
-/

namespace OmtClient.Ssh

open OmtClient.Lib Prog

inductive HostStatus
  | known
  | unknown
  | changed
  | revoked
  deriving DecidableEq, Repr

structure Library where
  mlkemAvailable : Bool
  digest : Md → Bytes → Bytes
  /-- The public value of an X25519 secret. -/
  x25519Public : Bytes → Bytes
  x25519Derive : Bytes → Bytes → Option Bytes
  mlkemPublic : Bytes → Bytes
  mlkemDecapsulate : Bytes → Bytes → Option Bytes
  /-- The RFC 3526 prime of this many bits. -/
  prime : Nat → Nat
  /-- `PublicKey::parse`: the type of a host key blob. -/
  publicKey : Bytes → Except String String
  /-- `PublicKey::verify` of the key of a blob. -/
  verify : Bytes → String → Bytes → Bytes → Except String Unit
  /-- `known_hosts::check`. -/
  knownHosts : String → String → Nat → Bytes → Except String HostStatus
  /-- `known_hosts::types`. -/
  knownTypes : String → String → Nat → Except String Bytes

def strictC : String := "kex-strict-c-v00@openssh.com"
def strictS : String := "kex-strict-s-v00@openssh.com"

/-! ## Negotiation -/

inductive Method
  | mlKem768X25519
  | curve25519
  | dhGex
  | dhGroup (bits : Nat)
  deriving DecidableEq, Repr

structure KexMethod where
  name : String
  method : Method
  hash : Md
  deriving DecidableEq, Repr

/-- `METHODS`. -/
def methods : List KexMethod :=
  [⟨"mlkem768x25519-sha256", .mlKem768X25519, .sha256⟩,
    ⟨"curve25519-sha256", .curve25519, .sha256⟩,
    ⟨"curve25519-sha256@libssh.org", .curve25519, .sha256⟩,
    ⟨"diffie-hellman-group-exchange-sha256", .dhGex, .sha256⟩,
    ⟨"diffie-hellman-group18-sha512", .dhGroup 8192, .sha512⟩,
    ⟨"diffie-hellman-group17-sha512", .dhGroup 6144, .sha512⟩,
    ⟨"diffie-hellman-group16-sha512", .dhGroup 4096, .sha512⟩,
    ⟨"diffie-hellman-group15-sha512", .dhGroup 3072, .sha512⟩,
    ⟨"diffie-hellman-group14-sha256", .dhGroup 2048, .sha256⟩]

def gexMin : Nat := 2048
def gexPreferred : Nat := 4096
def gexMax : Nat := 8192
def mlkem768Pk : Nat := 1184
def mlkem768Ct : Nat := 1088

def kexList (l : Library) : List String :=
  (methods.filter fun m => m.method ≠ .mlKem768X25519 || l.mlkemAvailable).map KexMethod.name ++
    ["ext-info-c", strictC]

/-- The ten name-lists of a KEXINIT and its guess flag. -/
structure KexInit where
  lists : List Bytes
  firstFollows : Bool
  deriving DecidableEq, Repr

def KexInit.list (k : KexInit) (i : Nat) : Bytes := k.lists.getD i []

/-- `n` strings of a cursor. -/
def readStrings : Nat → Bytes → Option (List Bytes × Bytes)
  | 0, r => some ([], r)
  | n + 1, r => do
    let (s, r) ← Wire.string r
    let (rest, r) ← readStrings n r
    some (s :: rest, r)

def parseKexInit (payload : Bytes) : Option KexInit := do
  let (kind, r) ← Wire.u8 payload
  if kind ≠ Msg.kexInit then none
  else
    let (_, r) ← Wire.take 16 r
    let (lists, r) ← readStrings 10 r
    let (firstFollows, r) ← Wire.boolean r
    let (_, _) ← Wire.u32 r
    some { lists, firstFollows }

/-- `choose`: the first entry of ours that theirs also lists. -/
def choose (ours : List String) (theirs : Bytes) : Option String :=
  ours.find? fun name => (utf8 name).length < 96 && Wire.namelistHas theirs name

/-- What the two ends agree on. -/
structure Agreed where
  kexName : String
  hostkey : String
  cs : CipherAlg
  sc : CipherAlg
  mcs : Option MacAlg
  msc : Option MacAlg
  method : KexMethod
  deriving DecidableEq, Repr

/-- The cipher of one direction. -/
def agreeCipher (ciphersOf : Bytes) : Except String CipherAlg :=
  match (choose cipherList ciphersOf).bind fun n => findCipher (utf8 n) with
  | none => .error "no common SSH cipher"
  | some c => .ok c

/-- The MAC of one direction, for a CTR cipher. -/
def agreeMac (c : CipherAlg) (macsOf : Bytes) : Except String (Option MacAlg) :=
  if c.kind = .ctr then
    match (choose macList macsOf).bind fun n => findMac (utf8 n) with
    | none => .error "no common SSH MAC algorithm"
    | some m => .ok (some m)
  else .ok none

def negotiate (l : Library) (preferredHostkeys : List String) (theirs : KexInit) :
    Except String Agreed := do
  let some kexName := (choose (kexList l) (theirs.list 0)).filter
      fun n => n != "ext-info-c" && n != strictC
    | .error "no common SSH key exchange algorithm"
  let some hostkey := choose preferredHostkeys (theirs.list 1)
    | .error "no common SSH host key algorithm"
  let cs ← agreeCipher (theirs.list 2)
  let sc ← agreeCipher (theirs.list 3)
  let mcs ← agreeMac cs (theirs.list 4)
  let msc ← agreeMac sc (theirs.list 5)
  if (choose ["none"] (theirs.list 6)).isNone || (choose ["none"] (theirs.list 7)).isNone then
    .error "the SSH server requires compression, which this client does not offer"
  else
    let some method := methods.find? fun m => m.name == kexName
      | .error "no common SSH key exchange algorithm"
    .ok { kexName, hostkey, cs, sc, mcs, msc, method }

/-- The server guessed, and guessed wrong. -/
def guessedWrong (theirs : KexInit) (a : Agreed) : Bool :=
  theirs.firstFollows && (Wire.firstName (theirs.list 0) != utf8 a.kexName ||
    Wire.firstName (theirs.list 1) != utf8 a.hostkey)

/-! ## Messages -/

section

variable (w : World) (l : Library)

def sendKexInit : Client Unit := do
  match ← randomBytes w 16 with
  | none => fail "randomness is unavailable"
  | some cookie => do
    let t ← get
    let b := Msg.kexInit :: cookie ++ Wire.putString (Wire.joinNames (kexList l)) ++
      Wire.putString (Wire.joinNames t.preferredHostkeys) ++
      Wire.putString (Wire.joinNames cipherList) ++ Wire.putString (Wire.joinNames cipherList) ++
      Wire.putString (Wire.joinNames macList) ++ Wire.putString (Wire.joinNames macList) ++
      Wire.putString (utf8 "none") ++ Wire.putString (utf8 "none") ++ Wire.putString [] ++
      Wire.putString [] ++ Wire.putBool false ++ Wire.putU32 0
    modify fun t => { t with iC := b }
    send w b

/-- How many bytes can still be read: a bound on the packets to come. -/
def Transport.unread (t : Transport) : Nat :=
  t.rbuf.length + (t.arrivals.flatMap Arrival.bytes).length

def expectTurn (kind : Byte) : Client (Option Unit) := do
  match ← readPacket w with
  | .timeout => fail "SSH key exchange timed out"
  | .packet => do
    let t ← get
    let got := t.msgType
    if got = kind then pure (some ())
    else if got = Msg.disconnect then fail "the SSH server disconnected during key exchange"
    -- strict mode allows nothing else during the first exchange
    else if t.firstKexDone && (got == Msg.ignore || got == Msg.debug) then pure none
    else fail ("unexpected SSH message " ++ toString got.toNat ++ " during key exchange")

/-- `expect`: waits for a message of this kind. -/
def expect (kind : Byte) : Client Unit := do
  let t ← get
  loop (expectTurn w kind) .stuck (t.unread + 1)

/-! ## Methods -/

/-- What a method contributes to the exchange hash and keys (`KexOut`): the
shared secret as the method encodes it, the host key blob, the signature and the
method's own hash fields. -/
structure KexOut where
  k : Bytes := []
  kS : Bytes := []
  sig : Bytes := []
  fields : Bytes := []

/-- `x25519_derive`: refuses the result of a low-order point. -/
def x25519Derive (mine peer : Bytes) : Option Bytes :=
  (l.x25519Derive mine peer).filter fun secret => secret.any (· ≠ 0)

/-- `read_ecdh_reply`: the host key, the server's value and the signature. -/
def readEcdhReply : Client (Bytes × Bytes × Bytes) := do
  expect w Msg.kex31
  let t ← get
  match (do
    let (kS, r) ← Wire.string t.body
    let (qS, r) ← Wire.string r
    let (sig, r) ← Wire.string r
    some (kS, qS, sig, r)) with
  | some (kS, qS, sig, []) => pure (kS, qS, sig)
  | _ => fail "malformed key exchange reply"

def runCurve25519 : Client KexOut := do
  match ← randomBytes w 32 with
  | none => fail "X25519 key generation failed"
  | some mine => do
    let qC := l.x25519Public mine
    if qC.length ≠ 32 then fail "X25519 key generation failed"
    else
      send w (Msg.kex30 :: Wire.putString qC)
      let (kS, qS, sig) ← readEcdhReply w
      match if qS.length = 32 then x25519Derive l mine qS else none with
      | none => fail "invalid curve25519 key exchange value"
      | some secret =>
        pure { k := Wire.putMpint secret, kS, sig, fields := Wire.putString qC ++ Wire.putString qS }

def runMlkem : Client KexOut := do
  let kem ← randomBytes w 64
  let ecdh ← randomBytes w 32
  match kem, ecdh with
  | some kem, some ecdh => do
    let kp := l.mlkemPublic kem
    let ep := l.x25519Public ecdh
    if kp.length ≠ mlkem768Pk ∨ ep.length ≠ 32 then fail "ML-KEM-768 key generation failed"
    else
      let qC := kp ++ ep
      send w (Msg.kex30 :: Wire.putString qC)
      let (kS, qS, sig) ← readEcdhReply w
      let shared := if qS.length = mlkem768Ct + 32 then
        (l.mlkemDecapsulate kem (qS.take mlkem768Ct)).bind fun kemSs =>
          (x25519Derive l ecdh (qS.drop mlkem768Ct)).map fun ecdhSs => kemSs ++ ecdhSs
        else none
      let hashed ← luck w
      match if hashed then shared else none with
      | none => fail "invalid mlkem768x25519 key exchange value"
      | some shared =>
        -- the hybrid methods encode K as a string, not an mpint
        pure
          { k := Wire.putString (l.digest .sha256 shared), kS, sig
            fields := Wire.putString qC ++ Wire.putString qS }
  | _, _ => fail "ML-KEM-768 key generation failed"

/-- `dh_value_ok`: 1 < v < p - 1. -/
def dhValueOk (v p : Nat) : Bool := 1 < v && v < p - 1

/-- `run_dh`: shared by both DH methods once the group is fixed. -/
def runDh (before : Bytes) (p g : Nat) (init reply : Byte) : Client KexOut := do
  match ← randomBytes w 64 with
  | none => fail "Diffie-Hellman key generation failed"
  | some random => do
    let x := beNat random
    let e := g ^ x % p
    if !dhValueOk e p then fail "Diffie-Hellman key generation failed"
    else
      send w (init :: Wire.putBn e)
      expect w reply
      let t ← get
      match (do
        let (kS, r) ← Wire.string t.body
        let (f, r) ← Wire.bn r
        let (sig, r) ← Wire.string r
        some (kS, f, sig, r)) with
      | some (kS, f, sig, []) =>
        if !dhValueOk f p then fail "invalid Diffie-Hellman key exchange value"
        else
          let computed ← luck w
          if !computed then fail "invalid Diffie-Hellman key exchange value"
          else
            pure
              { k := Wire.putBn (f ^ x % p), kS, sig
                fields := before ++ Wire.putBn e ++ Wire.putBn f }
      | _ => fail "invalid Diffie-Hellman key exchange value"

def runDhGroup (bits : Nat) : Client KexOut := do
  let ok ← luck w
  if ok then runDh w [] (l.prime bits) 2 Msg.kex30 Msg.kex31
  else fail "Diffie-Hellman key generation failed"

def runDhGex : Client KexOut := do
  let bounds := Wire.putU32 (Wire.lengthU32 gexMin) ++ Wire.putU32 (Wire.lengthU32 gexPreferred) ++
    Wire.putU32 (Wire.lengthU32 gexMax)
  send w (Msg.kexDhGexRequest :: bounds)
  expect w Msg.kex31
  let t ← get
  match (do
    let (p, r) ← Wire.bn t.body
    let (g, r) ← Wire.bn r
    some (p, g, r)) with
  | some (p, g, []) =>
    let bits := p.log2 + 1
    if bits < gexMin ∨ gexMax < bits ∨ p % 2 = 0 ∨ !dhValueOk g p then
      fail "the SSH server offered an unacceptable Diffie-Hellman group"
    else
      runDh w (bounds ++ Wire.putBn p ++ Wire.putBn g) p g Msg.kexDhGexInit Msg.kexDhGexReply
  | _ => fail "the SSH server offered an unacceptable Diffie-Hellman group"

def runMethod : Method → Client KexOut
  | .mlKem768X25519 => runMlkem w l
  | .curve25519 => runCurve25519 w l
  | .dhGex => runDhGex w
  | .dhGroup bits => runDhGroup w l bits

/-! ## Keys -/

/-- K1 = HASH(K || H || letter || session_id), Kn = HASH(K || H || K1..Kn-1), until
there is enough. -/
def deriveRounds (md : Md) (k h : Bytes) (letter : Byte) (sid : Bytes) (need : Nat) :
    Nat → Bytes → Bytes
  | 0, material => material
  | n + 1, material =>
    if material.length < need then
      let next := if material = [] then l.digest md (k ++ h ++ letter :: sid)
        else l.digest md (k ++ h ++ material)
      deriveRounds md k h letter sid need n (material ++ next)
    else material

def derive (md : Md) (k h : Bytes) (letter : Byte) (sid : Bytes) (need : Nat) : Bytes :=
  (deriveRounds l md k h letter sid need need []).take need

/-- What an exchange hashes: V_C, V_S, I_C, I_S, K_S, the method's fields and
K. -/
def Exchange.hash (x : Exchange) : Bytes :=
  l.digest x.md (Wire.putString x.vC ++ Wire.putString x.vS ++ Wire.putString x.iC ++
    Wire.putString x.iS ++ Wire.putString x.kS ++ x.fields ++ x.k)

/-- `hostkey_alg_matches`. -/
def hostkeyAlgMatches (alg keyType : String) : Bool :=
  if alg = "rsa-sha2-256" ∨ alg = "rsa-sha2-512" then keyType = "ssh-rsa" else alg = keyType

def hostKeyTrusted (t : Transport) (kS : Bytes) : Except String Unit :=
  if t.firstKexDone then
    if kS ≠ t.hostKey then .error "the SSH server changed its host key during a re-key"
    else .ok ()
  else
    match l.knownHosts t.knownHosts t.host t.port kS with
    | .error e => .error e
    | .ok .known => .ok ()
    | .ok .unknown => .error ("the host key of " ++ t.host ++ " is not in " ++ t.knownHosts)
    | .ok .changed => .error ("the host key of " ++ t.host ++ " does not match " ++ t.knownHosts ++
        "; it may be an impersonation")
    | .ok .revoked => .error ("the host key of " ++ t.host ++ " is revoked in " ++ t.knownHosts)

/-- The checks an exchange has to pass before its keys are used. -/
def verifyExchange (t : Transport) (x : Exchange) : Except String Unit := do
  let keyType ← l.publicKey x.kS
  if hostkeyAlgMatches x.hostkey keyType then
    l.verify x.kS x.hostkey x.sig (x.hash l)
    hostKeyTrusted l t x.kS
  else .error "host key signature verification failed"

/-- NEWKEYS each way, with the keys of each direction. -/
def switchKeys (a : Agreed) (x : Exchange) : Client Unit := do
  let t ← get
  let h := x.hash l
  let key := derive l x.md x.k h
  let sid := t.sessionId
  send w [Msg.newKeys]
  installSend w a.cs a.mcs (key 67 sid a.cs.keyLen) (key 65 sid a.cs.ivLen)
    (key 69 sid ((a.mcs.map MacAlg.keyLen).getD 0))
  expect w Msg.newKeys
  installRecv w a.sc a.msc (key 68 sid a.sc.keyLen) (key 66 sid a.sc.ivLen)
    (key 70 sid ((a.msc.map MacAlg.keyLen).getD 0))

/-- The first exchange fixes the session id and the host key. -/
def fixSession (x : Exchange) : Client Unit := do
  let t ← get
  if t.firstKexDone then pure ()
  else modify fun t => { t with sessionId := x.hash l, hostKey := x.kS }

/-- From the method's result to the keys in use. -/
def finishExchange (a : Agreed) (o : KexOut) : Client Unit := do
  let t ← get
  let x : Exchange :=
    { vC := t.vC, vS := t.vS, iC := t.iC, iS := t.iS, kS := o.kS, fields := o.fields, k := o.k
      md := a.method.hash, hostkey := a.hostkey, sig := o.sig }
  let hashed ← luck w
  if !hashed then fail "exchange hash failed"
  else
    match verifyExchange l t x with
    | .error e => fail e
    | .ok () => do
      fixSession l x
      let derived ← luck w
      if !derived then fail "key derivation failed"
      else
        switchKeys w l a x
        modify fun t => { t with firstKexDone := true, log := t.log ++ [.exchanged x] }

/-- A server that guessed wrong sends a key exchange packet to discard. -/
def discardGuess (theirs : KexInit) (a : Agreed) : Client Unit := do
  if guessedWrong theirs a then
    match ← readPacket w with
    | .timeout => fail "SSH key exchange timed out"
    | .packet => pure ()
  else pure ()

/-- The server's KEXINIT: strict key exchange is mandatory the first time. -/
def readServerInit : Client KexInit := do
  let t ← get
  match parseKexInit t.iS with
  | none => fail "malformed KEXINIT from the SSH server"
  | some theirs =>
    if t.firstKexDone then pure theirs
    else if !Wire.namelistHas (theirs.list 0) strictS then
      fail ("the SSH server does not support strict key exchange (the Terrapin mitigation); " ++
        "update its SSH server")
    else do
      modify fun t => { t with strictKex := true }
      pure theirs

/-- The server's KEXINIT payload, `init` when it was received before. -/
def takeServerInit (received : Bool) (init : Bytes) : Client Unit :=
  if received then modify fun t => { t with iS := init }
  else do
    expect w Msg.kexInit
    modify fun t => { t with iS := t.payload }

/-- `kex::run`: one key exchange; `received` when the server's KEXINIT is already
in the payload. -/
def kexRun (received : Bool) : Client Unit := do
  let t ← get
  sendKexInit w l
  takeServerInit w received t.payload
  let theirs ← readServerInit
  let t ← get
  match negotiate l t.preferredHostkeys theirs with
  | .error e => fail e
  | .ok a => do
    discardGuess w theirs a
    let o ← runMethod w l a.method.method
    finishExchange w l a o

end

end OmtClient.Ssh
