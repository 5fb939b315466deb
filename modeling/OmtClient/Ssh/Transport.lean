import OmtClient.Lib.Prog
import OmtClient.Ssh.Cipher

/-!
# The SSH transport

`crates/omt-deploy/src/ssh/transport.rs`: the binary packet protocol over a
socket. The code is sequential, so it is a `Prog` over the transport: an error
is its text, and a failed call leaves the transport as far as it got.

What comes from outside is a `World` (what libcrypto computes, random bytes,
whether each fallible call succeeds) and the list of what the socket gives to
each read. `wire` and `log` are history: the bytes given to the socket, and what
was sealed, sent, read and installed, in order.

Deadlines and the idle timeout appear only as an arrival that says the deadline
passed; the scratch buffer `sbuf` is left out.
-/

namespace OmtClient.Ssh

open OmtClient.Lib

/-- The largest packet either side may send. -/
def maxPacket : Nat := 256 * 1024

/-- The size of one read of the socket. -/
def chunkSize : Nat := 16384

namespace Msg

def disconnect : Byte := 1
def ignore : Byte := 2
def unimplemented : Byte := 3
def debug : Byte := 4
def extInfo : Byte := 7
def kexInit : Byte := 20
def newKeys : Byte := 21
def kex30 : Byte := 30
def kex31 : Byte := 31
def kexDhGexInit : Byte := 32
def kexDhGexReply : Byte := 33
def kexDhGexRequest : Byte := 34
def globalRequest : Byte := 80
def requestFailure : Byte := 82

end Msg

/-! ## Outside -/

/-- The world outside the transport. Every call that may fail takes the next
entry of `luck`; random bytes are taken from `random` in order. -/
structure World where
  prims : Primitives
  random : Nat → Byte
  luck : Nat → Bool

/-- What ends a wait for the socket with an error. -/
inductive SockError
  | cancelled
  | read (detail : String)
  | wait (detail : String)
  deriving DecidableEq, Repr

def SockError.text : SockError → String
  | .cancelled => "operation cancelled"
  | .read detail => "network read failed: " ++ detail
  | .wait detail => "network wait failed: " ++ detail

/-- What one wait for the socket gave. A read gives at least one byte and no more
than its buffer holds. -/
inductive Arrival
  | data (bytes : Bytes) (fits : 0 < bytes.length ∧ bytes.length ≤ chunkSize)
  | quiet
  | deadline
  | eof
  | failed (e : SockError)
  deriving DecidableEq, Repr

def Arrival.bytes : Arrival → Bytes
  | .data bytes _ => bytes
  | _ => []

/-- What a completed key exchange rests on: both identifications and KEXINIT
payloads, the host key, the method's own hash fields, the shared secret, and the
signature over the hash with its algorithm. -/
structure Exchange where
  vC : Bytes
  vS : Bytes
  iC : Bytes
  iS : Bytes
  kS : Bytes
  fields : Bytes
  k : Bytes
  md : Md
  hostkey : String
  sig : Bytes
  deriving DecidableEq, Repr

/-- What happened, for the record. -/
inductive Event
  /-- A packet was sealed by an AEAD cipher under this nonce. -/
  | sealed (alg : CipherAlg) (key nonce : Bytes)
  /-- A seal by an AEAD cipher failed. -/
  | unsealed (alg : CipherAlg) (key : Bytes)
  | sent (payload : Bytes)
  | read (payload : Bytes)
  /-- The server identified itself. -/
  | identified (line : Bytes)
  /-- The sending cipher was replaced. -/
  | installed (alg : CipherAlg) (key : Bytes)
  /-- A new sending cipher could not be set up over the cipher in use. -/
  | notInstalled (old : Option CipherAlg)
  /-- A key exchange was completed. -/
  | exchanged (x : Exchange)
  deriving DecidableEq, Repr

structure Transport where
  sock : Bool := false
  host : String := ""
  port : Nat := 22
  knownHosts : String := ""
  vC : Bytes := []
  vS : Bytes := []
  iC : Bytes := []
  iS : Bytes := []
  sessionId : Bytes := []
  hostKey : Bytes := []
  preferredHostkeys : List String := []
  sendSeq : UInt32 := 0
  recvSeq : UInt32 := 0
  send : PacketCipher := {}
  recv : PacketCipher := {}
  strictKex : Bool := false
  firstKexDone : Bool := false
  serverSigAlgs : Bytes := []
  rbuf : Bytes := []
  pktLen : Option UInt32 := none
  payload : Bytes := []
  arrivals : List Arrival := []
  drawn : Nat := 0
  tried : Nat := 0
  wire : Bytes := []
  log : List Event := []

/-- Why client code stopped: an error with its text. `stuck` stands for a loop
that ran out of its turns; there are always enough. -/
inductive Fault
  | text (text : String)
  | stuck
  deriving DecidableEq, Repr

/-- Client code. -/
abbrev Client (α : Type) := Prog Transport Fault α

open Prog

def fail {α : Type} (text : String) : Client α := raise (.text text)

@[simp] theorem wp_fail {α : Type} {Q : α → Transport → Prop} {E : Fault → Transport → Prop}
    {text : String} {t : Transport} : wp (fail text) Q E t ↔ E (.text text) t := Iff.rfl

/-! ## Primitive steps -/

/-- Whether the next call that may fail succeeds. -/
def luck (w : World) : Client Bool :=
  ⟨fun t => (.ok (w.luck t.tried), { t with tried := t.tried + 1 })⟩

@[simp] theorem wp_luck {w : World} {Q : Bool → Transport → Prop} {E : Fault → Transport → Prop}
    {t : Transport} :
    wp (luck w) Q E t ↔ Q (w.luck t.tried) { t with tried := t.tried + 1 } := Iff.rfl

/-- `random_bytes`. -/
def randomBytes (w : World) (n : Nat) : Client (Option Bytes) := do
  let ok ← luck w
  if ok then
    let t ← get
    modify fun t => { t with drawn := t.drawn + n }
    pure (some ((List.range n).map fun i => w.random (t.drawn + i)))
  else pure none

def Transport.msgType (t : Transport) : Byte := t.payload.headD 0

def Transport.body (t : Transport) : Bytes := t.payload.drop 1

/-! ## Sending -/

/-- The padding of a payload: to the cipher's block, at least four bytes. -/
def padding (c : PacketCipher) (payloadLen : Nat) : Nat :=
  let unpadded := 4 + 1 + payloadLen - (if c.aead then 4 else 0)
  let padding := c.block - unpadded % c.block
  if padding < 4 then padding + c.block else padding

/-- A packet before it is sealed. -/
def packetOf (c : PacketCipher) (payload pad : Bytes) : Bytes :=
  let n := padding c payload.length
  Wire.putU32 (Wire.lengthU32 (1 + payload.length + n)) ++ UInt8.ofNat (min n 255) :: payload ++ pad

/-- What a seal of an AEAD cipher is recorded as: under its sequence number for
ChaCha20, under its IV for GCM. -/
def sealRecord (c : PacketCipher) (seq : UInt32) (ok : Bool) : List Event :=
  match c.alg with
  | none => []
  | some alg =>
    let nonce := if alg.kind = .gcm then c.iv.take 12 else Wire.putU32 seq
    if alg.kind = .ctr then []
    else if ok then [.sealed alg c.aesKey nonce]
    else [.unsealed alg c.aesKey]

def sendRaw (w : World) (data : Bytes) : Client Unit := do
  let t ← get
  if t.sock then
    let ok ← luck w
    if ok then modify fun t => { t with wire := t.wire ++ data }
    else fail "network write failed"
  else fail "the SSH connection is closed"

/-- Seals a built packet and sends it. -/
def sealAndSend (w : World) (payload packet : Bytes) : Client Unit := do
  let t ← get
  let crypted ← luck w
  let hashed ← luck w
  match t.send.sealPacket w.prims t.sendSeq packet crypted hashed with
  | (c, none) => do
    modify fun t' => { t' with send := c, log := t'.log ++ sealRecord t.send t.sendSeq false }
    fail "SSH packet encryption failed"
  | (c, some (sealed, tag)) => do
    modify fun t' =>
      { t' with
        send := c
        sendSeq := t.sendSeq + 1
        log := t'.log ++ sealRecord t.send t.sendSeq true ++ [.sent payload] }
    sendRaw w (sealed ++ tag)

/-- `Transport::send`: sends one packet with the given payload. -/
def send (w : World) (payload : Bytes) : Client Unit := do
  if payload = [] ∨ maxPacket - 64 < payload.length then
    fail "SSH packet is too large or could not be built"
  else
    let t ← get
    let pad ← randomBytes w (padding t.send payload.length)
    match pad with
    | none => fail "random padding is unavailable"
    | some pad => sealAndSend w payload (packetOf t.send payload pad)

/-! ## Receiving -/

/-- One wait for the socket in `fill`. -/
def fillTurn : Client (Option Bool) := do
  let t ← get
  match t.arrivals with
  | [] => pure (some false)
  | a :: rest => do
    modify fun t => { t with arrivals := rest }
    match a with
    | .deadline => pure (some false)
    | .quiet => if t.sock then pure none else fail "the SSH connection is closed"
    | .eof => fail "the SSH server closed the connection"
    | .failed e => fail e.text
    | .data bytes _ =>
      if t.sock then
        if 2 * maxPacket + 4096 < t.rbuf.length + bytes.length then
          fail "SSH receive buffer overflow"
        else do
          modify fun t => { t with rbuf := t.rbuf ++ bytes }
          pure (some true)
      else fail "the SSH connection is closed"

/-- `fill`: reads more bytes into the receive buffer; false when the deadline
passed. -/
def fill : Client Bool := do
  let t ← get
  loop fillTurn .stuck (t.arrivals.length + 1)

/-! ## Identification -/

/-- `IDENT`. -/
def ident : String := "SSH-2.0-rpi_omt_deploy"

def maxPrefaceLines : Nat := 64
def maxLine : Nat := 255

/-- Looks for the end of a line in the buffer, or reads on: the index of the line
feed. -/
def lineTurn : Client (Option Nat) := do
  let t ← get
  match t.rbuf.findIdx? (· == 10) with
  | none =>
    if maxLine < t.rbuf.length then fail "the SSH server sent an overlong identification line"
    else do
      let more ← fill
      if more then pure none else fail "SSH connection timed out"
  | some n =>
    if maxLine < n + 1 then fail "the SSH server sent an overlong identification line"
    else pure (some n)

/-- Reads up to `k` lines for the one that identifies the server. -/
def identLines : Nat → Client Unit
  | 0 => fail "the SSH server sent no identification string"
  | k + 1 => do
    let t ← get
    let n ← loop lineTurn .stuck (t.arrivals.length + 1)
    let t ← get
    let text := if 0 < n ∧ t.rbuf.getD (n - 1) 0 = 13 then n - 1 else n
    let line := t.rbuf.take text
    if (utf8 "SSH-").isPrefixOf line then
      if !(utf8 "SSH-2.0-").isPrefixOf line && !(utf8 "SSH-1.99-").isPrefixOf line then
        fail "the server does not speak SSH protocol 2"
      else if line.any fun c => c < 0x20 || 0x7e < c then
        fail "the SSH server sent an invalid identification string"
      else
        modify fun t =>
          { t with vS := line, rbuf := t.rbuf.drop (n + 1), log := t.log ++ [.identified line] }
    else do
      modify fun t => { t with rbuf := t.rbuf.drop (n + 1) }
      identLines k

/-- `exchange_identification`. -/
def exchangeIdentification (w : World) : Client Unit := do
  modify fun t => { t with vC := utf8 ident }
  sendRaw w (utf8 ident ++ [13, 10])
  identLines maxPrefaceLines

/-! ## Packets -/

/-- What a wait for a packet ended with. -/
inductive Recv
  | packet
  | timeout
  deriving DecidableEq, Repr

/-- The length of the next packet, once enough of it is there. -/
def readLength (w : World) : Client Unit := do
  let t ← get
  if t.pktLen = none ∧ t.recv.firstLen ≤ t.rbuf.length then
    let crypted ← luck w
    match t.recv.length w.prims t.recvSeq t.rbuf crypted with
    | (c, rbuf, len) => do
      modify fun t => { t with recv := c, rbuf }
      let len ← orRaise len (.text "SSH packet decryption failed")
      let aligned := if t.recv.aead then len.toNat else len.toNat + 4
      if len.toNat < 5 ∨ maxPacket < len.toNat ∨ aligned % t.recv.block ≠ 0 then
        fail "the SSH server sent a malformed packet"
      else modify fun t => { t with pktLen := some len }
  else pure ()

/-- The length of the current packet when all of it is in the buffer. -/
def Transport.whole (t : Transport) : Option Nat :=
  match t.pktLen with
  | none => none
  | some len => if 4 + len.toNat + t.recv.tagLen ≤ t.rbuf.length then some len.toNat else none

/-- Opens the packet of `len` bytes at the front of the buffer. -/
def takePacket (w : World) (len : Nat) : Client Unit := do
  let t ← get
  let total := 4 + len
  let tag := t.recv.tagLen
  let hashed ← luck w
  let crypted ← luck w
  match t.recv.openPacket w.prims t.recvSeq (t.rbuf.take total) ((t.rbuf.drop total).take tag)
      crypted hashed with
  | (c, packet, ok) => do
    modify fun t => { t with recv := c, rbuf := packet ++ t.rbuf.drop total }
    if !ok then fail "SSH packet authentication failed"
    else
      let padding := (packet.getD 4 0).toNat
      if padding < 4 ∨ len ≤ padding + 1 then fail "the SSH server sent a malformed packet"
      else
        let payload := (packet.drop 5).take (len - 1 - padding)
        modify fun t =>
          { t with
            payload
            rbuf := t.rbuf.drop (total + tag)
            pktLen := none
            recvSeq := t.recvSeq + 1
            log := t.log ++ [.read payload] }

def readTurn (w : World) : Client (Option Recv) := do
  readLength w
  let t ← get
  match t.whole with
  | some len => do
    takePacket w len
    pure (some .packet)
  | none => do
    let more ← fill
    pure (if more then none else some .timeout)

/-- `read_packet`: the next packet as received. The payload is in the
transport. -/
def readPacket (w : World) : Client Recv := do
  let t ← get
  loop (readTurn w) .stuck (t.arrivals.length + 1)

/-- `handle_ext_info` reads this many pairs and keeps the last of the wanted
name. -/
def extInfoPairs : Nat → Bytes → Option Bytes → Option (Option Bytes)
  | 0, _, found => some found
  | n + 1, r, found => do
    let (name, r) ← Wire.string r
    let (value, r) ← Wire.string r
    extInfoPairs n r (if name = utf8 "server-sig-algs" then some value else found)

/-- `handle_ext_info`: records the server's EXT_INFO. -/
def handleExtInfo : Client Unit := do
  let t ← get
  match Wire.u32 t.body with
  | none => fail "the SSH server sent a malformed EXT_INFO"
  | some (count, r) =>
    if 1024 < count.toNat then fail "the SSH server sent a malformed EXT_INFO"
    else
      match extInfoPairs count.toNat r none with
      | none => fail "the SSH server sent a malformed EXT_INFO"
      | some none => pure ()
      | some (some v) => modify fun t => { t with serverSigAlgs := v }

/-- `disconnect`. -/
def disconnect (w : World) (reason : UInt32) (text : String) : Client Unit := do
  let t ← get
  if !t.sock || !t.recv.active then pure ()
  else do
    let _ ← attempt (send w
      (Msg.disconnect :: Wire.putU32 reason ++ Wire.putString (utf8 text) ++ Wire.putString []))
    pure ()

/-! ## The key switch of NEWKEYS -/

/-- New keys for sending, as `kex::run` takes them into use. -/
def installSend (w : World) (alg : CipherAlg) (mac : Option MacAlg) (key iv macKey : Bytes) :
    Client Unit := do
  modify fun t => { t with sendSeq := if t.strictKex then 0 else t.sendSeq }
  let ok ← luck w
  match PacketCipher.init alg mac key iv macKey ok with
  | none => do
    modify fun t => { t with log := t.log ++ [.notInstalled t.send.alg] }
    fail "cipher initialization failed"
  | some c => modify fun t => { t with send := c, log := t.log ++ [.installed alg c.aesKey] }

/-- New keys for receiving. -/
def installRecv (w : World) (alg : CipherAlg) (mac : Option MacAlg) (key iv macKey : Bytes) :
    Client Unit := do
  modify fun t => { t with recvSeq := if t.strictKex then 0 else t.recvSeq }
  let ok ← luck w
  match PacketCipher.init alg mac key iv macKey ok with
  | none => fail "cipher initialization failed"
  | some c => modify fun t => { t with recv := c }

end OmtClient.Ssh
