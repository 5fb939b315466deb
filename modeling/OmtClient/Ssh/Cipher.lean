import OmtClient.Lib.Bytes
import OmtClient.Ssh.Wire

/-!
# The packet ciphers

`crates/omt-deploy/src/ssh/cipher.rs`: chacha20-poly1305@openssh.com, AES-GCM,
and AES-CTR with an HMAC-SHA2 tag over the plaintext or (`etm`) over the
ciphertext. What libcrypto computes is a `Primitives`: keystreams for ChaCha20
and AES-CTR, which are combined with the data by exclusive or, and the GCM and
MAC functions with the laws the packet layer relies on.

A library call can fail. `crypted` and `hashed` say whether the cipher part and
the MAC part of an operation succeed; a failure leaves behind what the source
leaves behind.
-/

namespace OmtClient.Ssh

open OmtClient.Lib

/-- The digests of the protocol. -/
inductive Md
  | sha256
  | sha512
  deriving DecidableEq, Repr

def Md.size : Md → Nat
  | .sha256 => 32
  | .sha512 => 64

/-- What libcrypto computes for the packet ciphers. -/
structure Primitives where
  /-- The ChaCha20 keystream of a key, a sequence number and a first block. -/
  chacha : Bytes → UInt32 → UInt32 → Nat → Byte
  /-- The AES-CTR keystream of a key and an IV. -/
  ctr : Bytes → Bytes → Nat → Byte
  poly1305 : Bytes → Bytes → Bytes
  hmac : Md → Bytes → Bytes → Bytes
  /-- Key, IV, additional data, text: the ciphertext and the tag. -/
  gcmSeal : Bytes → Bytes → Bytes → Bytes → Bytes × Bytes
  /-- Key, IV, additional data, ciphertext, tag: what is written in its place,
  and whether the tag verified. -/
  gcmOpen : Bytes → Bytes → Bytes → Bytes → Bytes → Bytes × Bool
  length_poly1305 : ∀ key data, (poly1305 key data).length = 16
  length_hmac : ∀ md key data, (hmac md key data).length = md.size
  length_gcmSeal : ∀ key iv aad text, (gcmSeal key iv aad text).1.length = text.length
  length_gcmTag : ∀ key iv aad text, (gcmSeal key iv aad text).2.length = 16
  length_gcmOpen : ∀ key iv aad text tag, (gcmOpen key iv aad text tag).1.length = text.length
  gcmOpen_gcmSeal : ∀ key iv aad text,
    gcmOpen key iv aad (gcmSeal key iv aad text).1 (gcmSeal key iv aad text).2 = (text, true)

/-! ## Algorithms -/

inductive Kind
  | chaCha
  | gcm
  | ctr
  deriving DecidableEq, Repr

/-- The entries of `CIPHERS`. -/
inductive CipherAlg
  | chacha20Poly1305
  | aes256Gcm
  | aes128Gcm
  | aes256Ctr
  | aes192Ctr
  | aes128Ctr
  deriving DecidableEq, Repr

namespace CipherAlg

def name : CipherAlg → String
  | chacha20Poly1305 => "chacha20-poly1305@openssh.com"
  | aes256Gcm => "aes256-gcm@openssh.com"
  | aes128Gcm => "aes128-gcm@openssh.com"
  | aes256Ctr => "aes256-ctr"
  | aes192Ctr => "aes192-ctr"
  | aes128Ctr => "aes128-ctr"

def kind : CipherAlg → Kind
  | chacha20Poly1305 => .chaCha
  | aes256Gcm => .gcm
  | aes128Gcm => .gcm
  | aes256Ctr => .ctr
  | aes192Ctr => .ctr
  | aes128Ctr => .ctr

def keyLen : CipherAlg → Nat
  | chacha20Poly1305 => 64
  | aes256Gcm => 32
  | aes128Gcm => 16
  | aes256Ctr => 32
  | aes192Ctr => 24
  | aes128Ctr => 16

def ivLen : CipherAlg → Nat
  | chacha20Poly1305 => 0
  | aes256Gcm => 12
  | aes128Gcm => 12
  | aes256Ctr => 16
  | aes192Ctr => 16
  | aes128Ctr => 16

def block : CipherAlg → Nat
  | chacha20Poly1305 => 8
  | _ => 16

end CipherAlg

/-- `CIPHERS`. -/
def ciphers : List CipherAlg :=
  [.chacha20Poly1305, .aes256Gcm, .aes128Gcm, .aes256Ctr, .aes192Ctr, .aes128Ctr]

/-- The entries of `CIPHER_LIST`. -/
def cipherList : List String := ciphers.map CipherAlg.name

/-- The entries of `MACS`. -/
inductive MacAlg
  | sha512Etm
  | sha256Etm
  | sha512
  | sha256
  deriving DecidableEq, Repr

namespace MacAlg

def name : MacAlg → String
  | sha512Etm => "hmac-sha2-512-etm@openssh.com"
  | sha256Etm => "hmac-sha2-256-etm@openssh.com"
  | sha512 => "hmac-sha2-512"
  | sha256 => "hmac-sha2-256"

def digest : MacAlg → Md
  | sha512Etm => .sha512
  | sha256Etm => .sha256
  | sha512 => .sha512
  | sha256 => .sha256

def keyLen : MacAlg → Nat
  | sha512Etm => 64
  | sha256Etm => 32
  | sha512 => 64
  | sha256 => 32

def macLen : MacAlg → Nat
  | sha512Etm => 64
  | sha256Etm => 32
  | sha512 => 64
  | sha256 => 32

def etm : MacAlg → Bool
  | sha512Etm => true
  | sha256Etm => true
  | sha512 => false
  | sha256 => false

end MacAlg

/-- `MACS`. -/
def macs : List MacAlg := [.sha512Etm, .sha256Etm, .sha512, .sha256]

/-- The entries of `MAC_LIST`. -/
def macList : List String := macs.map MacAlg.name

def findCipher (name : Bytes) : Option CipherAlg := ciphers.find? fun c => utf8 c.name == name

def findMac (name : Bytes) : Option MacAlg := macs.find? fun m => utf8 m.name == name

/-! ## One direction's packet protection -/

/-- The keys are padded with zeros to their arrays. `used` is how much of the
AES-CTR keystream the cipher context has used. -/
structure PacketCipher where
  alg : Option CipherAlg := none
  mac : Option MacAlg := none
  key : Bytes := List.replicate 64 0
  iv : Bytes := List.replicate 16 0
  macKey : Bytes := List.replicate 64 0
  used : Nat := 0
  deriving DecidableEq, Repr

/-- `gcm_next_iv` counts in the last eight bytes of the twelve of the nonce; here
from the last byte on. -/
def increment : Bytes → Bytes
  | [] => []
  | b :: bs => if b + 1 = 0 then 0 :: increment bs else (b + 1) :: bs

def gcmNextIv (iv : Bytes) : Bytes :=
  iv.take 4 ++ (increment ((iv.take 12).drop 4).reverse).reverse ++ iv.drop 12

namespace PacketCipher

/-- `init`; `ok` says whether the library gave the cipher and MAC contexts. -/
def init (alg : CipherAlg) (mac : Option MacAlg) (key iv macKey : Bytes) (ok : Bool) :
    Option PacketCipher :=
  let mac := if alg.kind = .ctr then mac else none
  let macKeyLen := (mac.map MacAlg.keyLen).getD 0
  if key.length < alg.keyLen ∨ iv.length < alg.ivLen ∨ macKey.length < macKeyLen then none
  else if alg.kind = .ctr ∧ mac = none then none
  else if ok then
    some
      { alg := some alg
        mac
        key := key.take alg.keyLen ++ List.replicate (64 - alg.keyLen) 0
        iv := iv.take alg.ivLen ++ List.replicate (16 - alg.ivLen) 0
        macKey := macKey.take macKeyLen ++ List.replicate (64 - macKeyLen) 0
        used := 0 }
  else none

/-- Whether keys are in use (after the first NEWKEYS). -/
def active (c : PacketCipher) : Bool := c.alg.isSome

def block (c : PacketCipher) : Nat :=
  match c.alg with
  | none => 8
  | some a => max a.block 8

def tagLen (c : PacketCipher) : Nat :=
  match c.alg, c.mac with
  | none, _ => 0
  | some a, some m => if a.kind = .ctr then m.macLen else 16
  | some _, none => 16

/-- Whether the MAC is over the ciphertext. -/
def etm (c : PacketCipher) : Bool := (c.mac.map MacAlg.etm).getD false

/-- Whether the length field is sent in the clear or as additional data. -/
def aead (c : PacketCipher) : Bool :=
  match c.alg with
  | none => false
  | some a => a.kind != .ctr || c.etm

/-- Whether the first block has to be decrypted to read the packet length. -/
def blockFirst (c : PacketCipher) : Bool :=
  match c.alg, c.mac with
  | some a, some m => a.kind == .ctr && !m.etm
  | _, _ => false

/-- How many bytes must arrive before the packet length can be read. -/
def firstLen (c : PacketCipher) : Nat :=
  match c.alg with
  | none => 4
  | some a => if c.blockFirst then a.block else 4

section

variable (p : Primitives)

/-- One ChaCha20 operation. -/
def chacha (key : Bytes) (seq counter : UInt32) (data : Bytes) : Bytes :=
  xorStream (p.chacha key seq counter) 0 data

/-- HMAC over seq || data. -/
def hmac (c : PacketCipher) (seq : UInt32) (data : Bytes) : Option Bytes :=
  c.mac.map fun m => p.hmac m.digest (c.macKey.take m.keyLen) (Wire.putU32 seq ++ data)

def poly1305 (c : PacketCipher) (seq : UInt32) (data : Bytes) : Bytes :=
  let block := chacha p (c.key.take 32) seq 0 (List.replicate 64 0)
  p.poly1305 (block.take 32) data

/-- The AES key an algorithm uses of the key array. -/
def aesKey (c : PacketCipher) : Bytes :=
  c.key.take ((c.alg.map CipherAlg.keyLen).getD 0)

/-- `data` under the keystream the context has reached. -/
def crypt (c : PacketCipher) (data : Bytes) : Bytes := xorStream (p.ctr c.aesKey c.iv) c.used data

/-- The context after `n` bytes. -/
def advance (c : PacketCipher) (n : Nat) : PacketCipher := { c with used := c.used + n }

/-- `seal`: the cipher after it, and the sealed packet with its tag. -/
def sealPacket (c : PacketCipher) (seq : UInt32) (packet : Bytes) (crypted hashed : Bool) :
    PacketCipher × Option (Bytes × Bytes) :=
  match c.alg with
  | none => (c, some (packet, []))
  | some alg =>
    if packet.length < 4 then (c, none)
    else
      match alg.kind with
      | .ctr =>
        if c.etm then
          if crypted then
            let sealed := packet.take 4 ++ c.crypt p (packet.drop 4)
            (c.advance (packet.length - 4),
              if hashed then (c.hmac p seq sealed).map fun tag => (sealed, tag) else none)
          else (c, none)
        else
          match if hashed then c.hmac p seq packet else none with
          | none => (c, none)
          | some tag =>
            if crypted then (c.advance packet.length, some (c.crypt p packet, tag)) else (c, none)
      | .gcm =>
        let sealed := p.gcmSeal c.aesKey (c.iv.take 12) (packet.take 4) (packet.drop 4)
        -- the IV moves on even when the operation failed
        ({ c with iv := gcmNextIv c.iv },
          if crypted && hashed then some (packet.take 4 ++ sealed.1, sealed.2) else none)
      | .chaCha =>
        let sealed := chacha p (c.key.drop 32) seq 0 (packet.take 4) ++
          chacha p (c.key.take 32) seq 1 (packet.drop 4)
        (c, if crypted && hashed then some (sealed, c.poly1305 p seq sealed) else none)

/-- `length`: the cipher and the buffer after it, and the packet length. -/
def length (c : PacketCipher) (seq : UInt32) (first : Bytes) (crypted : Bool) :
    PacketCipher × Bytes × Option UInt32 :=
  let clear := (Wire.u32 first).map Prod.fst
  match c.alg with
  | none => (c, first, clear)
  | some alg =>
    if c.blockFirst then
      if first.length < alg.block ∨ crypted = false then (c, first, none)
      else
        let first := c.crypt p (first.take alg.block) ++ first.drop alg.block
        (c.advance alg.block, first, (Wire.u32 first).map Prod.fst)
    else if alg.kind = .chaCha then
      if first.length < 4 ∨ crypted = false then (c, first, none)
      else
        (c, first, (Wire.u32 (chacha p (c.key.drop 32) seq 0 (first.take 4))).map Prod.fst)
    else (c, first, clear)

/-- `open`: the cipher and the packet in place after it, and whether it verified. -/
def openPacket (c : PacketCipher) (seq : UInt32) (packet tag : Bytes) (crypted hashed : Bool) :
    PacketCipher × Bytes × Bool :=
  match c.alg with
  | none => (c, packet, true)
  | some alg =>
    if packet.length < 4 ∨ tag.length < c.tagLen then (c, packet, false)
    else
      match alg.kind with
      | .ctr =>
        match c.mac with
        | none => (c, packet, false)
        | some mac =>
          if mac.etm then
            if hashed = false ∨ c.hmac p seq packet ≠ some (tag.take mac.macLen) then
              (c, packet, false)
            else if crypted then
              (c.advance (packet.length - 4), packet.take 4 ++ c.crypt p (packet.drop 4), true)
            else (c, packet, false)
          else if packet.length < alg.block ∨ crypted = false then (c, packet, false)
          else
            let c' := c.advance (packet.length - alg.block)
            let opened := packet.take alg.block ++ c.crypt p (packet.drop alg.block)
            (c', opened, hashed && (c.hmac p seq opened == some (tag.take mac.macLen)))
      | .gcm =>
        let opened := p.gcmOpen c.aesKey (c.iv.take 12) (packet.take 4) (packet.drop 4) (tag.take 16)
        let c' := { c with iv := gcmNextIv c.iv }
        if crypted && hashed then (c', packet.take 4 ++ opened.1, opened.2) else (c', packet, false)
      | .chaCha =>
        if hashed = false ∨ c.poly1305 p seq packet ≠ tag.take 16 then (c, packet, false)
        else if crypted then
          (c, chacha p (c.key.drop 32) seq 0 (packet.take 4) ++
            chacha p (c.key.take 32) seq 1 (packet.drop 4), true)
        else (c, packet, false)

end

end PacketCipher

/-- A stand-in for libcrypto to run the code with: the keystream repeats the key,
and a tag is the beginning of the key. -/
def Primitives.keyed : Primitives where
  chacha key _ _ i := key.getD (i % 32) 0
  ctr key _ i := key.getD (i % 16) 0
  poly1305 key _ := (key ++ List.replicate 16 0).take 16
  hmac md key _ := (key ++ List.replicate md.size 0).take md.size
  gcmSeal key _ _ text :=
    (xorStream (fun i => key.getD (i % 16) 0) 0 text, (key ++ List.replicate 16 0).take 16)
  gcmOpen key _ _ text tag :=
    (xorStream (fun i => key.getD (i % 16) 0) 0 text,
      tag == (key ++ List.replicate 16 0).take 16)
  length_poly1305 := by
    intro key _
    simp only [List.length_take, List.length_append, List.length_replicate]
    omega
  length_hmac := by
    intro md key _
    simp only [List.length_take, List.length_append, List.length_replicate]
    omega
  length_gcmSeal := by
    intro key _ _ text
    exact length_xorStream 0 text
  length_gcmTag := by
    intro key _ _ _
    simp only [List.length_take, List.length_append, List.length_replicate]
    omega
  length_gcmOpen := by
    intro key _ _ text _
    exact length_xorStream 0 text
  gcmOpen_gcmSeal := by
    intro key _ _ text
    simp

end OmtClient.Ssh
