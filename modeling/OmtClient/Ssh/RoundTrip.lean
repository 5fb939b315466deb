import OmtClient.Ssh.Transport

/-!
# Packets survive the wire

What one transport sends, another with the same cipher and sequence number reads
back, however the bytes are split into reads and whatever keys are changed
between packets.

Results:
1. `padding_spec`: the padding is at least four bytes and aligns the packet as
   the receiver checks.
2. `seal_open`: what a cipher seals, the same cipher reads the length of and
   opens.
3. `readPacket_spec`: `read_packet` over any split of a sealed packet.
4. `fill_no_overflow`: the receive buffer never overflows.
5. `ops_round_trip`: whole conversations.
-/

namespace OmtClient.Ssh

open OmtClient.Lib Prog

/-! ## Padding -/

namespace RoundTripLemmas

theorem block_cases (c : PacketCipher) : c.block = 8 ∨ c.block = 16 := by
  unfold PacketCipher.block
  cases c.alg with
  | none => exact .inl rfl
  | some a => cases a <;> simp [CipherAlg.block]

/-- Filling up to the block, by at least four bytes. -/
theorem fill_block {b : Nat} (hb : b = 8 ∨ b = 16) (u : Nat) :
    let n := if b - u % b < 4 then b - u % b + b else b - u % b
    4 ≤ n ∧ n < 20 ∧ (u + n) % b = 0 := by
  rcases hb with rfl | rfl
  · dsimp only
    split <;> omega
  · dsimp only
    split <;> omega

end RoundTripLemmas

open RoundTripLemmas

/-- What the receiver checks of a packet length. -/
def aligned (c : PacketCipher) (packetLen : Nat) : Prop :=
  (if c.aead then packetLen else packetLen + 4) % c.block = 0

theorem padding_spec (c : PacketCipher) (n : Nat) :
    4 ≤ padding c n ∧ padding c n < 20 ∧ aligned c (1 + n + padding c n) := by
  obtain ⟨hmin, hmax, hmod⟩ := fill_block (block_cases c) (4 + 1 + n - if c.aead then 4 else 0)
  refine ⟨hmin, hmax, ?_⟩
  rw [aligned]
  refine Eq.trans (congrArg (· % c.block) ?_) hmod
  show _ = _ + padding c n
  cases c.aead <;> simp <;> omega

/-! ## Sealing and opening -/

/-- A CTR cipher has a MAC, as `init` makes sure. -/
def PacketCipher.Usable (c : PacketCipher) : Prop :=
  ∀ a, c.alg = some a → a.kind = .ctr → c.mac.isSome

/-- The cipher once the length of a packet has been read. -/
def PacketCipher.afterLength (c : PacketCipher) : PacketCipher :=
  if c.blockFirst then c.advance 16 else c

/-- A sealed packet in the buffer once its length has been read: the first block
is plaintext where it had to be decrypted. -/
def headOpened (c : PacketCipher) (packet sealed : Bytes) : Bytes :=
  if c.blockFirst then packet.take 16 ++ sealed.drop 16 else sealed

/-- What it takes for a sealed packet to be read back. -/
structure Reads (p : Primitives) (c : PacketCipher) (seq : UInt32) (packet : Bytes) (len : UInt32)
    (c' : PacketCipher) (sealed tag : Bytes) : Prop where
  sealed_eq : c.sealPacket p seq packet true true = (c', some (sealed, tag))
  sealed_length : sealed.length = packet.length
  tag_length : tag.length = c.tagLen
  length_eq : ∀ r, c.length p seq (sealed.take c.firstLen ++ r) true =
    (c.afterLength, (headOpened c packet sealed).take c.firstLen ++ r, some len)
  open_eq : c.afterLength.openPacket p seq (headOpened c packet sealed) tag true true =
    (c', packet, true)

namespace RoundTripLemmas

variable {p : Primitives} {c : PacketCipher} {alg : CipherAlg} (seq len : UInt32) (body : Bytes)

theorem take_packet : (Wire.putU32 len ++ body).take 4 = Wire.putU32 len :=
  List.take_left' (Wire.length_putU32 len)

theorem drop_packet : (Wire.putU32 len ++ body).drop 4 = body :=
  List.drop_left' (Wire.length_putU32 len)

theorem reads_none (halg : c.alg = none) :
    Reads p c seq (Wire.putU32 len ++ body) len c (Wire.putU32 len ++ body) [] := by
  have hfirst : c.blockFirst = false := by simp [PacketCipher.blockFirst, halg]
  have hlen : c.firstLen = 4 := by simp [PacketCipher.firstLen, halg]
  constructor
  · simp [PacketCipher.sealPacket, halg]
  · rfl
  · simp [PacketCipher.tagLen, halg]
  · intro r
    simp only [hlen, headOpened, PacketCipher.afterLength, hfirst, PacketCipher.length, halg,
      take_packet, Wire.u32_putU32]
    rfl
  · simp [PacketCipher.afterLength, hfirst, headOpened, PacketCipher.openPacket, halg]

/-- The length field of a cipher that sends it in the clear. -/
theorem length_clear (halg : c.alg = some alg) (hfirst : c.blockFirst = false)
    (hkind : alg.kind ≠ .chaCha) (r : Bytes) :
    c.length p seq (Wire.putU32 len ++ r) true = (c, Wire.putU32 len ++ r, some len) := by
  simp [PacketCipher.length, halg, hfirst, hkind, Wire.u32_putU32]

/-- A cipher with its own tag sends the length first and 16 bytes behind the packet. -/
theorem aead_lengths (halg : c.alg = some alg) (hkind : alg.kind = .gcm ∨ alg.kind = .chaCha) :
    c.blockFirst = false ∧ c.firstLen = 4 ∧ c.tagLen = 16 := by
  have hfirst : c.blockFirst = false := by
    unfold PacketCipher.blockFirst
    rw [halg]
    rcases hkind with hkind | hkind <;> cases c.mac <;> simp [hkind]
  refine ⟨hfirst, by simp [PacketCipher.firstLen, halg, hfirst], ?_⟩
  unfold PacketCipher.tagLen
  rw [halg]
  rcases hkind with hkind | hkind <;> cases c.mac <;> simp [hkind]

theorem reads_gcm (halg : c.alg = some alg) (hkind : alg.kind = .gcm) :
    ∃ sealed tag, Reads p c seq (Wire.putU32 len ++ body) len { c with iv := gcmNextIv c.iv }
      sealed tag := by
  obtain ⟨hfirst, hlen, htag⟩ := aead_lengths halg (.inl hkind)
  set out := p.gcmSeal c.aesKey (c.iv.take 12) (Wire.putU32 len) body with hout
  refine ⟨Wire.putU32 len ++ out.1, out.2, ?_, ?_, ?_, ?_, ?_⟩
  · simp [PacketCipher.sealPacket, halg, hkind, take_packet, drop_packet, hout]
  · simp [hout, p.length_gcmSeal]
  · rw [htag, hout, p.length_gcmTag]
  · intro r
    simp only [hlen, headOpened, PacketCipher.afterLength, hfirst, take_packet]
    exact length_clear seq len halg hfirst (by simp [hkind]) r
  · have htl : out.2.length = 16 := by rw [hout, p.length_gcmTag]
    have htake : out.2.take 16 = out.2 := List.take_of_length_le (Nat.le_of_eq htl)
    have hopen : p.gcmOpen c.aesKey (c.iv.take 12) (Wire.putU32 len) out.1 out.2 = (body, true) := by
      rw [hout, p.gcmOpen_gcmSeal]
    clear_value out
    simp [PacketCipher.afterLength, hfirst, headOpened, PacketCipher.openPacket, halg, hkind,
      take_packet, drop_packet, htag, htake, hopen, htl]

theorem reads_chaCha (halg : c.alg = some alg) (hkind : alg.kind = .chaCha) :
    ∃ sealed tag, Reads p c seq (Wire.putU32 len ++ body) len c sealed tag := by
  obtain ⟨hfirst, hlen, htag⟩ := aead_lengths halg (.inr hkind)
  set head := PacketCipher.chacha p (c.key.drop 32) seq 0 (Wire.putU32 len) with hhead
  set rest := PacketCipher.chacha p (c.key.take 32) seq 1 body with hrest
  have hhl : head.length = 4 := by simp [hhead, PacketCipher.chacha]
  have htake : (head ++ rest).take 4 = head := List.take_left' hhl
  have hdrop : (head ++ rest).drop 4 = rest := List.drop_left' hhl
  refine ⟨head ++ rest, c.poly1305 p seq (head ++ rest), ?_, ?_, ?_, ?_, ?_⟩
  · simp [PacketCipher.sealPacket, halg, hkind, take_packet, drop_packet, hhead, hrest]
  · simp [hhl, hrest, PacketCipher.chacha]
  · rw [htag, PacketCipher.poly1305, p.length_poly1305]
  · intro r
    have hfour : (head ++ r).take 4 = head := List.take_left' hhl
    have hback : PacketCipher.chacha p (c.key.drop 32) seq 0 head = Wire.putU32 len := by
      simp [hhead, PacketCipher.chacha]
    have hu := Wire.u32_putU32 len []
    rw [List.append_nil] at hu
    simp [hlen, headOpened, PacketCipher.afterLength, hfirst, htake, PacketCipher.length, halg,
      hkind, hfour, hback, hu, hhl]
  · have hone : PacketCipher.chacha p (c.key.drop 32) seq 0 head = Wire.putU32 len := by
      simp [hhead, PacketCipher.chacha]
    have htwo : PacketCipher.chacha p (c.key.take 32) seq 1 rest = body := by
      simp [hrest, PacketCipher.chacha]
    have hpoly : (c.poly1305 p seq (head ++ rest)).length = 16 := by
      rw [PacketCipher.poly1305, p.length_poly1305]
    have hshort : (c.poly1305 p seq (head ++ rest)).take 16 = c.poly1305 p seq (head ++ rest) :=
      List.take_of_length_le (Nat.le_of_eq hpoly)
    simp [PacketCipher.afterLength, hfirst, headOpened, PacketCipher.openPacket, halg, hkind,
      htake, hdrop, htag, hshort, hone, htwo, hpoly, hhl]

theorem macLen_eq (m : MacAlg) : m.macLen = m.digest.size := by cases m <;> rfl

theorem block_ctr (hkind : alg.kind = .ctr) : alg.block = 16 := by
  cases alg <;> first | rfl | exact nomatch hkind

theorem hmac_eq {m : MacAlg} (hmac : c.mac = some m) (data : Bytes) :
    ∃ tag, c.hmac p seq data = some tag ∧ tag.length = m.macLen := by
  refine ⟨p.hmac m.digest (c.macKey.take m.keyLen) (Wire.putU32 seq ++ data), ?_, ?_⟩
  · simp [PacketCipher.hmac, hmac]
  · rw [p.length_hmac, macLen_eq]

theorem reads_etm {m : MacAlg} (halg : c.alg = some alg) (hkind : alg.kind = .ctr)
    (hmac : c.mac = some m) (hetm : m.etm = true) :
    ∃ sealed tag, Reads p c seq (Wire.putU32 len ++ body) len (c.advance body.length)
      sealed tag := by
  have hfirst : c.blockFirst = false := by simp [PacketCipher.blockFirst, halg, hmac, hetm]
  have hlen : c.firstLen = 4 := by simp [PacketCipher.firstLen, halg, hfirst]
  have htag : c.tagLen = m.macLen := by simp [PacketCipher.tagLen, halg, hmac, hkind]
  have hcetm : c.etm = true := by simp [PacketCipher.etm, hmac, hetm]
  set rest := c.crypt p body with hrest
  have hrl : rest.length = body.length := by simp [hrest, PacketCipher.crypt]
  obtain ⟨tag, hhash, htl⟩ := hmac_eq (p := p) seq hmac (Wire.putU32 len ++ rest)
  refine ⟨Wire.putU32 len ++ rest, tag, ?_, ?_, ?_, ?_, ?_⟩
  · simp [PacketCipher.sealPacket, halg, hkind, take_packet, drop_packet, hcetm, ← hrest, hhash]
  · simp [hrl]
  · rw [htag, htl]
  · intro r
    simp only [hlen, headOpened, PacketCipher.afterLength, hfirst, take_packet]
    exact length_clear seq len halg hfirst (by simp [hkind]) r
  · have htake : tag.take m.macLen = tag := List.take_of_length_le (Nat.le_of_eq htl)
    have hback : c.crypt p rest = body := by simp [hrest, PacketCipher.crypt]
    simp [PacketCipher.afterLength, hfirst, headOpened, PacketCipher.openPacket, halg, hkind, hmac,
      hetm, take_packet, drop_packet, htag, htl, htake, hhash, hback, hrl]

/-- A keystream used for the first block and then for the rest. -/
theorem crypt_split (packet : Bytes) (n : Nat) (hn : n ≤ packet.length) :
    c.crypt p packet = c.crypt p (packet.take n) ++ (c.advance n).crypt p (packet.drop n) := by
  have hlen : (packet.take n).length = n := List.length_take_of_le hn
  conv_lhs => rw [← List.take_append_drop n packet]
  unfold PacketCipher.crypt
  rw [xorStream_append, hlen]
  rfl

theorem crypt_crypt (data : Bytes) : c.crypt p (c.crypt p data) = data := by
  simp [PacketCipher.crypt]

theorem length_crypt (data : Bytes) : (c.crypt p data).length = data.length := by
  simp [PacketCipher.crypt]

theorem hmac_advance (n : Nat) (data : Bytes) :
    (c.advance n).hmac p seq data = c.hmac p seq data := rfl

theorem reads_plain {m : MacAlg} (halg : c.alg = some alg) (hkind : alg.kind = .ctr)
    (hmac : c.mac = some m) (hetm : m.etm = false) (hbody : c.firstLen ≤ 4 + body.length) :
    ∃ sealed tag, Reads p c seq (Wire.putU32 len ++ body) len (c.advance (4 + body.length))
      sealed tag := by
  have hfirst : c.blockFirst = true := by simp [PacketCipher.blockFirst, halg, hkind, hmac, hetm]
  have hlen : c.firstLen = 16 := by
    simp [PacketCipher.firstLen, halg, hfirst, block_ctr hkind]
  rw [hlen] at hbody
  have htag : c.tagLen = m.macLen := by simp [PacketCipher.tagLen, halg, hmac, hkind]
  have hcetm : c.etm = false := by simp [PacketCipher.etm, hmac, hetm]
  set packet := Wire.putU32 len ++ body with hpacket
  have hpl : packet.length = 4 + body.length := by simp [hpacket]
  obtain ⟨tag, hhash, htl⟩ := hmac_eq (p := p) seq hmac packet
  set head := c.crypt p (packet.take 16) with hhead
  set rest := (c.advance 16).crypt p (packet.drop 16) with hrest
  have hhl : head.length = 16 := by
    rw [hhead, length_crypt, List.length_take_of_le]
    omega
  have hsealed : c.crypt p packet = head ++ rest := crypt_split packet 16 (by omega)
  have htake : (head ++ rest).take 16 = head := List.take_left' hhl
  have hdrop : (head ++ rest).drop 16 = rest := List.drop_left' hhl
  have hptake : (packet.take 16).length = 16 := List.length_take_of_le (by omega)
  have hopened : headOpened c packet (head ++ rest) = packet.take 16 ++ rest := by
    simp [headOpened, hfirst, hdrop]
  refine ⟨head ++ rest, tag, ?_, ?_, ?_, ?_, ?_⟩
  · simp [PacketCipher.sealPacket, halg, hkind, hcetm, hhash, hsealed, hpl]
  · rw [← hsealed, length_crypt]
  · rw [htag, htl]
  · intro r
    have hr : (head ++ r).take 16 = head := List.take_left' hhl
    have hrd : (head ++ r).drop 16 = r := List.drop_left' hhl
    have hback : c.crypt p head = packet.take 16 := by rw [hhead, crypt_crypt]
    have hfield : Wire.u32 (packet.take 16 ++ r) = some (len, body.take 12 ++ r) := by
      have hsplit : packet.take 16 = Wire.putU32 len ++ body.take 12 := by
        rw [hpacket, show 16 = (Wire.putU32 len).length + 12 from rfl, List.take_length_add_append]
      rw [hsplit, List.append_assoc, Wire.u32_putU32]
    have hot : (packet.take 16 ++ rest).take 16 = packet.take 16 := List.take_left' hptake
    have hnot : ¬ (head ++ r).length < 16 := by rw [List.length_append, hhl]; omega
    simp only [hlen, hopened, hot, htake, PacketCipher.length, halg, hfirst, block_ctr hkind, hr, hrd,
      hback, hfield, PacketCipher.afterLength, if_true, hnot, false_or, Bool.true_eq_false,
      if_false, Option.map_some]
  · have hod : (packet.take 16 ++ rest).drop 16 = rest := List.drop_left' hptake
    have hot : (packet.take 16 ++ rest).take 16 = packet.take 16 := List.take_left' hptake
    have hback : (c.advance 16).crypt p rest = packet.drop 16 := by rw [hrest, crypt_crypt]
    have hshort : tag.take m.macLen = tag := List.take_of_length_le (Nat.le_of_eq htl)
    have hol : (packet.take 16 ++ rest).length = packet.length := by
      rw [List.length_append, hptake, hrest, length_crypt, List.length_drop]
      omega
    have halg' : (c.advance 16).alg = some alg := halg
    have hmac' : (c.advance 16).mac = some m := hmac
    have htag' : (c.advance 16).tagLen = m.macLen := htag
    have hused : (c.advance 16).advance (packet.length - 16) = c.advance (4 + body.length) := by
      simp only [PacketCipher.advance, hpl]
      congr 1
      omega
    have hafter : c.afterLength = c.advance 16 := by simp [PacketCipher.afterLength, hfirst]
    have hnot : ¬ (packet.length < 4 ∨ tag.length < m.macLen) := by omega
    have hnot' : ¬ (packet.length < 16) := by omega
    simp only [hafter, hopened, PacketCipher.openPacket, halg', hkind, hmac', hetm, htag',
      block_ctr hkind, hod, hot, hback, hol, hshort, hmac_advance, List.take_append_drop, hhash,
      hused, hnot, hnot', if_false, false_or, Bool.true_eq_false, Bool.false_eq_true, beq_self_eq_true,
      Bool.and_self]

end RoundTripLemmas

/-- What a usable cipher seals, the same cipher reads the length of and opens,
and both ends stay in step. -/
theorem seal_open {p : Primitives} {c : PacketCipher} (hc : c.Usable) (seq len : UInt32)
    (body : Bytes) (hbody : c.firstLen ≤ 4 + body.length) :
    ∃ c' sealed tag, Reads p c seq (Wire.putU32 len ++ body) len c' sealed tag ∧ c'.Usable := by
  cases halg : c.alg with
  | none => exact ⟨c, _, _, reads_none seq len body halg, hc⟩
  | some alg =>
    cases hkind : alg.kind with
    | chaCha =>
      obtain ⟨sealed, tag, h⟩ := reads_chaCha (p := p) seq len body halg hkind
      exact ⟨c, sealed, tag, h, hc⟩
    | gcm =>
      obtain ⟨sealed, tag, h⟩ := reads_gcm (p := p) seq len body halg hkind
      exact ⟨_, sealed, tag, h, hc⟩
    | ctr =>
      obtain ⟨m, hmac⟩ := Option.isSome_iff_exists.mp (hc alg halg hkind)
      cases hetm : m.etm with
      | true =>
        obtain ⟨sealed, tag, h⟩ := reads_etm (p := p) seq len body halg hkind hmac hetm
        exact ⟨_, sealed, tag, h, hc⟩
      | false =>
        obtain ⟨sealed, tag, h⟩ := reads_plain (p := p) seq len body halg hkind hmac hetm hbody
        exact ⟨_, sealed, tag, h, hc⟩

/-! ## Reading one packet -/

/-- Every call that may fail succeeds. -/
def World.Lucky (w : World) : Prop := ∀ n, w.luck n = true

/-- The bytes that arrive. -/
def arriving (as : List Arrival) : Bytes := as.flatMap Arrival.bytes

/-- Nothing but data and silence arrives. -/
def Feeds (as : List Arrival) : Prop := ∀ a ∈ as, a = .quiet ∨ ∃ bytes fits, a = .data bytes fits

/-- A transport reading a packet that arrives: where it is, against the sealed
packet and what follows it. -/
structure Reading (c : PacketCipher) (seq len : UInt32) (packet sealed after : Bytes) (strict : Bool)
    (t : Transport) : Prop where
  sock : t.sock = true
  feeds : Feeds t.arrivals
  recvSeq : t.recvSeq = seq
  strictKex : t.strictKex = strict
  stage : (t.pktLen = none ∧ t.recv = c ∧
      t.rbuf ++ arriving t.arrivals = sealed ++ after) ∨
    (t.pktLen = some len ∧ t.recv = c.afterLength ∧
      t.rbuf ++ arriving t.arrivals = headOpened c packet sealed ++ after)

namespace RoundTripLemmas

theorem fill_spec {t : Transport} (hsock : t.sock = true) (hfeeds : Feeds t.arrivals)
    (hmore : arriving t.arrivals ≠ [])
    (hroom : t.rbuf.length + chunkSize ≤ 2 * maxPacket + 4096) :
    wp fill (fun ok t' => ok = true ∧ ∃ rbuf arrivals, t' = { t with rbuf, arrivals } ∧
      rbuf ++ arriving arrivals = t.rbuf ++ arriving t.arrivals ∧ Feeds arrivals ∧
      arrivals.length < t.arrivals.length) (fun _ _ => False) t := by
  rw [fill, wp_bind, wp_get]
  -- only silence has been skipped so far
  refine wp_loop (fun u => ∃ arrivals, u = { t with arrivals } ∧ arriving arrivals = arriving t.arrivals ∧
    Feeds arrivals ∧ arrivals.length ≤ t.arrivals.length) (fun u => u.arrivals.length) ?_
    ⟨t.arrivals, rfl, rfl, hfeeds, Nat.le_refl _⟩ (Nat.lt_succ_self _)
  rintro u ⟨arrivals, rfl, hbytes, hfeeds, hlen⟩
  rw [fillTurn, wp_bind, wp_get]
  cases arrivals with
  | nil => exact absurd hbytes.symm hmore
  | cons a rest =>
    simp only [wp_bind, wp_modify]
    have hrest : Feeds rest := fun b hb => hfeeds b (List.mem_cons_of_mem a hb)
    rcases hfeeds a List.mem_cons_self with rfl | ⟨bytes, fits, rfl⟩
    · simp only [hsock, if_true, wp_pure]
      exact ⟨⟨rest, rfl, hbytes, hrest, Nat.le_of_succ_le hlen⟩, Nat.lt_succ_self _⟩
    · have hfit : ¬ 2 * maxPacket + 4096 < t.rbuf.length + bytes.length := by
        have := fits.2
        omega
      simp only [hsock, if_true, hfit, if_false, wp_bind, wp_modify, wp_pure]
      refine ⟨trivial, t.rbuf ++ bytes, rest, rfl, ?_, hrest, hlen⟩
      rw [List.append_assoc, ← hbytes]
      rfl

variable {w : World} {c c' : PacketCipher} {seq len : UInt32} {packet sealed tag rest : Bytes}
  {strict : Bool} {t : Transport}

theorem firstLen_le (c : PacketCipher) : c.firstLen ≤ 16 := by
  unfold PacketCipher.firstLen
  cases c.alg with
  | none => simp only []; omega
  | some a => cases a <;> simp only [CipherAlg.block] <;> split <;> omega

/-- What it means to have to decrypt the first block. -/
theorem blockFirst_spec (h : c.blockFirst = true) :
    c.firstLen = 16 ∧ c.block = 16 ∧ c.aead = false := by
  have h' := h
  unfold PacketCipher.blockFirst at h'
  split at h'
  · next a m halg hmac =>
    simp only [Bool.and_eq_true, beq_iff_eq, Bool.not_eq_true'] at h'
    have h16 := block_ctr h'.1
    refine ⟨?_, ?_, ?_⟩
    · simp [PacketCipher.firstLen, halg, h, h16]
    · simp [PacketCipher.block, halg, h16]
    · simp [PacketCipher.aead, halg, h'.1, PacketCipher.etm, hmac, h'.2]
  · exact nomatch h'

/-- A packet aligned to the block holds the bytes its length is read from. -/
theorem firstLen_le_total {n : Nat} (h : aligned c n) (hn : 1 ≤ n) : c.firstLen ≤ 4 + n := by
  cases hfirst : c.blockFirst with
  | true =>
    obtain ⟨h1, h2, h3⟩ := blockFirst_spec hfirst
    unfold aligned at h
    rw [h2, h3] at h
    simp only [Bool.false_eq_true, if_false] at h
    omega
  | false =>
    unfold PacketCipher.firstLen
    cases c.alg <;> simp [hfirst]

/-- A buffer that holds the beginning of a stream is its first bytes. -/
theorem buffer_split {a s r rest : Bytes} {n : Nat} (h : a ++ r = s ++ rest) (ha : n ≤ a.length)
    (hs : n ≤ s.length) : a = s.take n ++ a.drop n ∧ a.drop n ++ r = s.drop n ++ rest := by
  have htake : a.take n = s.take n := by
    have := congrArg (List.take n) h
    rwa [List.take_append_of_le_length ha, List.take_append_of_le_length hs] at this
  have hdrop : a.drop n ++ r = s.drop n ++ rest := by
    have := congrArg (List.drop n) h
    rwa [List.drop_append_of_le_length ha, List.drop_append_of_le_length hs] at this
  exact ⟨by rw [← htake, List.take_append_drop], hdrop⟩

theorem length_headOpened (hlen : sealed.length = packet.length) :
    (headOpened c packet sealed).length = packet.length := by
  unfold headOpened
  split
  · simp only [List.length_append, List.length_take, List.length_drop, hlen]
    omega
  · exact hlen

/-- Past the bytes needed for the length, both readings of the buffer agree. -/
theorem drop_headOpened (hpacket : c.firstLen ≤ packet.length) :
    (headOpened c packet sealed).drop c.firstLen = sealed.drop c.firstLen := by
  unfold headOpened
  split
  · next hfirst =>
    rw [(blockFirst_spec hfirst).1] at hpacket ⊢
    exact List.drop_left' (List.length_take_of_le hpacket)
  · rfl

theorem readLength_spec (hw : w.Lucky) (hr : Reads w.prims c seq packet len c' sealed tag)
    (hpacket : c.firstLen ≤ packet.length) (hmin : 5 ≤ len.toNat) (hmax : len.toNat ≤ maxPacket)
    (halign : aligned c len.toNat) (h : Reading c seq len packet sealed rest strict t) :
    wp (readLength w) (fun _ t' => Reading c seq len packet sealed rest strict t' ∧
      t'.arrivals = t.arrivals ∧ (t'.pktLen = none → t'.rbuf.length < c.firstLen))
      (fun _ _ => False) t := by
  rw [readLength, wp_bind, wp_get, wp_ite]
  constructor
  · rintro ⟨hnone, hfirst⟩
    rcases h.stage with ⟨_, hrecv, hbuf⟩ | ⟨hsome, _⟩
    · rw [hrecv] at hfirst
      have hsealed : c.firstLen ≤ sealed.length := by
        rw [hr.sealed_length]
        exact hpacket
      obtain ⟨hhead, htail⟩ := buffer_split hbuf hfirst hsealed
      have hlength := hr.length_eq (t.rbuf.drop c.firstLen)
      rw [← hhead] at hlength
      have hgood : ¬ (len.toNat < 5 ∨ maxPacket < len.toNat ∨
          (if c.aead then len.toNat else len.toNat + 4) % c.block ≠ 0) := by
        rintro (h1 | h1 | h1)
        · omega
        · omega
        · exact h1 halign
      simp only [wp_bind, wp_luck, hw t.tried, hrecv, h.recvSeq, hlength, wp_modify, wp_orRaise,
        wp_ite, hgood, not_false_eq_true, forall_const, false_imp_iff, true_and, Option.some.injEq,
        forall_eq', reduceCtorEq, and_true]
      refine ⟨h.sock, h.feeds, rfl, h.strictKex, .inr ⟨rfl, rfl, ?_⟩⟩
      rw [List.append_assoc, htail, ← drop_headOpened hpacket, ← List.append_assoc,
        List.take_append_drop]
    · cases hnone.symm.trans hsome
  · intro hnot
    refine ⟨h, rfl, fun hnone => ?_⟩
    rcases h.stage with ⟨_, hrecv, _⟩ | ⟨hsome, _⟩
    · rw [hrecv] at hnot
      exact Nat.not_le.mp fun hle => hnot ⟨hnone, hle⟩
    · cases hnone.symm.trans hsome

/-- A packet as it goes on the wire and how it is read back. -/
structure Carried (p : Primitives) (c : PacketCipher) (seq : UInt32) (payload pad : Bytes)
    (len : UInt32) (c' : PacketCipher) (sealed tag : Bytes) : Prop where
  reads : Reads p c seq (Wire.putU32 len ++ UInt8.ofNat (min pad.length 255) :: payload ++ pad) len
    c' sealed tag
  usable : c'.Usable
  len_eq : len.toNat = 1 + payload.length + pad.length
  pad_le : 4 ≤ pad.length ∧ pad.length < 20
  len_le : len.toNat ≤ maxPacket
  aligned_len : aligned c len.toNat

theorem tagLen_le (c : PacketCipher) : c.tagLen ≤ 64 := by
  unfold PacketCipher.tagLen
  split
  · omega
  · next a m _ _ => cases m <;> simp only [MacAlg.macLen] <;> split <;> omega
  · omega

theorem tagLen_afterLength : c.afterLength.tagLen = c.tagLen := by
  unfold PacketCipher.afterLength
  split
  · rfl
  · rfl

/-- A transport that has read a packet, with what follows it still to come. -/
structure Done (c : PacketCipher) (seq : UInt32) (payload after : Bytes) (strict : Bool)
    (t : Transport) : Prop where
  payload : t.payload = payload
  sock : t.sock = true
  feeds : Feeds t.arrivals
  recvSeq : t.recvSeq = seq
  strictKex : t.strictKex = strict
  pktLen : t.pktLen = none
  recv : t.recv = c
  buffered : t.rbuf ++ arriving t.arrivals = after

theorem takePacket_spec (hw : w.Lucky) {payload pad after : Bytes}
    (hr : Carried w.prims c seq payload pad len c' sealed tag) (hpay : 1 ≤ payload.length)
    (hpacket : packet = Wire.putU32 len ++ UInt8.ofNat (min pad.length 255) :: payload ++ pad)
    (h : Reading c seq len packet sealed (tag ++ after) strict t)
    (hsome : t.pktLen = some len) (hwhole : 4 + len.toNat + c.tagLen ≤ t.rbuf.length) :
    wp (takePacket w len.toNat) (fun _ t' => Done c' (seq + 1) payload after strict t')
      (fun _ _ => False) t := by
  obtain ⟨hreads, -, hlen, hpad, -, -⟩ := hr
  rw [← hpacket] at hreads
  rcases h.stage with ⟨hnone, _⟩ | ⟨_, hrecv, hbuf⟩
  · exact nomatch hnone.symm.trans hsome
  have htotal : packet.length = 4 + len.toNat := by
    rw [hpacket, hlen]
    simp
    omega
  set opened := headOpened c packet sealed with hopened
  have hol : opened.length = 4 + len.toNat := by
    rw [hopened, length_headOpened hreads.sealed_length, htotal]
  -- the buffer is the packet, its tag and the beginning of what follows
  obtain ⟨hhead, htail⟩ := buffer_split (n := 4 + len.toNat) hbuf (by omega) (by omega)
  rw [List.drop_of_length_le (Nat.le_of_eq hol), List.nil_append] at htail
  rw [List.take_of_length_le (Nat.le_of_eq hol)] at hhead
  have hdl : tag.length ≤ (t.rbuf.drop (4 + len.toNat)).length := by
    rw [List.length_drop, hreads.tag_length]
    omega
  obtain ⟨htag, hafter⟩ := buffer_split (n := tag.length) htail hdl (Nat.le_refl _)
  rw [List.drop_length, List.nil_append] at hafter
  have h1 : t.rbuf.take (4 + len.toNat) = opened := by
    rw [hhead]
    exact List.take_left' hol
  have h2 : (t.rbuf.drop (4 + len.toNat)).take c.tagLen = tag := by
    rw [htag, List.take_length]
    exact List.take_left' hreads.tag_length
  have hcount : (packet.getD 4 0).toNat = pad.length := by
    have hget : packet.getD 4 0 = UInt8.ofNat (min pad.length 255) := by
      rw [hpacket]; rfl
    rw [hget, UInt8.toNat_ofNat', Nat.min_eq_left (by omega)]
    exact Nat.mod_eq_of_lt (by omega)
  have hbody : (packet.drop 5).take (len.toNat - 1 - pad.length) = payload := by
    have hd : packet.drop 5 = payload ++ pad := by rw [hpacket]; rfl
    rw [hd]
    exact List.take_left' (by omega)
  have hgood : ¬ (pad.length < 4 ∨ len.toNat ≤ pad.length + 1) := by omega
  have hopen := hreads.open_eq
  rw [← hopened] at hopen
  simp only [takePacket, wp_bind, wp_get, wp_luck, hrecv, tagLen_afterLength, h1, h2, h.recvSeq,
    hw t.tried, hw (t.tried + 1), hopen, wp_modify, Bool.not_true, Bool.false_eq_true, if_false,
    hcount, hbody, hgood]
  refine ⟨rfl, h.sock, h.feeds, rfl, h.strictKex, rfl, rfl, ?_⟩
  rw [← List.drop_drop, List.drop_left' htotal, ← hreads.tag_length]
  exact hafter

end RoundTripLemmas

/-- `read_packet` over any split of a sealed packet and what follows it. -/
theorem readPacket_spec {w : World} (hw : w.Lucky) {c c' : PacketCipher} {seq len : UInt32}
    {packet sealed tag payload pad after : Bytes} {strict : Bool} {t : Transport}
    (hr : Carried w.prims c seq payload pad len c' sealed tag) (hpay : 1 ≤ payload.length)
    (hpacket : packet = Wire.putU32 len ++ UInt8.ofNat (min pad.length 255) :: payload ++ pad)
    (h : Reading c seq len packet sealed (tag ++ after) strict t) :
    wp (readPacket w) (fun r t' => r = .packet ∧ Done c' (seq + 1) payload after strict t')
      (fun _ _ => False) t := by
  obtain ⟨hreads, -, hlen, hpad, hmax, halign⟩ := id hr
  rw [← hpacket] at hreads
  have htotal : packet.length = 4 + len.toNat := by
    rw [hpacket, hlen]
    simp
    omega
  have hmin : c.firstLen ≤ packet.length := by
    rw [htotal]
    exact firstLen_le_total halign (by omega)
  have htag := tagLen_le c
  rw [readPacket, wp_bind, wp_get]
  refine wp_loop (Reading c seq len packet sealed (tag ++ after) strict)
    (fun u => u.arrivals.length) ?_ h (Nat.lt_succ_self _)
  intro u hu
  rw [readTurn, wp_bind]
  refine wp_mono (readLength_spec hw hreads hmin (by omega) hmax halign hu) ?_ (fun _ _ hf => hf)
  rintro _ v ⟨hv, harr, hshort⟩
  rw [wp_bind, wp_get]
  cases hwhole : v.whole with
  | some n =>
    unfold Transport.whole at hwhole
    split at hwhole
    · cases hwhole
    · next l hl =>
      split at hwhole
      · next hfull =>
        cases hwhole
        rcases hv.stage with ⟨hnone, _⟩ | ⟨hsome, hrecv, _⟩
        · cases hnone.symm.trans hl
        · cases hl.symm.trans hsome
          rw [hrecv, tagLen_afterLength] at hfull
          simp only [wp_bind, wp_pure, true_and]
          exact takePacket_spec hw hr hpay hpacket hv hl hfull
      · cases hwhole
  | none =>
    -- the packet is not all there: the buffer is short and there is more to come
    have hless : v.rbuf.length < 4 + len.toNat + c.tagLen := by
      rcases hv.stage with ⟨hnone, _, _⟩ | ⟨hsome, hrecv, _⟩
      · have := hshort hnone
        omega
      · simp only [Transport.whole, hsome, hrecv, tagLen_afterLength] at hwhole
        split at hwhole
        · cases hwhole
        · omega
    have hmore : arriving v.arrivals ≠ [] := by
      intro hnil
      have hall : v.rbuf.length = packet.length + (tag ++ after).length := by
        rcases hv.stage with ⟨_, _, hbuf⟩ | ⟨_, _, hbuf⟩
        · rw [hnil, List.append_nil] at hbuf
          rw [hbuf, List.length_append, hreads.sealed_length]
        · rw [hnil, List.append_nil] at hbuf
          rw [hbuf, List.length_append, length_headOpened hreads.sealed_length]
      rw [List.length_append, hreads.tag_length] at hall
      omega
    simp only [wp_bind]
    have hroom : v.rbuf.length + chunkSize ≤ 2 * maxPacket + 4096 := by
      simp only [maxPacket, chunkSize] at *
      omega
    refine wp_mono (fill_spec hv.sock hv.feeds hmore hroom) ?_ (fun _ _ hf => hf)
    rintro ok x ⟨rfl, rbuf, arrivals, rfl, hbuf, hfeeds, hfewer⟩
    simp only [if_true, wp_pure]
    refine ⟨⟨hv.sock, hfeeds, hv.recvSeq, hv.strictKex, ?_⟩, by rw [← harr]; exact hfewer⟩
    rcases hv.stage with ⟨hnone, hrecv, hb⟩ | ⟨hsome, hrecv, hb⟩
    · exact .inl ⟨hnone, hrecv, hbuf.trans hb⟩
    · exact .inr ⟨hsome, hrecv, hbuf.trans hb⟩

/-! ## The receive buffer -/

def overflow : Fault := .text "SSH receive buffer overflow"

/-- The length of the packet being read was accepted. -/
def Bounded (t : Transport) : Prop := ∀ len, t.pktLen = some len → len.toNat ≤ maxPacket

namespace RoundTripLemmas

variable {w : World} {t : Transport}

/-- The socket's errors start with their own words. -/
theorem append_ne_overflow {what : String} {c : Char} (hwhat : what.toList.head? = some c)
    (hc : c ≠ 'S') (detail : String) : Fault.text (what ++ detail) ≠ overflow := by
  intro h
  have hhead : (what ++ detail).toList.head? = some 'S' := by rw [Fault.text.inj h]; decide
  rw [String.toList_append, List.head?_append, hwhat, Option.some_or] at hhead
  exact hc (Option.some.inj hhead)

theorem text_ne_overflow (e : SockError) : Fault.text e.text ≠ overflow := by
  cases e with
  | cancelled => decide
  | read detail => exact append_ne_overflow (c := 'n') (by decide) (by decide) detail
  | wait detail => exact append_ne_overflow (c := 'n') (by decide) (by decide) detail

/-- With room for one more read `fill` does not overflow, and touches nothing but
the buffer. -/
theorem fill_no_overflow (hroom : t.rbuf.length + chunkSize ≤ 2 * maxPacket + 4096) :
    wp fill (fun more t' => t'.pktLen = t.pktLen ∧
        (more = true → t'.arrivals.length < t.arrivals.length))
      (fun e t' => t'.pktLen = t.pktLen ∧ e ≠ overflow) t := by
  rw [fill, wp_bind, wp_get]
  refine wp_loop (fun u => u.pktLen = t.pktLen ∧ u.rbuf = t.rbuf ∧
    u.arrivals.length ≤ t.arrivals.length) (fun u => u.arrivals.length) ?_
    ⟨rfl, rfl, Nat.le_refl _⟩ (Nat.lt_succ_self _)
  rintro u ⟨hpkt, hbuf, hlen⟩
  rw [fillTurn, wp_bind, wp_get]
  cases harr : u.arrivals with
  | nil => exact ⟨hpkt, fun h => nomatch h⟩
  | cons a rest =>
    rw [harr, List.length_cons] at hlen
    simp only [wp_bind, wp_modify]
    cases a with
    | deadline => exact ⟨hpkt, fun h => nomatch h⟩
    | quiet =>
      rw [wp_ite]
      exact ⟨fun _ => ⟨⟨hpkt, hbuf, by simp only []; omega⟩, Nat.lt_succ_self _⟩,
        fun _ => ⟨hpkt, by decide⟩⟩
    | eof => exact ⟨hpkt, by decide⟩
    | failed e => exact ⟨hpkt, text_ne_overflow e⟩
    | data bytes fits =>
      have hfit : ¬ 2 * maxPacket + 4096 < u.rbuf.length + bytes.length := by
        rw [hbuf]
        have := fits.2
        omega
      simp only [hfit, if_false, wp_ite, wp_bind, wp_modify, wp_pure]
      exact ⟨fun _ => ⟨hpkt, fun _ => by omega⟩, fun _ => ⟨hpkt, by decide⟩⟩

theorem readLength_no_overflow (h : Bounded t) :
    wp (readLength w) (fun _ t' => Bounded t' ∧ t'.arrivals = t.arrivals ∧
        (t'.pktLen = none → t'.rbuf.length < 16))
      (fun e t' => Bounded t' ∧ e ≠ overflow) t := by
  rw [readLength, wp_bind, wp_get, wp_ite]
  constructor
  · rintro ⟨hnone, _⟩
    simp only [wp_bind, wp_luck, wp_modify, wp_orRaise, wp_ite, wp_fail]
    refine ⟨fun len _ => ⟨fun _ => ⟨h, by decide⟩, fun hgood => ⟨?_, trivial, fun hn => by cases hn⟩⟩,
      fun _ => ⟨h, by decide⟩⟩
    rintro len' hlen'
    cases hlen'
    exact Nat.not_lt.mp fun hbig => hgood (.inr (.inl hbig))
  · intro hnot
    refine ⟨h, rfl, fun hnone => ?_⟩
    have := firstLen_le t.recv
    exact Nat.not_le.mp fun hle => hnot ⟨hnone, by omega⟩

theorem takePacket_no_overflow (h : Bounded t) (n : Nat) :
    wp (takePacket w n) (fun _ t' => Bounded t') (fun e t' => Bounded t' ∧ e ≠ overflow) t := by
  simp only [takePacket, wp_bind, wp_get, wp_luck, wp_modify, wp_ite, wp_fail]
  exact ⟨fun _ => ⟨h, by decide⟩, fun _ => ⟨fun _ => ⟨h, by decide⟩, fun _ len hlen => by cases hlen⟩⟩

end RoundTripLemmas

/-- No packet the server sends makes the receive buffer overflow. -/
theorem readPacket_no_overflow (w : World) {t : Transport} (h : Bounded t) :
    wp (readPacket w) (fun _ t' => Bounded t') (fun e t' => Bounded t' ∧ e ≠ overflow) t := by
  rw [readPacket, wp_bind, wp_get]
  refine wp_loop Bounded (fun u => u.arrivals.length) ?_ h (Nat.lt_succ_self _)
  intro u hu
  rw [readTurn, wp_bind]
  refine wp_mono (readLength_no_overflow hu) ?_ (fun _ _ he => he)
  rintro _ v ⟨hv, harr, hshort⟩
  rw [wp_bind, wp_get]
  cases hwhole : v.whole with
  | some n =>
    simp only [wp_bind, wp_pure]
    exact takePacket_no_overflow hv n
  | none =>
    have hroom : v.rbuf.length + chunkSize ≤ 2 * maxPacket + 4096 := by
      have htag := tagLen_le v.recv
      cases hpkt : v.pktLen with
      | none =>
        have := hshort hpkt
        simp only [maxPacket, chunkSize]
        omega
      | some len =>
        have := hv len hpkt
        simp only [Transport.whole, hpkt] at hwhole
        split at hwhole
        · cases hwhole
        · simp only [maxPacket, chunkSize] at *
          omega
    simp only [wp_bind, wp_pure]
    refine wp_mono (fill_no_overflow hroom) ?_ ?_
    · rintro more x ⟨hpkt, hfewer⟩
      have hx : Bounded x := fun len hlen => hv len (hpkt ▸ hlen)
      cases more with
      | true => exact ⟨hx, by rw [← harr]; exact hfewer rfl⟩
      | false => exact hx
    · rintro e x ⟨hpkt, he⟩
      exact ⟨fun len hlen => hv len (hpkt ▸ hlen), he⟩

namespace RoundTripLemmas

variable {w : World} {t : Transport}

theorem sendRaw_no_overflow (data : Bytes) :
    wp (sendRaw w data) (fun _ _ => True) (fun e _ => e ≠ overflow) t := by
  simp only [sendRaw, wp_bind, wp_get, wp_ite, wp_luck, wp_modify, wp_fail]
  exact ⟨fun _ => ⟨fun _ => trivial, fun _ => by decide⟩, fun _ => by decide⟩

theorem line_no_overflow {n : Nat} (hn : t.arrivals.length < n) :
    wp (loop lineTurn .stuck n) (fun _ _ => True) (fun e _ => e ≠ overflow) t := by
  refine wp_loop (fun _ => True) (fun u => u.arrivals.length) ?_ trivial hn
  intro u _
  rw [lineTurn, wp_bind, wp_get]
  split
  · rw [wp_ite]
    refine ⟨fun _ => (by decide : _ ≠ overflow), fun hshort => ?_⟩
    have hroom : u.rbuf.length + chunkSize ≤ 2 * maxPacket + 4096 := by
      simp only [maxLine, chunkSize, maxPacket] at *
      omega
    rw [wp_bind]
    refine wp_mono (fill_no_overflow hroom) ?_ (fun _ _ h => h.2)
    rintro more v ⟨_, hfewer⟩
    rw [wp_ite]
    exact ⟨fun hm => ⟨trivial, hfewer hm⟩, fun _ => (by decide : _ ≠ overflow)⟩
  · rw [wp_ite]
    exact ⟨fun _ => (by decide : _ ≠ overflow), fun _ => trivial⟩

theorem identLines_no_overflow (k : Nat) :
    wp (identLines k) (fun _ _ => True) (fun e _ => e ≠ overflow) t := by
  induction k generalizing t with
  | zero =>
    show Fault.text "the SSH server sent no identification string" ≠ overflow
    decide
  | succ k ih =>
    rw [identLines, wp_bind, wp_get, wp_bind]
    refine wp_mono (line_no_overflow (Nat.lt_succ_self _)) ?_ (fun _ _ h => h)
    intro n u _
    simp only [wp_bind, wp_get, wp_ite, wp_fail, wp_modify]
    exact ⟨fun _ => ⟨fun _ => by decide, fun _ => ⟨fun _ => by decide, fun _ => trivial⟩⟩, fun _ => ih⟩

theorem ident_no_overflow :
    wp (exchangeIdentification w) (fun _ _ => True) (fun e _ => e ≠ overflow) t := by
  rw [exchangeIdentification, wp_bind, wp_modify, wp_bind]
  exact wp_mono (sendRaw_no_overflow _) (fun _ _ _ => identLines_no_overflow _) (fun _ _ h => h)

end RoundTripLemmas

/-! ## Conversations -/

/-- What the two ends do together: a packet, or new keys in one direction. -/
inductive Op
  | packet (payload : Bytes)
  | rekey (alg : CipherAlg) (mac : Option MacAlg) (key iv macKey : Bytes)

/-- A payload that may be sent; keys as long as the algorithms need them, and a
MAC for a cipher that needs one. -/
def Op.Valid : Op → Prop
  | .packet payload => 1 ≤ payload.length ∧ payload.length ≤ maxPacket - 64
  | .rekey alg mac key iv macKey => alg.keyLen ≤ key.length ∧ alg.ivLen ≤ iv.length ∧
    (alg.kind = .ctr → ∃ m, mac = some m ∧ m.keyLen ≤ macKey.length)

def sendOps (w : World) : List Op → Client Unit
  | [] => pure ()
  | .packet payload :: ops => do
    send w payload
    sendOps w ops
  | .rekey alg mac key iv macKey :: ops => do
    installSend w alg mac key iv macKey
    sendOps w ops

/-- Reads the packets; the payloads. -/
def recvOps (w : World) : List Op → Client (List Bytes)
  | [] => pure []
  | .packet _ :: ops => do
    match ← readPacket w with
    | .timeout => fail "the SSH server stopped responding"
    | .packet => do
      let t ← get
      let rest ← recvOps w ops
      pure (t.payload :: rest)
  | .rekey alg mac key iv macKey :: ops => do
    installRecv w alg mac key iv macKey
    recvOps w ops

def payloads : List Op → List Bytes
  | [] => []
  | .packet payload :: ops => payload :: payloads ops
  | .rekey .. :: ops => payloads ops

/-- `b` can read what `a` sends from here, and then `after`. -/
structure InStep (a b : Transport) (stream : Bytes) : Prop where
  sock : b.sock = true
  feeds : Feeds b.arrivals
  pktLen : b.pktLen = none
  recv : b.recv = a.send
  recvSeq : b.recvSeq = a.sendSeq
  strictKex : b.strictKex = a.strictKex
  buffered : b.rbuf ++ arriving b.arrivals = stream

namespace RoundTripLemmas

variable {w w' : World} {a b : Transport}

theorem init_usable {alg : CipherAlg} {mac : Option MacAlg} {key iv macKey : Bytes}
    (h : (Op.rekey alg mac key iv macKey).Valid) :
    ∃ c, PacketCipher.init alg mac key iv macKey true = some c ∧ c.Usable := by
  obtain ⟨hkey, hiv, hmac⟩ := h
  unfold PacketCipher.init
  by_cases hkind : alg.kind = .ctr
  · obtain ⟨m, rfl, hmk⟩ := hmac hkind
    have h1 : ¬ (key.length < alg.keyLen ∨ iv.length < alg.ivLen ∨ macKey.length < m.keyLen) := by
      omega
    simp only [hkind, if_true, Option.map_some, Option.getD_some, h1, if_false, reduceCtorEq,
      and_false, Option.some.injEq, exists_eq_left']
    exact fun _ _ _ => rfl
  · have h1 : ¬ (key.length < alg.keyLen ∨ iv.length < alg.ivLen ∨ macKey.length < 0) := by omega
    simp only [hkind, if_false, Option.map_none, Option.getD_none, h1, false_and, if_true,
      Option.some.injEq, exists_eq_left']
    intro a' ha' hctr
    cases ha'
    exact absurd hctr hkind

/-- Sending a payload carries it, and moves the sender on by one packet. -/
theorem send_spec (hw : w.Lucky) {payload : Bytes} (hpay : (Op.packet payload).Valid)
    (hsock : a.sock = true) (hc : a.send.Usable) :
    wp (send w payload) (fun _ a' => ∃ pad len sealed tag,
      Carried w.prims a.send a.sendSeq payload pad len a'.send sealed tag ∧
      a'.wire = a.wire ++ (sealed ++ tag) ∧ a'.sendSeq = a.sendSeq + 1 ∧ a'.sock = true ∧
      a'.strictKex = a.strictKex) (fun _ _ => False) a := by
  obtain ⟨hmin, hmax⟩ := hpay
  have hgood : ¬ (payload = [] ∨ maxPacket - 64 < payload.length) := by
    rintro (rfl | h)
    · exact absurd hmin (by decide)
    · omega
  obtain ⟨hp4, hp20, hal⟩ := padding_spec a.send payload.length
  set pad : Bytes := (List.range (padding a.send payload.length)).map
    fun i => w.random (a.drawn + i) with hpad
  have hpl : pad.length = padding a.send payload.length := by simp [hpad]
  set len := Wire.lengthU32 (1 + payload.length + padding a.send payload.length) with hlen
  have hlenNat : len.toNat = 1 + payload.length + padding a.send payload.length := by
    apply Wire.toNat_lengthU32
    simp only [maxPacket, UInt32.size] at *
    omega
  have hbig : len.toNat ≤ maxPacket := by
    rw [hlenNat]
    simp only [maxPacket] at *
    omega
  have halign : aligned a.send len.toNat := hlenNat ▸ hal
  have hbody : a.send.firstLen ≤
      4 + (UInt8.ofNat (min pad.length 255) :: payload ++ pad).length := by
    have := firstLen_le_total halign (by omega)
    rw [hlenNat] at this
    rw [List.length_append, List.length_cons, hpl]
    omega
  obtain ⟨c', sealed, tag, hreads, husable⟩ := seal_open (p := w.prims) hc a.sendSeq len _ hbody
  have hpacket : packetOf a.send payload pad =
      Wire.putU32 len ++ UInt8.ofNat (min pad.length 255) :: payload ++ pad := by
    rw [hpl]
    rfl
  have hseal := hreads.sealed_eq
  rw [← List.append_assoc, ← hpacket] at hseal
  simp only [send, randomBytes, sealAndSend, sendRaw, wp_bind, wp_get, wp_luck, wp_modify, wp_pure,
    wp_ite, hgood, hw a.tried, hw (a.tried + 1), hw (a.tried + 1 + 1), hw (a.tried + 1 + 1 + 1),
    not_true_eq_false, not_false_eq_true, false_imp_iff, forall_const, and_true, true_and,
    ← hpad, hseal, hsock]
  exact ⟨pad, len, sealed, tag, ⟨hreads, husable, hpl ▸ hlenNat, hpl ▸ ⟨hp4, hp20⟩, hbig, halign⟩,
    rfl⟩

theorem installSend_spec (hw : w.Lucky) {alg : CipherAlg} {mac : Option MacAlg}
    {key iv macKey : Bytes} {c : PacketCipher}
    (hc : PacketCipher.init alg mac key iv macKey true = some c) :
    wp (installSend w alg mac key iv macKey) (fun _ a' => a'.send = c ∧
      a'.sendSeq = (if a.strictKex then 0 else a.sendSeq) ∧ a'.wire = a.wire ∧ a'.sock = a.sock ∧
      a'.strictKex = a.strictKex) (fun _ _ => False) a := by
  simp only [installSend, wp_bind, wp_modify, wp_luck, hw a.tried, hc, and_self]

theorem installRecv_spec (hw : w.Lucky) {alg : CipherAlg} {mac : Option MacAlg}
    {key iv macKey : Bytes} {c : PacketCipher}
    (hc : PacketCipher.init alg mac key iv macKey true = some c) :
    wp (installRecv w alg mac key iv macKey) (fun _ b' => ∃ tried recvSeq,
      b' = { b with recv := c, recvSeq, tried } ∧
      recvSeq = if b.strictKex then 0 else b.recvSeq) (fun _ _ => False) b := by
  simp only [installRecv, wp_bind, wp_modify, wp_luck, hw b.tried, hc]
  exact ⟨_, _, rfl, rfl⟩

/-- A conversation sends a stream, and whoever is in step with the sender reads
its payloads off that stream. -/
theorem ops_spec (hw : w.Lucky) (hw' : w'.Lucky) (hprims : w'.prims = w.prims) {ops : List Op}
    (hops : ∀ op ∈ ops, op.Valid) (hsock : a.sock = true) (hc : a.send.Usable) :
    wp (sendOps w ops) (fun _ a' => ∃ stream, a'.wire = a.wire ++ stream ∧
      ∀ b after, InStep a b (stream ++ after) →
        wp (recvOps w' ops) (fun got b' => got = payloads ops ∧ InStep a' b' after)
          (fun _ _ => False) b) (fun _ _ => False) a := by
  induction ops generalizing a with
  | nil => exact ⟨[], (List.append_nil _).symm, fun b after hb => ⟨rfl, hb⟩⟩
  | cons op ops ih =>
    have hrest : ∀ o ∈ ops, o.Valid := fun o ho => hops o (List.mem_cons_of_mem op ho)
    have hop := hops op List.mem_cons_self
    cases op with
    | packet payload =>
      rw [sendOps, wp_bind]
      refine wp_mono (send_spec hw hop hsock hc) ?_ (fun _ _ h => h)
      rintro _ a₁ ⟨pad, len, sealed, tag, hcar, hwire, hseq, hsock₁, hstrict⟩
      refine wp_mono (ih hrest hsock₁ hcar.usable) ?_ (fun _ _ h => h)
      rintro _ a₂ ⟨stream, hwire₂, hread⟩
      refine ⟨sealed ++ tag ++ stream, ?_, fun b after hb => ?_⟩
      · rw [hwire₂, hwire, List.append_assoc a.wire]
      · rw [recvOps, wp_bind]
        have hcar' := hcar
        rw [← hprims] at hcar'
        have hbuf : b.rbuf ++ arriving b.arrivals = sealed ++ (tag ++ (stream ++ after)) := by
          rw [hb.buffered]
          simp only [List.append_assoc]
        refine wp_mono (readPacket_spec hw' hcar' hop.1 rfl ⟨hb.sock, hb.feeds, hb.recvSeq,
          hb.strictKex, .inl ⟨hb.pktLen, hb.recv, hbuf⟩⟩) ?_ (fun _ _ h => h)
        rintro r b₁ ⟨rfl, hdone⟩
        simp only [wp_bind, wp_get, wp_pure]
        refine wp_mono (hread b₁ after ?_) ?_ (fun _ _ h => h)
        · exact ⟨hdone.sock, hdone.feeds, hdone.pktLen, hdone.recv, hdone.recvSeq.trans hseq.symm,
            hdone.strictKex.trans hstrict.symm, hdone.buffered⟩
        · rintro got b₂ ⟨rfl, hb₂⟩
          exact ⟨by rw [hdone.payload]; rfl, hb₂⟩
    | rekey alg mac key iv macKey =>
      obtain ⟨c, hinit, hus⟩ := init_usable hop
      rw [sendOps, wp_bind]
      refine wp_mono (installSend_spec hw hinit) ?_ (fun _ _ h => h)
      rintro _ a₁ ⟨hsend, hseq, hwire, hsock₁, hstrict⟩
      refine wp_mono (ih hrest (hsock₁.trans hsock) (hsend ▸ hus)) ?_ (fun _ _ h => h)
      rintro _ a₂ ⟨stream, hwire₂, hread⟩
      refine ⟨stream, by rw [hwire₂, hwire], fun b after hb => ?_⟩
      rw [recvOps, wp_bind]
      refine wp_mono (installRecv_spec hw' hinit) ?_ (fun _ _ h => h)
      rintro _ b₁ ⟨tried, recvSeq, rfl, hrs⟩
      refine wp_mono (hread _ after ?_) (fun _ _ h => h) (fun _ _ h => h)
      refine ⟨hb.sock, hb.feeds, hb.pktLen, hsend.symm, ?_, hb.strictKex.trans hstrict.symm,
        hb.buffered⟩
      rw [hseq, hrs, hb.strictKex, hb.recvSeq]

end RoundTripLemmas

/-- Payloads and key changes from one end to the other.

When no library call fails, the sender sends everything. A receiver that holds
the same cipher and sequence number, and gets the sender's bytes in reads of any
size with silence between them, reads exactly the payloads and is in step with
the sender again. The padding of every packet is at least four bytes and aligned
as the receiver checks, and no bytes at all make the receive buffer overflow,
in the identification or in any number of packets. -/
theorem ops_round_trip (w w' : World) (hw : w.Lucky) (hw' : w'.Lucky) (hprims : w'.prims = w.prims)
    (ops : List Op) (hops : ∀ op ∈ ops, op.Valid) (a : Transport) (hsock : a.sock = true)
    (hc : a.send.Usable) :
    (∃ a' stream, (sendOps w ops).run a = (.ok (), a') ∧ a'.wire = a.wire ++ stream ∧
      ∀ b, InStep a b stream → ∃ b', (recvOps w' ops).run b = (.ok (payloads ops), b') ∧
        InStep a' b' []) ∧
    (∀ c n, 4 ≤ padding c n ∧ aligned c (1 + n + padding c n)) ∧
    (∀ (u : World) (t : Transport), ((exchangeIdentification u).run t).1 ≠ .error overflow) ∧
    (∀ (u : World) (t : Transport), Bounded t → ((readPacket u).run t).1 ≠ .error overflow ∧
      Bounded ((readPacket u).run t).2) := by
  refine ⟨?_, fun c n => ⟨(padding_spec c n).1, (padding_spec c n).2.2⟩, fun u t => ?_,
    fun u t ht => ?_⟩
  · obtain ⟨_, a', hrun, stream, hwire, hread⟩ :=
      run_of_wp (ops_spec hw hw' hprims hops hsock hc)
    refine ⟨a', stream, hrun, hwire, fun b hb => ?_⟩
    obtain ⟨got, b', hb', rfl, hstep⟩ := run_of_wp (hread b [] (by rwa [List.append_nil]))
    exact ⟨b', hb', hstep⟩
  · intro herr
    have h := ident_no_overflow (w := u) (t := t)
    unfold wp at h
    split at h
    · next hr => exact nomatch (hr ▸ herr : _)
    · next hr => exact h (Except.error.inj (hr ▸ herr : _))
  · have h := readPacket_no_overflow u ht
    unfold wp at h
    split at h
    · next hr => exact ⟨by rw [hr]; exact nofun, by rw [hr]; exact h⟩
    · next hr =>
      rw [hr]
      exact ⟨fun herr => h.2 (Except.error.inj herr), h.1⟩

/-- A world in which every call succeeds. -/
def World.calm : World := { prims := .keyed, random := fun _ => 0, luck := fun _ => true }

/-- A packet in the clear, keys for ChaCha20, and a packet under them. -/
def rekeyed : List Op :=
  [.packet [5], .rekey .chacha20Poly1305 none (List.replicate 64 7) [] [], .packet [6, 7]]

theorem rekeyed_valid : ∀ op ∈ rekeyed, op.Valid := by
  intro op hop
  simp only [rekeyed, List.mem_cons, List.not_mem_nil, or_false] at hop
  rcases hop with rfl | rfl | rfl
  · exact ⟨by decide, by decide⟩
  · exact ⟨by decide, by decide, fun h => nomatch h⟩
  · exact ⟨by decide, by decide⟩

theorem rekeyed_round_trip : ∃ a' stream,
    (sendOps .calm rekeyed).run { sock := true, strictKex := true } = (.ok (), a') ∧
    a'.wire = stream ∧
    ∀ b, InStep { sock := true, strictKex := true } b stream →
      ∃ b', (recvOps .calm rekeyed).run b = (.ok [[5], [6, 7]], b') ∧ InStep a' b' [] := by
  obtain ⟨⟨a', stream, hrun, hwire, hread⟩, -⟩ :=
    ops_round_trip .calm .calm (fun _ => rfl) (fun _ => rfl) rfl rekeyed rekeyed_valid
      { sock := true, strictKex := true } rfl (fun _ h => nomatch h)
  exact ⟨a', stream, hrun, hwire, hread⟩

end OmtClient.Ssh
