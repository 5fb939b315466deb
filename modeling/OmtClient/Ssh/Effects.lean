import OmtClient.Ssh.Session

/-!
# What the transport's operations change

One specification for each operation that the handshake and the session are made
of: which part of the transport it touches and what it records. Reading touches
the receiving side only and records each packet it returns; sending touches the
sending side only and records what it sealed and sent.

Every specification also says that the operation does not get stuck: a loop takes
no more turns than there are bytes to read.

`Tame` properties are those that the primitive operations keep; `goes_session`
carries them through everything the client does, once, up to the end of a key
exchange.
-/

namespace OmtClient.Ssh

open OmtClient.Lib Prog

/-! ## The receiving side -/

structure RecvSide where
  recvSeq : UInt32
  recv : PacketCipher
  rbuf : Bytes
  pktLen : Option UInt32
  payload : Bytes
  arrivals : List Arrival
  tried : Nat

def RecvSide.unread (r : RecvSide) : Nat :=
  r.rbuf.length + (r.arrivals.flatMap Arrival.bytes).length

/-- `t` with another receiving side and another record. -/
def Transport.received (t : Transport) (r : RecvSide) (log : List Event) : Transport :=
  { t with
    recvSeq := r.recvSeq, recv := r.recv, rbuf := r.rbuf, pktLen := r.pktLen
    payload := r.payload, arrivals := r.arrivals, tried := r.tried, log }

/-- The receiving side of a transport. -/
def Transport.side (t : Transport) : RecvSide :=
  ⟨t.recvSeq, t.recv, t.rbuf, t.pktLen, t.payload, t.arrivals, t.tried⟩

namespace EffectLemmas

variable {w : World} {t : Transport}

theorem length_openPacket (p : Primitives) (c : PacketCipher) (seq : UInt32) (packet tag : Bytes)
    (crypted hashed : Bool) :
    (c.openPacket p seq packet tag crypted hashed).2.1.length = packet.length := by
  have hsplit (n : Nat) (rest : Bytes) (hrest : rest.length = packet.length - n) :
      (packet.take n ++ rest).length = packet.length := by
    rw [List.length_append, List.length_take, hrest]
    omega
  unfold PacketCipher.openPacket
  cases c.alg with
  | none => rfl
  | some alg =>
    dsimp only
    split
    · rfl
    · cases alg.kind with
      | ctr =>
        dsimp only
        split
        · rfl
        · split
          · split
            · rfl
            · split
              · exact hsplit 4 _ (by simp [PacketCipher.crypt])
              · rfl
          · split
            · rfl
            · exact hsplit alg.block _ (by simp [PacketCipher.crypt])
      | gcm =>
        dsimp only
        split
        · exact hsplit 4 _ (by rw [p.length_gcmOpen, List.length_drop])
        · rfl
      | chaCha =>
        dsimp only
        split
        · rfl
        · split
          · simp [PacketCipher.chacha]
            omega
          · rfl

theorem length_length (p : Primitives) (c : PacketCipher) (seq : UInt32) (first : Bytes)
    (crypted : Bool) : (c.length p seq first crypted).2.1.length = first.length := by
  unfold PacketCipher.length
  cases c.alg with
  | none => rfl
  | some alg =>
    dsimp only
    split
    · split
      · rfl
      · simp [PacketCipher.crypt]
        omega
    · split
      · split
        · rfl
        · rfl
      · rfl

theorem fill_effect :
    wp fill (fun more t' => ∃ r, t' = t.received r t.log ∧ r.unread ≤ t.unread ∧
        r.pktLen = t.pktLen ∧ (more = true → r.arrivals.length < t.arrivals.length))
      (fun e t' => e ≠ .stuck ∧ ∃ r, t' = t.received r t.log ∧ r.unread ≤ t.unread) t := by
  rw [fill, wp_bind, wp_get]
  refine wp_loop (fun u => ∃ arrivals, u = { t with arrivals } ∧
    (arrivals.flatMap Arrival.bytes).length ≤ (t.arrivals.flatMap Arrival.bytes).length ∧
    arrivals.length ≤ t.arrivals.length) (fun u => u.arrivals.length) ?_
    ⟨t.arrivals, rfl, Nat.le_refl _, Nat.le_refl _⟩ (Nat.lt_succ_self _)
  rintro u ⟨arrivals, rfl, hbytes, hlen⟩
  rw [fillTurn, wp_bind, wp_get]
  cases arrivals with
  | nil =>
    exact ⟨{ t.side with arrivals := [] }, rfl, Nat.add_le_add_left hbytes _, rfl, fun h => by cases h⟩
  | cons a rest =>
    simp only [wp_bind, wp_modify]
    rw [List.flatMap_cons, List.length_append] at hbytes
    have hrest : (rest.flatMap Arrival.bytes).length ≤ (t.arrivals.flatMap Arrival.bytes).length := by
      omega
    have hgone : ∃ r, ({ t with arrivals := rest } : Transport) = t.received r t.log ∧
        r.unread ≤ t.unread :=
      ⟨{ t.side with arrivals := rest }, rfl, Nat.add_le_add_left hrest _⟩
    cases a with
    | deadline =>
      exact ⟨{ t.side with arrivals := rest }, rfl, Nat.add_le_add_left hrest _, rfl,
        fun h => by cases h⟩
    | quiet =>
      rw [wp_ite]
      refine ⟨fun _ => ⟨⟨rest, rfl, hrest, Nat.le_of_succ_le hlen⟩, Nat.lt_succ_self _⟩, fun _ => ?_⟩
      exact ⟨by rintro ⟨⟩, hgone⟩
    | eof => exact ⟨by rintro ⟨⟩, hgone⟩
    | failed e => exact ⟨by rintro ⟨⟩, hgone⟩
    | data bytes fits =>
      simp only [wp_ite, wp_fail, wp_bind, wp_modify, wp_pure]
      refine ⟨fun _ => ⟨fun _ => ⟨by rintro ⟨⟩, hgone⟩, fun _ => ?_⟩, fun _ => ⟨by rintro ⟨⟩, hgone⟩⟩
      refine ⟨{ t.side with arrivals := rest, rbuf := t.rbuf ++ bytes }, rfl, ?_, rfl, fun _ => hlen⟩
      show (t.rbuf ++ bytes).length + (rest.flatMap Arrival.bytes).length ≤
        t.rbuf.length + (t.arrivals.flatMap Arrival.bytes).length
      have hb : bytes.length + (rest.flatMap Arrival.bytes).length ≤
        (t.arrivals.flatMap Arrival.bytes).length := hbytes
      rw [List.length_append]
      omega

theorem line_effect :
    wp (get >>= fun t => loop lineTurn Fault.stuck (t.arrivals.length + 1))
      (fun _ t' => ∃ r, t' = t.received r t.log ∧ r.unread ≤ t.unread)
      (fun e t' => e ≠ .stuck ∧ ∃ r, t' = t.received r t.log ∧ r.unread ≤ t.unread) t := by
  rw [wp_bind, wp_get]
  refine wp_loop (fun u => ∃ r, u = t.received r t.log ∧ r.unread ≤ t.unread)
    (fun u => u.arrivals.length) ?_ ⟨t.side, rfl, Nat.le_refl _⟩ (Nat.lt_succ_self _)
  rintro u ⟨r, rfl, hr⟩
  rw [lineTurn, wp_bind, wp_get]
  split
  · rw [wp_ite]
    refine ⟨fun _ => ⟨nofun, r, rfl, hr⟩, fun _ => ?_⟩
    rw [wp_bind]
    refine wp_mono fill_effect ?_ ?_
    · rintro more _ ⟨r', rfl, hr', _, hfewer⟩
      rw [wp_ite]
      exact ⟨fun hm => ⟨⟨r', rfl, Nat.le_trans hr' hr⟩, hfewer hm⟩,
        fun _ => ⟨nofun, r', rfl, Nat.le_trans hr' hr⟩⟩
    · rintro e _ ⟨he, r', rfl, hr'⟩
      exact ⟨he, r', rfl, Nat.le_trans hr' hr⟩
  · rw [wp_ite]
    exact ⟨fun _ => ⟨nofun, r, rfl, hr⟩, fun _ => ⟨r, rfl, hr⟩⟩

theorem readLength_effect :
    wp (readLength w) (fun _ t' => ∃ r, t' = t.received r t.log ∧ r.unread = t.unread ∧
        r.arrivals = t.arrivals)
      (fun e t' => e ≠ .stuck ∧ ∃ r, t' = t.received r t.log ∧ r.unread ≤ t.unread) t := by
  rw [readLength, wp_bind, wp_get, wp_ite]
  refine ⟨fun _ => ?_, fun _ => ⟨t.side, rfl, rfl, rfl⟩⟩
  have hlen := length_length w.prims t.recv t.recvSeq t.rbuf (w.luck t.tried)
  simp only [wp_bind, wp_luck, wp_modify, wp_orRaise, wp_ite, wp_fail]
  set out := t.recv.length w.prims t.recvSeq t.rbuf (w.luck t.tried) with hout
  have hread : ({ t.side with recv := out.1, rbuf := out.2.1 } : RecvSide).unread = t.unread := by
    show out.2.1.length + (t.arrivals.flatMap Arrival.bytes).length = t.unread
    rw [hlen]
    rfl
  have hfail : ∃ r, ({ t with recv := out.1, rbuf := out.2.1, tried := t.tried + 1 } : Transport) =
      t.received r t.log ∧ r.unread ≤ t.unread :=
    ⟨{ t.side with recv := out.1, rbuf := out.2.1, tried := t.tried + 1 }, rfl, Nat.le_of_eq hread⟩
  refine ⟨fun len _ => ⟨fun _ => ⟨by rintro ⟨⟩, hfail⟩, fun _ => ?_⟩, fun _ => ⟨by rintro ⟨⟩, hfail⟩⟩
  exact ⟨{ t.side with recv := out.1, rbuf := out.2.1, tried := t.tried + 1, pktLen := some len }, rfl,
    hread, rfl⟩

theorem whole_le {n : Nat} (h : t.whole = some n) : 4 + n + t.recv.tagLen ≤ t.rbuf.length := by
  unfold Transport.whole at h
  split at h
  · exact nomatch h
  · split at h
    · next hle => cases h; exact hle
    · exact nomatch h

/-- Opening a packet that is all in the buffer takes it out of the buffer. -/
theorem takePacket_effect {n : Nat} (hn : 4 + n + t.recv.tagLen ≤ t.rbuf.length) :
    wp (takePacket w n) (fun _ t' => ∃ r, t' = t.received r (t.log ++ [.read r.payload]) ∧
        r.unread < t.unread)
      (fun e t' => e ≠ .stuck ∧ ∃ r, t' = t.received r t.log ∧ r.unread ≤ t.unread) t := by
  simp only [takePacket, wp_bind, wp_get, wp_luck, wp_modify, wp_ite, wp_fail]
  set out := t.recv.openPacket w.prims t.recvSeq (t.rbuf.take (4 + n))
    ((t.rbuf.drop (4 + n)).take t.recv.tagLen) (w.luck (t.tried + 1)) (w.luck t.tried) with hout
  have hlen : out.2.1.length = 4 + n := by
    rw [hout, length_openPacket, List.length_take]
    omega
  have hbuf : (out.2.1 ++ t.rbuf.drop (4 + n)).length = t.rbuf.length := by
    rw [List.length_append, hlen, List.length_drop]
    omega
  have hfail : ∃ r, ({ t with
      recv := out.1, rbuf := out.2.1 ++ t.rbuf.drop (4 + n), tried := t.tried + 1 + 1 } :
        Transport) = t.received r t.log ∧ r.unread ≤ t.unread := by
    refine ⟨{ t.side with
      recv := out.1, rbuf := out.2.1 ++ t.rbuf.drop (4 + n), tried := t.tried + 1 + 1 }, rfl, ?_⟩
    exact Nat.add_le_add_right (Nat.le_of_eq hbuf) _
  refine ⟨fun _ => ⟨by rintro ⟨⟩, hfail⟩, fun _ => ⟨fun _ => ⟨by rintro ⟨⟩, hfail⟩, fun _ => ?_⟩⟩
  refine ⟨⟨t.recvSeq + 1, out.1, (out.2.1 ++ t.rbuf.drop (4 + n)).drop (4 + n + t.recv.tagLen), none,
    (out.2.1.drop 5).take (n - 1 - (out.2.1.getD 4 0).toNat), t.arrivals, t.tried + 1 + 1⟩, rfl, ?_⟩
  show ((out.2.1 ++ t.rbuf.drop (4 + n)).drop (4 + n + t.recv.tagLen)).length +
    (t.arrivals.flatMap Arrival.bytes).length <
      t.rbuf.length + (t.arrivals.flatMap Arrival.bytes).length
  rw [List.length_drop, hbuf]
  omega

end EffectLemmas

open EffectLemmas

/-- Reading a packet touches the receiving side only, records the packet it
returns, and uses up bytes. -/
theorem readPacket_effect {w : World} {t : Transport} :
    wp (readPacket w) (fun got t' =>
        (got = .packet ∧ ∃ r, t' = t.received r (t.log ++ [.read r.payload]) ∧ r.unread < t.unread) ∨
        (got = .timeout ∧ ∃ r, t' = t.received r t.log ∧ r.unread ≤ t.unread))
      (fun e t' => e ≠ .stuck ∧ ∃ r, t' = t.received r t.log ∧ r.unread ≤ t.unread) t := by
  rw [readPacket, wp_bind, wp_get]
  refine wp_loop (fun u => ∃ r, u = t.received r t.log ∧ r.unread ≤ t.unread ∧
    r.arrivals.length ≤ t.arrivals.length) (fun u => u.arrivals.length) ?_
    ⟨t.side, rfl, Nat.le_refl _, Nat.le_refl _⟩ (Nat.lt_succ_self _)
  rintro u ⟨r, rfl, hr, hlen⟩
  rw [readTurn, wp_bind]
  refine wp_mono readLength_effect ?_ ?_
  · rintro _ v ⟨r₁, rfl, hr₁, harr⟩
    rw [wp_bind, wp_get]
    have hle : r₁.unread ≤ t.unread := Nat.le_trans (Nat.le_of_eq hr₁) hr
    split
    · next n hwhole =>
      rw [wp_bind]
      refine wp_mono (takePacket_effect (whole_le hwhole)) ?_ ?_
      · rintro _ x ⟨r₂, rfl, hr₂⟩
        exact .inl ⟨rfl, r₂, rfl, Nat.lt_of_lt_of_le hr₂ hle⟩
      · rintro e x ⟨he, r₂, rfl, hr₂⟩
        exact ⟨he, r₂, rfl, Nat.le_trans hr₂ hle⟩
    · rw [wp_bind]
      refine wp_mono fill_effect ?_ ?_
      · rintro more x ⟨r₂, rfl, hr₂, _, hfewer⟩
        cases more with
        | true =>
          have harr' : r₁.arrivals = r.arrivals := harr
          have hfew : r₂.arrivals.length < r.arrivals.length := by
            rw [← harr']
            exact hfewer rfl
          exact ⟨⟨r₂, rfl, Nat.le_trans hr₂ hle, Nat.le_of_lt (Nat.lt_of_lt_of_le hfew hlen)⟩, hfew⟩
        | false => exact .inr ⟨rfl, r₂, rfl, Nat.le_trans hr₂ hle⟩
      · rintro e x ⟨he, r₂, rfl, hr₂⟩
        exact ⟨he, r₂, rfl, Nat.le_trans hr₂ hle⟩
  · rintro e v ⟨he, r₁, rfl, hr₁⟩
    exact ⟨he, r₁, rfl, Nat.le_trans hr₁ hr⟩

/-! ## The sending side -/

structure SendSide where
  send : PacketCipher
  sendSeq : UInt32
  drawn : Nat
  tried : Nat
  wire : Bytes

/-- `t` with another sending side and another record. -/
def Transport.sending (t : Transport) (x : SendSide) (log : List Event) : Transport :=
  { t with
    send := x.send, sendSeq := x.sendSeq, drawn := x.drawn, tried := x.tried, wire := x.wire, log }

/-- What one seal does to the cipher: the algorithm and the key stay, and a GCM
cipher moves its IV on. -/
structure Moved (c c' : PacketCipher) : Prop where
  alg : c'.alg = c.alg
  key : c'.key = c.key
  iv : ∀ a, c.alg = some a → a.kind = .gcm → c'.iv = gcmNextIv c.iv

/-- Sending left the transport as it was but for its sending side, with the packet
sealed and sent, with a seal that failed, or before any seal. -/
inductive Sends (t : Transport) (payload : Bytes) : Transport → Prop
  | sent {x : SendSide} : Moved t.send x.send → x.sendSeq = t.sendSeq + 1 →
      Sends t payload (t.sending x (t.log ++ sealRecord t.send t.sendSeq true ++ [.sent payload]))
  | unsealed {x : SendSide} : Moved t.send x.send → x.sendSeq = t.sendSeq →
      Sends t payload (t.sending x (t.log ++ sealRecord t.send t.sendSeq false))
  | unsent {x : SendSide} : x.send = t.send → x.sendSeq = t.sendSeq →
      Sends t payload (t.sending x t.log)

namespace EffectLemmas

variable {w : World} {t : Transport}

/-- Every seal moves the cipher on, but a CTR seal that fails. -/
theorem sealPacket_moved (p : Primitives) (c : PacketCipher) (seq : UInt32) (packet : Bytes)
    (hpacket : 4 ≤ packet.length) (crypted hashed : Bool) :
    Moved c (c.sealPacket p seq packet crypted hashed).1 := by
  have hnot : ¬ packet.length < 4 := Nat.not_lt.mpr hpacket
  unfold PacketCipher.sealPacket
  cases halg : c.alg with
  | none => exact ⟨rfl, rfl, fun a ha => nomatch halg.symm.trans ha⟩
  | some alg =>
    simp only [hnot, if_false]
    cases hkind : alg.kind with
    | ctr =>
      have hsame {c' : PacketCipher} (h1 : c'.alg = c.alg) (h2 : c'.key = c.key) : Moved c c' := by
        refine ⟨h1, h2, fun a ha hgcm => ?_⟩
        cases halg.symm.trans ha
        exact nomatch hkind.symm.trans hgcm
      dsimp only
      split
      · split
        · exact hsame rfl rfl
        · exact hsame rfl rfl
      · split
        · exact hsame rfl rfl
        · split
          · exact hsame rfl rfl
          · exact hsame rfl rfl
    | gcm => exact ⟨halg.symm, rfl, fun _ _ _ => rfl⟩
    | chaCha =>
      refine ⟨rfl, rfl, fun a ha hgcm => ?_⟩
      cases halg.symm.trans ha
      exact nomatch hkind.symm.trans hgcm

end EffectLemmas

/-- Sending touches the sending side only. -/
theorem send_effect {w : World} {t : Transport} (payload : Bytes) :
    wp (send w payload)
      (fun _ t' => ∃ x : SendSide, Moved t.send x.send ∧ x.sendSeq = t.sendSeq + 1 ∧
        t' = t.sending x (t.log ++ sealRecord t.send t.sendSeq true ++ [.sent payload]))
      (fun e t' => e ≠ .stuck ∧ Sends t payload t') t := by
  rw [send, wp_ite]
  refine ⟨fun _ => ⟨by rintro ⟨⟩, .unsent (x := ⟨t.send, t.sendSeq, t.drawn, t.tried, t.wire⟩) rfl rfl⟩,
    fun _ => ?_⟩
  simp only [randomBytes, wp_bind, wp_get, wp_luck, wp_ite, wp_modify, wp_pure, wp_fail]
  refine ⟨fun _ => ?_, fun _ =>
    ⟨by rintro ⟨⟩, .unsent (x := ⟨t.send, t.sendSeq, t.drawn, t.tried + 1, t.wire⟩) rfl rfl⟩⟩
  generalize hpad : List.map (fun i => w.random (t.drawn + i))
    (List.range (padding t.send payload.length)) = pad
  have hpacket : 4 ≤ (packetOf t.send payload pad).length := by
    simp only [packetOf, List.length_append, Wire.length_putU32]
    omega
  have hmoved := sealPacket_moved w.prims t.send t.sendSeq (packetOf t.send payload pad) hpacket
    (w.luck (t.tried + 1)) (w.luck (t.tried + 1 + 1))
  simp only [sealAndSend, wp_bind, wp_get, wp_luck]
  cases hseal : t.send.sealPacket w.prims t.sendSeq (packetOf t.send payload pad)
      (w.luck (t.tried + 1)) (w.luck (t.tried + 1 + 1)) with
  | mk c out =>
    rw [hseal] at hmoved
    cases out with
    | none =>
      simp only [wp_bind, wp_modify, wp_fail]
      exact ⟨by rintro ⟨⟩, .unsealed (x := ⟨c, t.sendSeq, _, _, t.wire⟩) hmoved rfl⟩
    | some out =>
      simp only [sendRaw, wp_bind, wp_modify, wp_get, wp_ite, wp_luck, wp_fail]
      refine ⟨fun _ => ⟨fun _ => ?_, fun _ => ?_⟩, fun _ => ?_⟩
      · exact ⟨⟨c, t.sendSeq + 1, _, _, _⟩, hmoved, rfl, rfl⟩
      · exact ⟨by rintro ⟨⟩, .sent (x := ⟨c, t.sendSeq + 1, _, _, t.wire⟩) hmoved rfl⟩
      · exact ⟨by rintro ⟨⟩, .sent (x := ⟨c, t.sendSeq + 1, _, _, t.wire⟩) hmoved rfl⟩

/-! ## What all client code keeps -/

/-- The same keys, session and record. -/
structure SameCore (t t' : Transport) : Prop where
  send : t'.send = t.send
  sendSeq : t'.sendSeq = t.sendSeq
  sessionId : t'.sessionId = t.sessionId
  hostKey : t'.hostKey = t.hostKey
  firstKexDone : t'.firstKexDone = t.firstKexDone
  log : t'.log = t.log

/-- Something the server said. -/
inductive Event.Heard : Event → Prop
  | read (payload : Bytes) : Heard (.read payload)
  | identified (line : Bytes) : Heard (.identified line)

/-- A property of transports that bookkeeping, reading, sending payloads in `P` and
new sending keys keep. -/
structure Tame (P : Bytes → Prop) (I : Transport → Prop) : Prop where
  same : ∀ {t t'}, I t → SameCore t t' → I t'
  heard : ∀ {t e}, e.Heard → I t → I { t with log := t.log ++ [e] }
  sends : ∀ {t payload t'}, P payload → Sends t payload t' → I t → I t'
  installs : ∀ {t alg mac key iv macKey ok c} seq,
    PacketCipher.init alg mac key iv macKey ok = some c → I t →
    I { t with send := c, sendSeq := seq, log := t.log ++ [.installed alg c.aesKey] }
  loses : ∀ {t} seq, I t →
    I { t with sendSeq := seq, log := t.log ++ [.notInstalled t.send.alg] }

/-- The messages of a key exchange. -/
def handshake (payload : Bytes) : Prop :=
  payload.headD 0 ∈ [Msg.kexInit, Msg.newKeys, Msg.kex30, Msg.kexDhGexInit, Msg.kexDhGexRequest]

/-- Client code that keeps `I`, reads no more than there is and does not get
stuck. -/
abbrev Goes {α : Type} (I : Transport → Prop) (m : Client α) : Prop :=
  Runs I Transport.unread (· ≠ Fault.stuck) m

namespace EffectLemmas

variable {w : World} {l : Library} {P : Bytes → Prop} {I : Transport → Prop}

theorem goes_fail {α : Type} (text : String) : Goes I (fail text : Client α) := runs_raise nofun

/-- Bookkeeping that leaves the receive buffer alone. -/
theorem goes_note (ht : Tame P I) {g : Transport → Transport} (h : ∀ t, SameCore t (g t))
    (hbuf : ∀ t, (g t).rbuf = t.rbuf ∧ (g t).arrivals = t.arrivals) :
    Goes I (modify g : Client Unit) := by
  refine runs_modify (fun t ht' => ht.same ht' (h t)) fun t => ?_
  rw [Transport.unread, (hbuf t).1, (hbuf t).2]
  exact Nat.le_refl _

theorem goes_luck (ht : Tame P I) : Goes I (luck w) :=
  fun _ h => ⟨ht.same h ⟨rfl, rfl, rfl, rfl, rfl, rfl⟩, Nat.le_refl _⟩

theorem tame_received (ht : Tame P I) {t : Transport} {r : RecvSide} (h : I t) :
    I (t.received r t.log) := ht.same h ⟨rfl, rfl, rfl, rfl, rfl, rfl⟩

/-- Reading keeps `I`, and a packet uses up bytes. -/
theorem readPacket_goes (ht : Tame P I) {t : Transport} (h : I t) :
    wp (readPacket w) (fun got t' => I t' ∧ t'.unread ≤ t.unread ∧
        (got = .packet → t'.unread < t.unread))
      (fun e t' => e ≠ .stuck ∧ I t' ∧ t'.unread ≤ t.unread) t := by
  refine wp_mono readPacket_effect ?_ ?_
  · rintro _ _ (⟨rfl, r, rfl, hr⟩ | ⟨rfl, r, rfl, hr⟩)
    · exact ⟨ht.heard (t := t.received r t.log) (.read r.payload) (tame_received ht h), Nat.le_of_lt hr,
        fun _ => hr⟩
    · exact ⟨tame_received ht h, hr, fun hgot => nomatch hgot⟩
  · rintro _ _ ⟨he, r, rfl, hr⟩
    exact ⟨he, tame_received ht h, hr⟩

theorem goes_readPacket (ht : Tame P I) : Goes I (readPacket w) := fun _ h =>
  wp_mono (readPacket_goes ht h) (fun _ _ h => ⟨h.1, h.2.1⟩) (fun _ _ h => h)

theorem sends_unread {t t' : Transport} {payload : Bytes} (h : Sends t payload t') :
    t'.unread = t.unread := by
  cases h <;> rfl

theorem goes_send (ht : Tame P I) {payload : Bytes} (hp : P payload) : Goes I (send w payload) := by
  intro t h
  refine wp_mono (send_effect payload) ?_ ?_
  · rintro _ _ ⟨x, hm, hseq, rfl⟩
    have hs : Sends t payload _ := .sent hm hseq
    exact ⟨ht.sends hp hs h, Nat.le_of_eq (sends_unread hs)⟩
  · rintro e _ ⟨he, hs⟩
    exact ⟨he, ht.sends hp hs h, Nat.le_of_eq (sends_unread hs)⟩

theorem goes_randomBytes (ht : Tame P I) (n : Nat) : Goes I (randomBytes w n) :=
  runs_bind (goes_luck ht) fun _ => runs_ite
    (runs_bind runs_get fun _ => runs_bind
      (goes_note ht (fun _ => ⟨rfl, rfl, rfl, rfl, rfl, rfl⟩) fun _ => ⟨rfl, rfl⟩)
      fun _ => runs_pure _)
    (runs_pure _)

theorem goes_installSend (ht : Tame P I) (alg : CipherAlg) (mac : Option MacAlg)
    (key iv macKey : Bytes) : Goes I (installSend w alg mac key iv macKey) := by
  intro t h
  have ht' : I { t with tried := t.tried + 1 } := ht.same h ⟨rfl, rfl, rfl, rfl, rfl, rfl⟩
  simp only [installSend, wp_bind, wp_modify, wp_luck]
  cases hinit : PacketCipher.init alg mac key iv macKey (w.luck t.tried) with
  | some c =>
    simp only [wp_modify]
    exact ⟨ht.installs _ hinit ht', Nat.le_refl _⟩
  | none =>
    simp only [wp_bind, wp_modify, wp_fail]
    exact ⟨by rintro ⟨⟩, ht.loses _ ht', Nat.le_refl _⟩

theorem goes_installRecv (ht : Tame P I) (alg : CipherAlg) (mac : Option MacAlg)
    (key iv macKey : Bytes) : Goes I (installRecv w alg mac key iv macKey) := by
  refine runs_bind (goes_note ht (fun _ => ⟨rfl, rfl, rfl, rfl, rfl, rfl⟩) fun _ => ⟨rfl, rfl⟩)
    fun _ => runs_bind (goes_luck ht) fun _ => ?_
  split
  · exact goes_fail _
  · exact goes_note ht (fun _ => ⟨rfl, rfl, rfl, rfl, rfl, rfl⟩) fun _ => ⟨rfl, rfl⟩

theorem goes_expect (ht : Tame P I) (kind : Byte) : Goes I (expect w kind) := by
  refine runs_loop (runs_bind (goes_readPacket ht) fun got => ?_) fun t h => ?_
  · cases got with
    | timeout => exact goes_fail _
    | packet =>
      exact runs_bind runs_get fun _ => runs_ite (runs_pure _) (runs_ite (goes_fail _)
        (runs_ite (runs_pure _) (goes_fail _)))
  · rw [expectTurn, wp_bind]
    refine wp_mono (readPacket_goes ht h) ?_ (fun _ _ _ => trivial)
    rintro got u ⟨_, _, hless⟩
    cases got with
    | timeout => exact trivial
    | packet =>
      simp only [wp_bind, wp_get, wp_ite, wp_pure, wp_fail]
      exact ⟨fun _ hn => (by cases hn), fun _ => ⟨fun _ => trivial, fun _ =>
        ⟨fun _ _ => hless rfl, fun _ => trivial⟩⟩⟩

theorem goes_line (ht : Tame P I) :
    Goes I (get >>= fun t => loop lineTurn Fault.stuck (t.arrivals.length + 1)) := by
  intro t h
  refine wp_mono line_effect ?_ ?_
  · rintro _ _ ⟨r, rfl, hr⟩
    exact ⟨tame_received ht h, hr⟩
  · rintro _ _ ⟨he, r, rfl, hr⟩
    exact ⟨he, tame_received ht h, hr⟩

theorem unread_drop (t : Transport) (n : Nat) :
    (t.rbuf.drop (n + 1)).length + (t.arrivals.flatMap Arrival.bytes).length ≤ t.unread := by
  rw [List.length_drop]
  exact Nat.add_le_add_right (Nat.sub_le _ _) _

theorem goes_consume (ht : Tame P I) (n : Nat) :
    Goes I (modify fun t => { t with rbuf := t.rbuf.drop (n + 1) }) :=
  runs_modify (fun _ h => ht.same h ⟨rfl, rfl, rfl, rfl, rfl, rfl⟩) fun t => unread_drop t n

theorem goes_identLines (ht : Tame P I) (k : Nat) : Goes I (identLines k) := by
  induction k with
  | zero => exact goes_fail _
  | succ k ih =>
    have htail (n : Nat) : Goes I (do
        let t ← get
        let text := if 0 < n ∧ t.rbuf.getD (n - 1) 0 = 13 then n - 1 else n
        let line := t.rbuf.take text
        if (utf8 "SSH-").isPrefixOf line then
          if !(utf8 "SSH-2.0-").isPrefixOf line && !(utf8 "SSH-1.99-").isPrefixOf line then
            fail "the server does not speak SSH protocol 2"
          else if line.any fun c => c < 0x20 || 0x7e < c then
            fail "the SSH server sent an invalid identification string"
          else
            modify fun t =>
              { t with vS := line, rbuf := t.rbuf.drop (n + 1), log := t.log ++ [.identified line] }
        else do
          modify fun t => { t with rbuf := t.rbuf.drop (n + 1) }
          identLines k) := by
      refine runs_bind runs_get fun u => runs_ite (runs_ite (goes_fail _) (runs_ite (goes_fail _)
        (runs_modify (fun t ht' => ?_) fun t => unread_drop t n)))
        (runs_bind (goes_consume ht n) fun _ => ih)
      exact ht.same (ht.heard (.identified _) ht') ⟨rfl, rfl, rfl, rfl, rfl, rfl⟩
    intro t h
    rw [identLines, wp_bind, wp_get, wp_bind]
    have hline := goes_line ht t h
    rw [wp_bind, wp_get] at hline
    refine wp_mono hline ?_ (fun _ _ h => h)
    rintro n u ⟨hu, hle⟩
    refine wp_mono (htail n u hu) ?_ ?_
    · rintro _ v ⟨hv, hle'⟩
      exact ⟨hv, Nat.le_trans hle' hle⟩
    · rintro e v ⟨he, hv, hle'⟩
      exact ⟨he, hv, Nat.le_trans hle' hle⟩

theorem goes_sendKexInit (ht : Tame P I) (hP : ∀ m, handshake m → P m) : Goes I (sendKexInit w l) := by
  refine runs_bind (goes_randomBytes ht 16) fun cookie => ?_
  cases cookie with
  | none => exact goes_fail _
  | some cookie =>
    exact runs_bind runs_get fun _ => runs_bind
      (goes_note ht (fun _ => ⟨rfl, rfl, rfl, rfl, rfl, rfl⟩) fun _ => ⟨rfl, rfl⟩)
      fun _ => goes_send ht (hP _ (by simp [handshake]))

theorem goes_readEcdhReply (ht : Tame P I) : Goes I (readEcdhReply w) := by
  refine runs_bind (goes_expect ht _) fun _ => runs_bind runs_get fun _ => ?_
  split
  · exact runs_pure _
  · exact goes_fail _

theorem goes_runCurve25519 (ht : Tame P I) (hP : ∀ m, handshake m → P m) : Goes I (runCurve25519 w l) := by
  refine runs_bind (goes_randomBytes ht 32) fun mine => ?_
  cases mine with
  | none => exact goes_fail _
  | some mine =>
    refine runs_ite (goes_fail _) (runs_bind (goes_send ht (hP _ (by simp [handshake])))
      fun _ => runs_bind (goes_readEcdhReply ht) fun _ => ?_)
    split
    split
    · exact goes_fail _
    · exact runs_pure _

theorem goes_runMlkem (ht : Tame P I) (hP : ∀ m, handshake m → P m) : Goes I (runMlkem w l) := by
  refine runs_bind (goes_randomBytes ht 64) fun _ => runs_bind (goes_randomBytes ht 32) fun _ => ?_
  split
  · refine runs_ite (goes_fail _) (runs_bind (goes_send ht (hP _ (by simp [handshake])))
      fun _ => runs_bind (goes_readEcdhReply ht) fun _ => ?_)
    split
    refine runs_bind (goes_luck ht) fun _ => ?_
    split
    · exact goes_fail _
    · exact runs_pure _
  · exact goes_fail _

theorem goes_runDh (ht : Tame P I) (hP : ∀ m, handshake m → P m) (before : Bytes) (p g : Nat)
    {init : Byte} (hinit : handshake [init]) (reply : Byte) :
    Goes I (runDh w before p g init reply) := by
  refine runs_bind (goes_randomBytes ht 64) fun random => ?_
  cases random with
  | none => exact goes_fail _
  | some random =>
    refine runs_ite (goes_fail _) (runs_bind (goes_send ht (hP _ hinit)) fun _ =>
      runs_bind (goes_expect ht _) fun _ => runs_bind runs_get fun _ => ?_)
    split
    · exact runs_ite (goes_fail _) (runs_bind (goes_luck ht) fun _ =>
        runs_ite (goes_fail _) (runs_pure _))
    · exact goes_fail _

theorem goes_runMethod (ht : Tame P I) (hP : ∀ m, handshake m → P m) (m : Method) :
    Goes I (runMethod w l m) := by
  cases m with
  | mlKem768X25519 => exact goes_runMlkem ht hP
  | curve25519 => exact goes_runCurve25519 ht hP
  | dhGex =>
    refine runs_bind (goes_send ht (hP _ (by simp [handshake]))) fun _ =>
      runs_bind (goes_expect ht _) fun _ => runs_bind runs_get fun _ => ?_
    split
    · exact runs_ite (goes_fail _) (goes_runDh ht hP _ _ _ (by simp [handshake]) _)
    · exact goes_fail _
  | dhGroup bits =>
    exact runs_bind (goes_luck ht) fun _ =>
      runs_ite (goes_runDh ht hP _ _ _ (by simp [handshake]) _) (goes_fail _)

theorem goes_switchKeys (ht : Tame P I) (hP : P [Msg.newKeys]) (a : Agreed) (x : Exchange) :
    Goes I (switchKeys w l a x) :=
  runs_bind runs_get fun _ => runs_bind (goes_send ht hP) fun _ =>
    runs_bind (goes_installSend ht _ _ _ _ _) fun _ => runs_bind (goes_expect ht _) fun _ =>
      goes_installRecv ht _ _ _ _ _

theorem goes_readServerInit (ht : Tame P I) : Goes I readServerInit := by
  refine runs_bind runs_get fun _ => ?_
  split
  · exact goes_fail _
  · exact runs_ite (runs_pure _) (runs_ite (goes_fail _) (runs_bind
      (goes_note ht (fun _ => ⟨rfl, rfl, rfl, rfl, rfl, rfl⟩) fun _ => ⟨rfl, rfl⟩)
      fun _ => runs_pure _))

theorem goes_discardGuess (ht : Tame P I) (theirs : KexInit) (a : Agreed) :
    Goes I (discardGuess w theirs a) := by
  refine runs_ite (runs_bind (goes_readPacket ht) fun got => ?_) (runs_pure _)
  cases got with
  | timeout => exact goes_fail _
  | packet => exact runs_pure _

theorem goes_takeServerInit (ht : Tame P I) (received : Bool) (init : Bytes) :
    Goes I (takeServerInit w received init) :=
  runs_ite (goes_note ht (fun _ => ⟨rfl, rfl, rfl, rfl, rfl, rfl⟩) fun _ => ⟨rfl, rfl⟩)
    (runs_bind (goes_expect ht _) fun _ =>
      goes_note ht (fun _ => ⟨rfl, rfl, rfl, rfl, rfl, rfl⟩) fun _ => ⟨rfl, rfl⟩)

theorem goes_handleExtInfo (ht : Tame P I) : Goes I handleExtInfo := by
  refine runs_bind runs_get fun _ => ?_
  split
  · exact goes_fail _
  · refine runs_ite (goes_fail _) ?_
    split
    · exact goes_fail _
    · exact runs_pure _
    · exact goes_note ht (fun _ => ⟨rfl, rfl, rfl, rfl, rfl, rfl⟩) fun _ => ⟨rfl, rfl⟩

end EffectLemmas

section

variable {w : World} {l : Library} {P : Bytes → Prop} {I : Transport → Prop} (ht : Tame P I)

include ht

/-- A key exchange keeps what its end keeps. -/
theorem goes_kexRun (hP : ∀ m, handshake m → P m) (hfinish : ∀ a o, Goes I (finishExchange w l a o))
    (received : Bool) : Goes I (kexRun w l received) := by
  refine runs_bind runs_get fun _ => runs_bind (goes_sendKexInit ht hP) fun _ =>
    runs_bind (goes_takeServerInit ht _ _) fun _ =>
    runs_bind (goes_readServerInit ht) fun _ => runs_bind runs_get fun _ => ?_
  split
  · exact goes_fail _
  · exact runs_bind (goes_discardGuess ht _ _) fun _ =>
      runs_bind (goes_runMethod ht hP _) fun _ => hfinish _ _

theorem goes_ident : Goes I (exchangeIdentification w) := by
  refine runs_bind (goes_note ht (fun _ => ⟨rfl, rfl, rfl, rfl, rfl, rfl⟩) fun _ => ⟨rfl, rfl⟩)
    fun _ => runs_bind ?_ fun _ => goes_identLines ht _
  exact runs_bind runs_get fun _ => runs_ite (runs_bind (goes_luck ht) fun _ => runs_ite
    (goes_note ht (fun _ => ⟨rfl, rfl, rfl, rfl, rfl, rfl⟩) fun _ => ⟨rfl, rfl⟩) (goes_fail _))
    (goes_fail _)

theorem goes_drop (hbye : ∀ rest, P (Msg.disconnect :: rest)) : Goes I (drop w) :=
  runs_bind (runs_bind runs_get fun _ => runs_ite (runs_pure _)
    (runs_bind (runs_attempt (goes_send ht (hbye _))) fun _ => runs_pure _)) fun _ =>
    goes_note ht (fun _ => ⟨rfl, rfl, rfl, rfl, rfl, rfl⟩) fun _ => ⟨rfl, rfl⟩

variable (hP : ∀ m, P m) (hfinish : ∀ a o, Goes I (finishExchange w l a o))

include hP hfinish

theorem goes_recvTurn : Goes I (recvTurn w l) := by
  refine runs_bind (goes_readPacket ht) fun got => ?_
  cases got with
  | timeout => exact runs_pure _
  | packet =>
    refine runs_bind runs_get fun _ => runs_ite (goes_fail _) (runs_ite (runs_pure _)
      (runs_ite (goes_fail _)
      (runs_ite (runs_bind (goes_handleExtInfo ht) fun _ => runs_pure _)
      (runs_ite (runs_bind (goes_kexRun ht (fun m _ => hP m) hfinish _) fun _ => runs_pure _)
      (runs_ite ?_ (runs_pure _))))))
    split
    · exact goes_fail _
    · exact runs_bind (goes_send ht (hP _)) fun _ => runs_pure _
    · exact runs_pure _

/-- A packet that the caller does not see uses up bytes. -/
theorem recvTurn_less {t : Transport} (h : I t) :
    wp (recvTurn w l) (fun o t' => o = none → t'.unread < t.unread) (fun _ _ => True) t := by
  rw [recvTurn, wp_bind]
  refine wp_mono (readPacket_goes ht h) ?_ (fun _ _ _ => trivial)
  rintro got u ⟨hu, _, hless⟩
  -- what is done with the packet reads no more than is left
  have hrest {α : Type} {m : Client α} {o : Option Recv} (hm : Goes I m) (hgot : got = .packet) :
      wp (m >>= fun _ => pure o) (fun o t' => o = none → t'.unread < t.unread)
        (fun _ _ => True) u := by
    rw [wp_bind]
    refine wp_mono (hm u hu) ?_ (fun _ _ _ => trivial)
    rintro _ v ⟨_, hv⟩ _
    exact Nat.lt_of_le_of_lt hv (hless hgot)
  cases got with
  | timeout => exact fun h => by cases h
  | packet =>
    simp only [wp_bind (m := get), wp_get, wp_ite, wp_pure, wp_fail]
    refine ⟨fun _ => trivial, fun _ => ⟨fun _ _ => hless rfl, fun _ => ⟨fun _ => trivial, fun _ =>
      ⟨fun _ => hrest (goes_handleExtInfo ht) rfl, fun _ =>
      ⟨fun _ => hrest (goes_kexRun ht (fun m _ => hP m) hfinish true) rfl, fun _ => ⟨fun _ => ?_, fun _ hn =>
        (by cases hn)⟩⟩⟩⟩⟩⟩
    split
    · exact trivial
    · exact hrest (goes_send ht (hP _)) rfl
    · exact fun _ => hless rfl

theorem goes_recv : Goes I (recv w l) :=
  runs_loop (goes_recvTurn ht hP hfinish) fun _ h => recvTurn_less ht hP hfinish h

theorem goes_openTransport (host : String) (port : Nat) (knownHosts : String) :
    Goes I (openTransport w l host port knownHosts) := by
  refine runs_bind (goes_note ht (fun _ => ⟨rfl, rfl, rfl, rfl, rfl, rfl⟩) fun _ => ⟨rfl, rfl⟩)
    fun _ => ?_
  split
  · exact goes_fail _
  · exact runs_bind (goes_note ht (fun _ => ⟨rfl, rfl, rfl, rfl, rfl, rfl⟩) fun _ => ⟨rfl, rfl⟩)
      fun _ => runs_bind (goes_luck ht) fun _ => runs_ite (goes_fail _) (runs_bind
      (goes_note ht (fun _ => ⟨rfl, rfl, rfl, rfl, rfl, rfl⟩) fun _ => ⟨rfl, rfl⟩) fun _ =>
      runs_bind (goes_ident ht) fun _ => runs_bind (goes_kexRun ht (fun m _ => hP m) hfinish _) fun _ =>
      runs_bind (goes_luck ht) fun _ => runs_ite (runs_pure _) (goes_fail _))

theorem goes_calls (cs : List Call) : Goes I (calls w l cs) := by
  induction cs with
  | nil => exact runs_pure _
  | cons c cs ih =>
    refine runs_bind (runs_attempt ?_) fun _ => ih
    cases c with
    | send payload => exact goes_send ht (hP _)
    | recv => exact runs_bind (goes_recv ht hP hfinish) fun _ => runs_pure _

/-- A whole session keeps what the end of a key exchange keeps. -/
theorem goes_session (host : String) (port : Nat) (knownHosts : String) (cs : List Call) :
    Goes I (session w l host port knownHosts cs) := by
  refine runs_bind (runs_attempt (goes_openTransport ht hP hfinish _ _ _)) fun r => ?_
  cases r with
  | error _ => exact goes_drop ht fun _ => hP _
  | ok _ => exact runs_bind (goes_calls ht hP hfinish cs) fun _ => goes_drop ht fun _ => hP _

end

end OmtClient.Ssh
