import OmtClient.Ssh.Effects

/-!
# What a session is built on

A session may be opened by any server: `arrivals` is whatever bytes it sends. The
record of the session then says what the client insisted on before it sent
anything but the messages of the transport layer, and what stays fixed after.

1. `hears_runMethod` and its neighbours: in the first exchange the client reads
   the messages it expects and no others.
2. `authenticated_finishExchange`: a later exchange keeps the host key and the session
   id of the first.
3. `session_authenticated`: the record of every session, whatever its server and
   its callers do.
-/

namespace OmtClient.Ssh

open OmtClient.Lib Prog EffectLemmas

/-- The packets read, in order. -/
def reads (log : List Event) : List Bytes :=
  log.filterMap fun
    | .read payload => some payload
    | _ => none

/-- A message of the transport layer: a disconnect or one of a key exchange. The
messages of authentication and of channels are others. -/
def transportLayer (payload : Bytes) : Prop :=
  payload.headD 0 = Msg.disconnect ∨ handshake payload

/-- The messages a method waits for. -/
def Method.replies : Method → List Byte
  | .dhGex => [Msg.kex31, Msg.kexDhGexReply]
  | _ => [Msg.kex31]

/-- What the client read up to the end of its first exchange: the server's
KEXINIT, with strict key exchange in it; a packet that this KEXINIT announced as a
guess; the replies of the method, the last of which presents the host key; and
NEWKEYS. -/
structure Conversation (l : Library) (x : Exchange) (read : List Bytes) : Prop where
  messages : ∃ theirs preferred a guess replies newKeys,
    parseKexInit x.iS = some theirs ∧ Wire.namelistHas (theirs.list 0) strictS = true ∧
    negotiate l preferred theirs = .ok a ∧ a.hostkey = x.hostkey ∧
    read = x.iS :: guess ++ replies ++ [newKeys] ∧
    guess.length ≤ 1 ∧ (guess ≠ [] → guessedWrong theirs a = true) ∧
    replies.map (·.headD 0) = a.method.method.replies ∧ newKeys.headD 0 = Msg.newKeys ∧
    (replies.getLast?.bind fun reply => (Wire.string (reply.drop 1)).map Prod.fst) = some x.kS

/-- What the first exchange of a session rests on, by the record before its
end. -/
structure Accepted (l : Library) (host : String) (port : Nat) (path : String)
    (before : List Event) (x : Exchange) : Prop where
  vC : x.vC = utf8 ident
  vS : .identified x.vS ∈ before
  iC : .sent x.iC ∈ before
  conversation : Conversation l x (reads before)
  known : l.knownHosts path host port x.kS = .ok .known
  signed : l.verify x.kS x.hostkey x.sig (x.hash l) = .ok ()

/-- No exchange is completed, and only messages of the transport layer were
sent. -/
structure Unauthenticated (t : Transport) : Prop where
  firstKexDone : t.firstKexDone = false
  sent : ∀ m, .sent m ∈ t.log → transportLayer m
  none : ∀ x, .exchanged x ∉ t.log

/-- The exchange `x` was the first to be completed, after the record `before`. -/
structure Authenticated (l : Library) (host : String) (port : Nat) (path : String)
    (before : List Event) (x : Exchange) (t : Transport) : Prop where
  firstKexDone : t.firstKexDone = true
  accepted : Accepted l host port path before x
  sent : ∀ m, .sent m ∈ before → transportLayer m
  none : ∀ y, .exchanged y ∉ before
  sessionId : t.sessionId = x.hash l
  hostKey : t.hostKey = x.kS
  log : ∃ after, t.log = before ++ .exchanged x :: after ∧
    ∀ y, .exchanged y ∈ after → y.kS = x.kS ∧ l.verify y.kS y.hostkey y.sig (y.hash l) = .ok ()

/-! ## What is heard -/

/-- What an exchange rests on besides its messages. -/
structure Terms where
  vC : Bytes
  vS : Bytes
  iC : Bytes
  iS : Bytes
  host : String
  port : Nat
  knownHosts : String
  sessionId : Bytes
  hostKey : Bytes
  firstKexDone : Bool

def Transport.terms (t : Transport) : Terms :=
  ⟨t.vC, t.vS, t.iC, t.iS, t.host, t.port, t.knownHosts, t.sessionId, t.hostKey, t.firstKexDone⟩

/-- From `t` to `t'` the client read the packets `rs` and left the terms alone. -/
structure Hears (t t' : Transport) (rs : List Bytes) : Prop where
  terms : t'.terms = t.terms
  reads : reads t'.log = reads t.log ++ rs
  keeps : t.log <+: t'.log
  payload : t'.payload = rs.getLast?.getD t.payload

namespace HandshakeLemmas

variable {w : World} {l : Library} {t t' t'' : Transport}

theorem reads_append (a b : List Event) : reads (a ++ b) = reads a ++ reads b :=
  List.filterMap_append

theorem reads_sealRecord (c : PacketCipher) (seq : UInt32) (ok : Bool) :
    reads (sealRecord c seq ok) = [] := by
  unfold sealRecord
  cases c.alg with
  | none => rfl
  | some alg =>
    dsimp only
    split
    · rfl
    · split
      · rfl
      · rfl

theorem hears_refl (hterms : t'.terms = t.terms) (hlog : t'.log = t.log)
    (hpayload : t'.payload = t.payload) : Hears t t' [] := by
  refine ⟨hterms, ?_, ?_, hpayload⟩
  · rw [hlog, List.append_nil]
  · exact hlog ▸ List.prefix_rfl

theorem hears_trans {rs rs' : List Bytes} (h : Hears t t' rs) (h' : Hears t' t'' rs') :
    Hears t t'' (rs ++ rs') := by
  refine ⟨h'.terms.trans h.terms, ?_, h.keeps.trans h'.keeps, ?_⟩
  · rw [h'.reads, h.reads, List.append_assoc]
  · rw [h'.payload, h.payload, List.getLast?_append]
    cases rs'.getLast? with
    | none => rfl
    | some _ => rfl

theorem hears_firstKexDone {rs : List Bytes} (h : Hears t t' rs) :
    t'.firstKexDone = t.firstKexDone := congrArg Terms.firstKexDone h.terms

theorem hears_randomBytes (n : Nat) :
    wp (randomBytes w n) (fun _ t' => Hears t t' []) (fun _ _ => True) t := by
  simp only [randomBytes, wp_bind, wp_luck, wp_ite, wp_get, wp_modify, wp_pure]
  exact ⟨fun _ => hears_refl rfl rfl rfl, fun _ => hears_refl rfl rfl rfl⟩

theorem hears_send (payload : Bytes) :
    wp (send w payload) (fun _ t' => Hears t t' [] ∧ .sent payload ∈ t'.log)
      (fun _ _ => True) t := by
  refine wp_mono (send_effect payload) ?_ (fun _ _ _ => trivial)
  rintro _ _ ⟨x, _, _, rfl⟩
  refine ⟨⟨rfl, ?_, ?_, rfl⟩, List.mem_append_right _ (List.mem_singleton_self _)⟩
  · show reads (t.log ++ sealRecord t.send t.sendSeq true ++ [.sent payload]) = reads t.log ++ []
    rw [reads_append, reads_append, reads_sealRecord, List.append_nil]
    exact List.append_nil _
  · show t.log <+: t.log ++ sealRecord t.send t.sendSeq true ++ [.sent payload]
    rw [List.append_assoc]
    exact List.prefix_append _ _

theorem hears_readPacket :
    wp (readPacket w) (fun got t' => got = .packet → Hears t t' [t'.payload])
      (fun _ _ => True) t := by
  refine wp_mono readPacket_effect ?_ (fun _ _ _ => trivial)
  rintro _ _ (⟨rfl, r, rfl, _⟩ | ⟨rfl, r, rfl, _⟩) hgot
  · exact ⟨rfl, reads_append _ _, List.prefix_append _ _, rfl⟩
  · exact nomatch hgot

/-- In the first exchange a wait takes the next packet or gives up. -/
theorem hears_expect (kind : Byte) (h : t.firstKexDone = false) :
    wp (expect w kind) (fun _ t' => Hears t t' [t'.payload] ∧ t'.msgType = kind)
      (fun _ _ => True) t := by
  rw [expect, wp_bind, wp_get, loop]
  refine wp_seq (Q := fun o t' => o = some () ∧ Hears t t' [t'.payload] ∧ t'.msgType = kind) ?_ ?_
  · refine wp_seq hears_readPacket fun got u hu => ?_
    cases got with
    | timeout => exact trivial
    | packet =>
      have hfirst : u.firstKexDone = false := (hears_firstKexDone (hu rfl)).trans h
      rw [wp_bind, wp_get, hfirst]
      simp only [wp_ite, wp_pure, wp_fail, Bool.false_and, true_and]
      exact ⟨fun hkind => ⟨hu rfl, hkind⟩, fun _ => ⟨fun _ => trivial,
        fun _ => ⟨fun hno => (nomatch hno), fun _ => trivial⟩⟩⟩
  · rintro o u ⟨rfl, hu⟩
    exact hu

/-! ## The messages of the first exchange -/

/-- A method's result and what it heard. -/
def Presents (t : Transport) (kinds : List Byte) (o : KexOut) (t' : Transport) : Prop :=
  ∃ rs, Hears t t' rs ∧ rs.map (·.headD 0) = kinds ∧
    (rs.getLast?.bind fun reply => (Wire.string (reply.drop 1)).map Prod.fst) = some o.kS

theorem presents_after {kinds : List Byte} {o : KexOut} (h : Hears t t' [])
    (hp : Presents t' kinds o t'') : Presents t kinds o t'' := by
  obtain ⟨rs, hrs, hk, hs⟩ := hp
  exact ⟨rs, hears_trans h hrs, hk, hs⟩

theorem hears_readEcdhReply (h : t.firstKexDone = false) :
    wp (readEcdhReply w) (fun reply t' => Hears t t' [t'.payload] ∧ t'.msgType = Msg.kex31 ∧
        (Wire.string t'.body).map Prod.fst = some reply.1) (fun _ _ => True) t := by
  refine wp_seq (hears_expect _ h) fun _ u hu => ?_
  rw [wp_bind, wp_get]
  split
  · next kS qS sig hr =>
    refine ⟨hu.1, hu.2, ?_⟩
    cases hs : Wire.string u.body with
    | none => rw [hs] at hr; exact nomatch hr
    | some s =>
      obtain ⟨k, r⟩ := s
      rw [hs] at hr
      simp only [Option.bind_eq_bind, Option.bind_some, Option.bind_eq_some_iff] at hr
      obtain ⟨⟨q, r₁⟩, _, ⟨g, r₂⟩, _, heq⟩ := hr
      cases heq
      rfl
  · exact trivial

/-- The reply a method's last wait took. -/
theorem presents_reply {kind : Byte} {o : KexOut} (h : Hears t t' []) (hx : Hears t' t'' [t''.payload])
    (hkind : t''.msgType = kind) (hkS : (Wire.string t''.body).map Prod.fst = some o.kS)
    {u : Transport} (hu : Hears t'' u []) : Presents t [kind] o u :=
  ⟨[t''.payload], hears_trans h (hears_trans hx hu), congrArg (fun k => [k]) hkind, hkS⟩

theorem hears_runCurve25519 (h : t.firstKexDone = false) :
    wp (runCurve25519 w l) (Presents t [Msg.kex31]) (fun _ _ => True) t := by
  refine wp_seq (hears_randomBytes 32) fun mine u hu => ?_
  cases mine with
  | none => exact trivial
  | some mine =>
    rw [wp_ite]
    refine ⟨fun _ => trivial, fun _ => ?_⟩
    refine wp_seq (hears_send _) fun _ v hv => ?_
    have huv := hears_trans hu hv.1
    refine wp_seq (hears_readEcdhReply ((hears_firstKexDone huv).trans h)) ?_
    rintro ⟨kS, qS, sig⟩ x ⟨hx, hkind, hkS⟩
    dsimp only
    split
    · exact trivial
    · exact presents_reply huv hx hkind hkS (hears_refl rfl rfl rfl)

theorem hears_runMlkem (h : t.firstKexDone = false) :
    wp (runMlkem w l) (Presents t [Msg.kex31]) (fun _ _ => True) t := by
  refine wp_seq (hears_randomBytes 64) fun kem u hu => ?_
  refine wp_seq (hears_randomBytes 32) fun ecdh v hv => ?_
  split
  · rw [wp_ite]
    refine ⟨fun _ => trivial, fun _ => ?_⟩
    refine wp_seq (hears_send _) fun _ x hx => ?_
    have htx := hears_trans (hears_trans hu hv) hx.1
    refine wp_seq (hears_readEcdhReply ((hears_firstKexDone htx).trans h)) ?_
    rintro ⟨kS, qS, sig⟩ y ⟨hy, hkind, hkS⟩
    simp only [wp_bind, wp_luck]
    split
    · exact trivial
    · exact presents_reply htx hy hkind hkS (hears_refl rfl rfl rfl)
  · exact trivial

theorem hears_runDh (before : Bytes) (p g : Nat) (init reply : Byte) (h : t.firstKexDone = false) :
    wp (runDh w before p g init reply) (Presents t [reply]) (fun _ _ => True) t := by
  refine wp_seq (hears_randomBytes 64) fun random u hu => ?_
  cases random with
  | none => exact trivial
  | some random =>
    rw [wp_ite]
    refine ⟨fun _ => trivial, fun _ => ?_⟩
    refine wp_seq (hears_send _) fun _ v hv => ?_
    have huv := hears_trans hu hv.1
    refine wp_seq (hears_expect _ ((hears_firstKexDone huv).trans h)) fun _ x hx => ?_
    rw [wp_bind, wp_get]
    split
    · next kS f sig hr =>
      simp only [wp_ite, wp_fail, wp_bind, wp_luck, wp_pure]
      refine ⟨fun _ => trivial, fun _ => ⟨fun _ => trivial, fun _ => ?_⟩⟩
      refine presents_reply huv hx.1 hx.2 ?_ (hears_refl rfl rfl rfl)
      cases hs : Wire.string x.body with
      | none => rw [hs] at hr; cases hr
      | some s =>
        obtain ⟨k, r⟩ := s
        rw [hs] at hr
        simp only [Option.bind_eq_bind, Option.bind_some, Option.bind_eq_some_iff] at hr
        obtain ⟨⟨q, r₁⟩, _, ⟨g, r₂⟩, _, heq⟩ := hr
        cases heq
        rfl
    · exact trivial

/-- A method reads its own messages and no others, and takes the host key from the
last of them. -/
theorem hears_runMethod (m : Method) (h : t.firstKexDone = false) :
    wp (runMethod w l m) (Presents t m.replies) (fun _ _ => True) t := by
  cases m with
  | mlKem768X25519 => exact hears_runMlkem h
  | curve25519 => exact hears_runCurve25519 h
  | dhGroup bits =>
    show wp (runDhGroup w l bits) _ _ t
    rw [runDhGroup, wp_bind, wp_luck, wp_ite]
    refine ⟨fun _ => ?_, fun _ => trivial⟩
    refine wp_mono (hears_runDh _ _ _ _ _ h) ?_ (fun _ _ _ => trivial)
    have hluck : Hears t { t with tried := t.tried + 1 } [] := hears_refl rfl rfl rfl
    exact fun o u hu => presents_after hluck hu
  | dhGex =>
    refine wp_seq (hears_send _) fun _ u hu => ?_
    refine wp_seq (hears_expect _ ((hears_firstKexDone hu.1).trans h)) fun _ v hv => ?_
    rw [wp_bind, wp_get]
    split
    · rw [wp_ite]
      refine ⟨fun _ => trivial, fun _ => ?_⟩
      have htv := hears_trans hu.1 hv.1
      refine wp_mono (hears_runDh _ _ _ _ _ ((hears_firstKexDone htv).trans h)) ?_
        (fun _ _ _ => trivial)
      rintro o x ⟨rs, hrs, hkinds, hlast⟩
      refine ⟨[v.payload] ++ rs, hears_trans htv hrs, ?_, ?_⟩
      · rw [List.map_append, hkinds]
        exact congrArg (fun k => [k, Msg.kexDhGexReply]) hv.2
      · rw [List.getLast?_append]
        cases hlr : rs.getLast? with
        | none => rw [hlr] at hlast; exact nomatch hlast
        | some r => rw [hlr] at hlast; exact hlast
    · exact trivial

theorem hears_installSend (alg : CipherAlg) (mac : Option MacAlg) (key iv macKey : Bytes) :
    wp (installSend w alg mac key iv macKey) (fun _ t' => Hears t t' []) (fun _ _ => True) t := by
  simp only [installSend, wp_bind, wp_modify, wp_luck]
  split
  · exact trivial
  · exact ⟨rfl, (reads_append _ _).trans (congrArg _ rfl), List.prefix_append _ _, rfl⟩

theorem hears_installRecv (alg : CipherAlg) (mac : Option MacAlg) (key iv macKey : Bytes) :
    wp (installRecv w alg mac key iv macKey) (fun _ t' => Hears t t' []) (fun _ _ => True) t := by
  simp only [installRecv, wp_bind, wp_modify, wp_luck]
  split
  · exact trivial
  · exact hears_refl rfl rfl rfl

theorem hears_switchKeys (a : Agreed) (x : Exchange) (h : t.firstKexDone = false) :
    wp (switchKeys w l a x)
      (fun _ t' => ∃ newKeys, Hears t t' [newKeys] ∧ newKeys.headD 0 = Msg.newKeys)
      (fun _ _ => True) t := by
  rw [switchKeys, wp_bind, wp_get]
  refine wp_seq (hears_send _) fun _ u hu => ?_
  refine wp_seq (hears_installSend _ _ _ _ _) fun _ v hv => ?_
  have htv := hears_trans hu.1 hv
  refine wp_seq (hears_expect _ ((hears_firstKexDone htv).trans h)) fun _ y hy => ?_
  refine wp_mono (hears_installRecv _ _ _ _ _) ?_ (fun _ _ _ => trivial)
  intro _ z hz
  exact ⟨y.payload, hears_trans htv (hears_trans hy.1 hz), hy.2⟩

/-- A guess is one packet, and only a wrong one is read. -/
theorem hears_discardGuess (theirs : KexInit) (a : Agreed) :
    wp (discardGuess w theirs a)
      (fun _ t' => ∃ guess, Hears t t' guess ∧ guess.length ≤ 1 ∧
        (guess ≠ [] → guessedWrong theirs a = true))
      (fun _ _ => True) t := by
  rw [discardGuess, wp_ite]
  refine ⟨fun hwrong => ?_, fun _ => ⟨[], hears_refl rfl rfl rfl, Nat.zero_le _, fun h => absurd rfl h⟩⟩
  refine wp_seq hears_readPacket fun got u hu => ?_
  cases got with
  | timeout => exact trivial
  | packet => exact ⟨[u.payload], hu rfl, Nat.le_refl _, fun _ => hwrong⟩

/-! ## Until the first exchange is done -/

theorem not_mem_sealRecord (c : PacketCipher) (seq : UInt32) (ok : Bool) :
    (∀ m, .sent m ∉ sealRecord c seq ok) ∧ ∀ x, .exchanged x ∉ sealRecord c seq ok := by
  unfold sealRecord
  cases c.alg with
  | none => simp
  | some alg =>
    dsimp only
    split
    · simp
    · split
      · simp
      · simp

theorem unauthenticated_append (h : Unauthenticated t) {es : List Event} (hlog : t'.log = t.log ++ es)
    (hsent : ∀ m, .sent m ∈ es → transportLayer m) (hnone : ∀ x, .exchanged x ∉ es)
    (hfirst : t'.firstKexDone = t.firstKexDone) : Unauthenticated t' := by
  refine ⟨hfirst.trans h.firstKexDone, fun m hm => ?_, fun x hx => ?_⟩
  · rw [hlog] at hm
    rcases List.mem_append.mp hm with hm | hm
    · exact h.sent m hm
    · exact hsent m hm
  · rw [hlog] at hx
    rcases List.mem_append.mp hx with hx | hx
    · exact h.none x hx
    · exact hnone x hx

theorem unauthenticated_tame : Tame transportLayer Unauthenticated where
  same h hs := ⟨hs.firstKexDone.trans h.firstKexDone, hs.log ▸ h.sent, hs.log ▸ h.none⟩
  heard he h := by
    cases he with
    | read => exact unauthenticated_append h rfl (by simp) (by simp) rfl
    | identified => exact unauthenticated_append h rfl (by simp) (by simp) rfl
  sends hp hs h := by
    cases hs with
    | sent _ _ =>
      refine unauthenticated_append h (List.append_assoc _ _ _) (fun m hm => ?_) (fun x hx => ?_) rfl
      · rcases List.mem_append.mp hm with hm | hm
        · exact absurd hm ((not_mem_sealRecord _ _ _).1 m)
        · cases List.mem_singleton.mp hm
          exact hp
      · rcases List.mem_append.mp hx with hx | hx
        · exact (not_mem_sealRecord _ _ _).2 x hx
        · exact nomatch List.mem_singleton.mp hx
    | unsealed _ _ =>
      exact unauthenticated_append h rfl (fun m hm => absurd hm ((not_mem_sealRecord _ _ _).1 m))
        (not_mem_sealRecord _ _ _).2 rfl
    | unsent _ _ => exact ⟨h.firstKexDone, h.sent, h.none⟩
  installs _ _ h := unauthenticated_append h rfl (by simp) (by simp) rfl
  loses _ h := unauthenticated_append h rfl (by simp) (by simp) rfl

/-- Code that keeps the client unauthenticated, with what it does when it
returns. -/
theorem wp_unauthenticated {α : Type} {m : Client α} {Q : α → Transport → Prop}
    (hg : Goes Unauthenticated m) (ht : Unauthenticated t) (hm : wp m Q (fun _ _ => True) t) :
    wp m (fun a t' => Unauthenticated t' ∧ Q a t') (fun _ t' => Unauthenticated t') t :=
  wp_mono (wp_and (hg t ht) hm) (fun _ _ h => ⟨h.1.1, h.2⟩) fun _ _ h => h.1.2.1

/-- The server has identified itself to a client that asked for this host. -/
structure Greeted (host : String) (port : Nat) (path : String) (t : Transport) : Prop where
  vC : t.vC = utf8 ident
  vS : .identified t.vS ∈ t.log
  host : t.host = host
  port : t.port = port
  path : t.knownHosts = path

/-- The client has also sent its KEXINIT. -/
structure Offered (host : String) (port : Nat) (path : String) (t : Transport) : Prop
    extends Greeted host port path t where
  iC : .sent t.iC ∈ t.log

variable {host : String} {port : Nat} {path : String} {rs : List Bytes}

theorem greeted_hears (h : Greeted host port path t) (hh : Hears t t' rs) :
    Greeted host port path t' where
  vC := (congrArg Terms.vC hh.terms).trans h.vC
  vS := by
    have hvS : t'.vS = t.vS := congrArg Terms.vS hh.terms
    rw [hvS]
    exact hh.keeps.subset h.vS
  host := (congrArg Terms.host hh.terms).trans h.host
  port := (congrArg Terms.port hh.terms).trans h.port
  path := (congrArg Terms.knownHosts hh.terms).trans h.path

theorem offered_hears (h : Offered host port path t) (hh : Hears t t' rs) :
    Offered host port path t' := by
  refine ⟨greeted_hears h.toGreeted hh, ?_⟩
  have hiC : t'.iC = t.iC := congrArg Terms.iC hh.terms
  rw [hiC]
  exact hh.keeps.subset h.iC

theorem verifyExchange_ok {x : Exchange} (hv : verifyExchange l t x = .ok ()) :
    l.verify x.kS x.hostkey x.sig (x.hash l) = .ok () ∧ hostKeyTrusted l t x.kS = .ok () := by
  unfold verifyExchange at hv
  cases hkey : l.publicKey x.kS with
  | error e => rw [hkey] at hv; exact nomatch hv
  | ok keyType =>
    rw [hkey] at hv
    simp only [bind, Except.bind] at hv
    split at hv
    · cases hsig : l.verify x.kS x.hostkey x.sig (x.hash l) with
      | error e => rw [hsig] at hv; exact nomatch hv
      | ok u =>
        rw [hsig] at hv
        exact ⟨rfl, hv⟩
    · exact nomatch hv

theorem trusted_first {kS : Bytes} (h : t.firstKexDone = false)
    (hk : hostKeyTrusted l t kS = .ok ()) :
    l.knownHosts t.knownHosts t.host t.port kS = .ok .known := by
  rw [hostKeyTrusted, if_neg (by rw [h]; exact nofun)] at hk
  split at hk
  · exact nomatch hk
  · next hknown => exact hknown
  · exact nomatch hk
  · exact nomatch hk
  · exact nomatch hk

theorem trusted_later {kS : Bytes} (h : t.firstKexDone = true)
    (hk : hostKeyTrusted l t kS = .ok ()) : kS = t.hostKey := by
  rw [hostKeyTrusted, if_pos h] at hk
  split at hk
  · exact nomatch hk
  · next hsame => exact Classical.not_not.mp hsame

/-- The messages read before NEWKEYS. -/
def Heard (l : Library) (t : Transport) (a : Agreed) (kS : Bytes) : Prop :=
  ∃ theirs preferred guess replies,
    parseKexInit t.iS = some theirs ∧ Wire.namelistHas (theirs.list 0) strictS = true ∧
    negotiate l preferred theirs = .ok a ∧ reads t.log = t.iS :: guess ++ replies ∧
    guess.length ≤ 1 ∧ (guess ≠ [] → guessedWrong theirs a = true) ∧
    replies.map (·.headD 0) = a.method.method.replies ∧
    (replies.getLast?.bind fun reply => (Wire.string (reply.drop 1)).map Prod.fst) = some kS

/-- The first exchange ends with a host key that is known and a signature that is
its own, or the client stays unauthenticated. -/
theorem first_finishExchange {a : Agreed} {o : KexOut} (ht : Unauthenticated t)
    (ho : Offered host port path t) (hh : Heard l t a o.kS) :
    wp (finishExchange w l a o)
      (fun _ t' => ∃ before x, Authenticated l host port path before x t')
      (fun _ t' => Unauthenticated t') t := by
  have hsame {u : Transport} (hf : u.firstKexDone = t.firstKexDone) (hl : u.log = t.log) :
      Unauthenticated u := ⟨hf.trans ht.firstKexDone, hl ▸ ht.sent, hl ▸ ht.none⟩
  obtain ⟨theirs, preferred, guess, replies, hparse, hstrict, hagree, hreads, hguess, hwrong, hkinds,
    hlast⟩ := hh
  rw [finishExchange, wp_bind, wp_get]
  set x : Exchange := { vC := t.vC, vS := t.vS, iC := t.iC, iS := t.iS, kS := o.kS, fields := o.fields
                        k := o.k, md := a.method.hash, hostkey := a.hostkey, sig := o.sig } with hx
  rw [wp_bind, wp_luck, wp_ite]
  refine ⟨fun _ => hsame rfl rfl, fun _ => ?_⟩
  cases hv : verifyExchange l t x with
  | error e => exact hsame rfl rfl
  | ok u =>
    obtain ⟨hsigned, htrusted⟩ := verifyExchange_ok hv
    have hknown := trusted_first ht.firstKexDone htrusted
    rw [ho.path, ho.host, ho.port] at hknown
    simp only [wp_bind, fixSession, wp_get, wp_ite, wp_pure, wp_modify, wp_luck, wp_fail]
    refine ⟨fun hdone => (by cases ht.firstKexDone.symm.trans hdone), fun _ =>
      ⟨fun _ => hsame rfl rfl, fun _ => ?_⟩⟩
    -- from here the session id and the host key are those of this exchange
    set v : Transport := { t with
      tried := t.tried + 1 + 1, sessionId := x.hash l, hostKey := x.kS } with hvdef
    have hvun : Unauthenticated v := hsame rfl rfl
    refine wp_mono (wp_unauthenticated (goes_switchKeys unauthenticated_tame (.inr (by simp [handshake]))
      a x) hvun (hears_switchKeys a x hvun.firstKexDone)) ?_ (fun _ _ h => h)
    rintro _ y ⟨hy, newKeys, hyh, hnew⟩
    have hterms := hyh.terms
    have hvS : .identified t.vS ∈ y.log := hyh.keeps.subset ho.vS
    have hiC : .sent t.iC ∈ y.log := hyh.keeps.subset ho.iC
    refine ⟨y.log, x, rfl, ⟨ho.vC, hvS, hiC, ⟨theirs, preferred, a, guess, replies,
      newKeys, hparse, hstrict, hagree, rfl, ?_, hguess, hwrong, hkinds, hnew, hlast⟩, hknown, hsigned⟩,
      hy.sent, hy.none, congrArg Terms.sessionId hterms, congrArg Terms.hostKey hterms, [], rfl,
      fun _ h => by cases h⟩
    rw [hyh.reads]
    exact congrArg (· ++ [newKeys]) hreads

theorem offered_sendKexInit (hg : Greeted host port path t) (hr : reads t.log = []) :
    wp (sendKexInit w l) (fun _ t' => Offered host port path t' ∧ reads t'.log = [])
      (fun _ _ => True) t := by
  refine wp_seq (hears_randomBytes 16) fun cookie u hu => ?_
  cases cookie with
  | none => exact trivial
  | some cookie =>
    have hgu := greeted_hears hg hu
    simp only [wp_bind, wp_get, wp_modify]
    refine wp_mono (hears_send _) ?_ (fun _ _ _ => trivial)
    rintro _ v ⟨hv, hsent⟩
    refine ⟨⟨greeted_hears ?_ hv, ?_⟩, ?_⟩
    · exact ⟨hgu.vC, hgu.vS, hgu.host, hgu.port, hgu.path⟩
    · rw [show v.iC = _ from congrArg Terms.iC hv.terms]
      exact hsent
    · rw [hv.reads, List.append_nil]
      rw [hu.reads, hr]
      rfl

theorem offered_takeServerInit (ho : Offered host port path t) (hr : reads t.log = [])
    (h : t.firstKexDone = false) (init : Bytes) :
    wp (takeServerInit w false init)
      (fun _ t' => Offered host port path t' ∧ reads t'.log = [t'.iS]) (fun _ _ => True) t := by
  refine wp_seq (hears_expect Msg.kexInit h) fun _ u hu => ?_
  rw [wp_modify]
  have hou := offered_hears ho hu.1
  refine ⟨⟨⟨hou.vC, hou.vS, hou.host, hou.port, hou.path⟩, hou.iC⟩, ?_⟩
  rw [hu.1.reads, hr]
  rfl

theorem hears_readServerInit (h : t.firstKexDone = false) :
    wp readServerInit (fun theirs t' => Hears t t' [] ∧ parseKexInit t.iS = some theirs ∧
      Wire.namelistHas (theirs.list 0) strictS = true) (fun _ _ => True) t := by
  rw [readServerInit, wp_bind, wp_get]
  cases hp : parseKexInit t.iS with
  | none => exact trivial
  | some theirs =>
    simp only [wp_ite, wp_pure, wp_fail, wp_bind, wp_modify]
    refine ⟨fun hdone => (by cases h.symm.trans hdone), fun _ => ⟨fun _ => trivial, fun hstrict => ?_⟩⟩
    exact ⟨hears_refl rfl rfl rfl, trivial, by simpa using hstrict⟩

/-- The first exchange authenticates the server or leaves it unauthenticated. -/
theorem first_kexRun (ht : Unauthenticated t) (hg : Greeted host port path t)
    (hr : reads t.log = []) :
    wp (kexRun w l false) (fun _ t' => ∃ before x, Authenticated l host port path before x t')
      (fun _ t' => Unauthenticated t') t := by
  rw [kexRun, wp_bind, wp_get]
  refine wp_seq (wp_unauthenticated (goes_sendKexInit unauthenticated_tame fun _ => .inr) ht
    (offered_sendKexInit hg hr)) ?_
  rintro _ u ⟨hu, hou, hru⟩
  refine wp_seq (wp_unauthenticated (goes_takeServerInit unauthenticated_tame _ _) hu
    (offered_takeServerInit hou hru hu.firstKexDone _)) ?_
  rintro _ v ⟨hv, hov, hrv⟩
  refine wp_seq (wp_unauthenticated (goes_readServerInit unauthenticated_tame) hv
    (hears_readServerInit hv.firstKexDone)) ?_
  rintro theirs x ⟨hx, hxh, hparse, hstrict⟩
  rw [wp_bind, wp_get]
  cases hagree : negotiate l x.preferredHostkeys theirs with
  | error e => exact hx
  | ok a =>
    refine wp_seq (wp_unauthenticated (goes_discardGuess unauthenticated_tame _ _) hx
      (hears_discardGuess theirs a)) ?_
    rintro _ y ⟨hy, guess, hyh, hguess, hwrong⟩
    refine wp_seq (wp_unauthenticated (goes_runMethod unauthenticated_tame (fun _ => .inr) _) hy
      (hears_runMethod _ hy.firstKexDone)) ?_
    rintro o z ⟨hz, replies, hzh, hkinds, hlast⟩
    have hvz := hears_trans (hears_trans hxh hyh) hzh
    have hiS : z.iS = v.iS := congrArg Terms.iS hvz.terms
    refine first_finishExchange hz (offered_hears hov hvz) ⟨theirs, x.preferredHostkeys, guess, replies,
      hiS ▸ hparse, hstrict, hagree, ?_, hguess, hwrong, hkinds, hlast⟩
    rw [hvz.reads, hrv, hiS]
    rfl

theorem greeted_identLines (k : Nat) (hvC : t.vC = utf8 ident) (hhost : t.host = host)
    (hport : t.port = port) (hpath : t.knownHosts = path) (hr : reads t.log = []) :
    wp (identLines k) (fun _ t' => Greeted host port path t' ∧ reads t'.log = [])
      (fun _ _ => True) t := by
  induction k generalizing t with
  | zero => exact trivial
  | succ k ih =>
    have hline := line_effect (t := t)
    rw [wp_bind, wp_get] at hline
    rw [identLines, wp_bind, wp_get]
    refine wp_seq (wp_mono hline (fun _ _ h => h) fun _ _ _ => trivial) ?_
    rintro n _ ⟨r, rfl, _⟩
    simp only [wp_bind, wp_get, wp_ite, wp_fail, wp_modify]
    refine ⟨fun _ => ⟨fun _ => trivial, fun _ => ⟨fun _ => trivial, fun _ => ?_⟩⟩, fun _ => ?_⟩
    · refine ⟨⟨hvC, List.mem_append_right _ (List.mem_singleton_self _), hhost, hport, hpath⟩, ?_⟩
      exact (reads_append _ _).trans (congrArg (· ++ []) hr)
    · exact ih hvC hhost hport hpath hr

theorem greeted_ident (hhost : t.host = host) (hport : t.port = port) (hpath : t.knownHosts = path)
    (hr : reads t.log = []) :
    wp (exchangeIdentification w) (fun _ t' => Greeted host port path t' ∧ reads t'.log = [])
      (fun _ _ => True) t := by
  simp only [exchangeIdentification, sendRaw, wp_bind, wp_modify, wp_get, wp_ite, wp_luck, wp_fail]
  exact ⟨fun _ => ⟨fun _ => greeted_identLines _ rfl hhost hport hpath hr, fun _ => trivial⟩,
    fun _ => trivial⟩

/-- A connection is opened with its server authenticated. It may fail after that,
for being late. -/
theorem first_openTransport (w : World) (l : Library) (host : String) (port : Nat) (path : String)
    (arrivals : List Arrival) :
    wp (openTransport w l host port path)
      (fun _ t' => ∃ before x, Authenticated l host port path before x t')
      (fun _ t' => Unauthenticated t' ∨ ∃ before x, Authenticated l host port path before x t')
      { arrivals } := by
  have hfresh {u : Transport} (hf : u.firstKexDone = false) (hlog : u.log = []) :
      Unauthenticated u := ⟨hf, fun m hm => by simp [hlog] at hm, fun x hx => by simp [hlog] at hx⟩
  rw [openTransport, wp_bind, wp_modify]
  split
  · exact .inl (hfresh rfl rfl)
  · simp only [wp_bind, wp_modify, wp_luck, wp_ite, wp_fail]
    refine ⟨fun _ => .inl (hfresh rfl rfl), fun _ => ?_⟩
    refine wp_mono (wp_unauthenticated (goes_ident unauthenticated_tame) (hfresh rfl rfl)
      (greeted_ident rfl rfl rfl rfl)) ?_ (fun _ _ h => .inl h)
    rintro _ u ⟨hu, hgu, hru⟩
    refine wp_mono (first_kexRun hu hgu hru) ?_ (fun _ _ h => .inl h)
    rintro _ v ⟨before, x, hv⟩
    have hlate : Authenticated l host port path before x { v with tried := v.tried + 1 } :=
      ⟨hv.firstKexDone, hv.accepted, hv.sent, hv.none, hv.sessionId, hv.hostKey, hv.log⟩
    exact ⟨fun _ => ⟨before, x, hlate⟩, fun _ => .inr ⟨before, x, hlate⟩⟩

/-! ## After the first exchange -/

variable {before : List Event} {x : Exchange}

theorem authenticated_append (h : Authenticated l host port path before x t) {es : List Event}
    (hlog : t'.log = t.log ++ es)
    (hes : ∀ y, .exchanged y ∈ es →
      y.kS = x.kS ∧ l.verify y.kS y.hostkey y.sig (y.hash l) = .ok ())
    (hfirst : t'.firstKexDone = true) (hid : t'.sessionId = t.sessionId)
    (hkey : t'.hostKey = t.hostKey) : Authenticated l host port path before x t' := by
  obtain ⟨after, hafter, hlater⟩ := h.log
  refine ⟨hfirst, h.accepted, h.sent, h.none, hid.trans h.sessionId, hkey.trans h.hostKey,
    after ++ es, ?_, fun y hy => ?_⟩
  · rw [hlog, hafter, List.append_assoc, List.cons_append]
  · rcases List.mem_append.mp hy with hy | hy
    · exact hlater y hy
    · exact hes y hy

theorem authenticated_tame : Tame (fun _ => True) (Authenticated l host port path before x) where
  same h hs := authenticated_append h (hs.log.trans (List.append_nil _).symm) (fun _ he => nomatch he)
    (hs.firstKexDone.trans h.firstKexDone) hs.sessionId hs.hostKey
  heard he h := by
    cases he with
    | read => exact authenticated_append h rfl (by simp) h.firstKexDone rfl rfl
    | identified => exact authenticated_append h rfl (by simp) h.firstKexDone rfl rfl
  sends _ hs h := by
    cases hs with
    | sent _ _ =>
      refine authenticated_append h (List.append_assoc _ _ _) (fun y hy => ?_) h.firstKexDone rfl rfl
      rcases List.mem_append.mp hy with hy | hy
      · exact absurd hy ((not_mem_sealRecord _ _ _).2 y)
      · exact nomatch List.mem_singleton.mp hy
    | unsealed _ _ =>
      exact authenticated_append h rfl (fun y hy => absurd hy ((not_mem_sealRecord _ _ _).2 y))
        h.firstKexDone rfl rfl
    | unsent _ _ =>
      exact authenticated_append h (List.append_nil _).symm (fun _ he => nomatch he) h.firstKexDone rfl
        rfl
  installs _ _ h := authenticated_append h rfl (by simp) h.firstKexDone rfl rfl
  loses _ h := authenticated_append h rfl (by simp) h.firstKexDone rfl rfl

end HandshakeLemmas

open HandshakeLemmas

/-- A later exchange is accepted only with the host key of the first, and leaves the
session id alone. -/
theorem authenticated_finishExchange {w : World} {l : Library} {host : String} {port : Nat}
    {path : String} {before : List Event} {x : Exchange} (a : Agreed) (o : KexOut) :
    Goes (Authenticated l host port path before x) (finishExchange w l a o) := by
  intro t h
  rw [finishExchange, wp_bind, wp_get]
  set y : Exchange := { vC := t.vC, vS := t.vS, iC := t.iC, iS := t.iS, kS := o.kS, fields := o.fields
                        k := o.k, md := a.method.hash, hostkey := a.hostkey, sig := o.sig } with hy
  have hsame {u : Transport} (hs : SameCore t u) : Authenticated l host port path before x u :=
    authenticated_tame.same h hs
  rw [wp_bind, wp_luck, wp_ite]
  refine ⟨fun _ => ⟨by rintro ⟨⟩, hsame ⟨rfl, rfl, rfl, rfl, rfl, rfl⟩, Nat.le_refl _⟩, fun _ => ?_⟩
  cases hv : verifyExchange l t y with
  | error e => exact ⟨by rintro ⟨⟩, hsame ⟨rfl, rfl, rfl, rfl, rfl, rfl⟩, Nat.le_refl _⟩
  | ok u =>
    obtain ⟨hsigned, htrusted⟩ := verifyExchange_ok hv
    have hkS : y.kS = x.kS := (trusted_later h.firstKexDone htrusted).trans h.hostKey
    simp only [wp_bind, fixSession, wp_get, wp_ite, wp_pure, wp_modify, wp_luck, wp_fail]
    refine ⟨fun _ => ⟨fun _ => ?_, fun _ => ?_⟩, fun hnot => absurd h.firstKexDone hnot⟩
    · exact ⟨by rintro ⟨⟩, hsame ⟨rfl, rfl, rfl, rfl, rfl, rfl⟩, Nat.le_refl _⟩
    · refine wp_mono (goes_switchKeys authenticated_tame trivial a y _
        (hsame ⟨rfl, rfl, rfl, rfl, rfl, rfl⟩)) ?_ (fun _ _ h => h)
      rintro _ v ⟨hv', hle⟩
      refine ⟨authenticated_append hv' rfl (fun z hz => ?_) rfl rfl rfl, hle⟩
      cases List.mem_singleton.mp hz
      exact ⟨hkS, hsigned⟩

/-- How a session ends: either opening it failed, and the calls do not matter, or
its first exchange is there whatever the calls were. -/
theorem sessionEnd_cases (w : World) (l : Library) (host : String) (port : Nat) (path : String)
    (arrivals : List Arrival) :
    (∃ t, (∀ cs, sessionEnd w l host port path arrivals cs = t) ∧
      (Unauthenticated t ∨ ∃ before x, Authenticated l host port path before x t)) ∨
    ∃ before x, ∀ cs, Authenticated l host port path before x
      (sessionEnd w l host port path arrivals cs) := by
  have hopened := first_openTransport w l host port path arrivals
  unfold wp at hopened
  cases hrun : (openTransport w l host port path).run { arrivals } with
  | mk r t =>
    rw [hrun] at hopened
    cases r with
    | error e =>
      refine .inl ⟨((drop w).run t).2, fun cs => ?_, ?_⟩
      · simp only [sessionEnd, session, bind, andThen, attempt, hrun]
      · rcases hopened with hun | ⟨before, x, hauth⟩
        · exact .inl ((goes_drop unauthenticated_tame fun _ => .inl rfl).state hun)
        · exact .inr ⟨before, x, (goes_drop authenticated_tame fun _ => trivial).state hauth⟩
    | ok u =>
      obtain ⟨before, x, hauth⟩ := hopened
      refine .inr ⟨before, x, fun cs => ?_⟩
      have hend : sessionEnd w l host port path arrivals cs =
          ((calls w l cs >>= fun _ => drop w).run t).2 := by
        simp only [sessionEnd, session, bind, andThen, attempt, hrun]
      rw [hend]
      exact (runs_bind (goes_calls authenticated_tame (fun _ => trivial) authenticated_finishExchange cs)
        fun _ => goes_drop authenticated_tame fun _ => trivial).state hauth

/-- Whatever a server sends, nothing but messages of the transport layer leaves the
client before its first exchange is completed, and that exchange is completed only
as `Accepted` says. The session id and the host key are then those of that
exchange, later exchanges have the same host key, and no further call changes
either. -/
theorem session_authenticated (w : World) (l : Library) (host : String) (port : Nat) (path : String)
    (arrivals : List Arrival) (cs : List Call) :
    ((sessionEnd w l host port path arrivals cs).firstKexDone = false →
      ∀ m, .sent m ∈ (sessionEnd w l host port path arrivals cs).log → transportLayer m) ∧
    ((sessionEnd w l host port path arrivals cs).firstKexDone = true →
      ∃ before x after,
        (sessionEnd w l host port path arrivals cs).log = before ++ .exchanged x :: after ∧
        (∀ m, .sent m ∈ before → transportLayer m) ∧ (∀ y, .exchanged y ∉ before) ∧
        Accepted l host port path before x ∧
        (sessionEnd w l host port path arrivals cs).sessionId = x.hash l ∧
        (sessionEnd w l host port path arrivals cs).hostKey = x.kS ∧
        (∀ y, .exchanged y ∈ after →
          y.kS = x.kS ∧ l.verify y.kS y.hostkey y.sig (y.hash l) = .ok ()) ∧
        ∀ more,
          (sessionEnd w l host port path arrivals (cs ++ more)).firstKexDone = true ∧
          (sessionEnd w l host port path arrivals (cs ++ more)).sessionId = x.hash l ∧
          (sessionEnd w l host port path arrivals (cs ++ more)).hostKey = x.kS) := by
  have hdone {t : Transport} {before : List Event} {x : Exchange}
      (h : Authenticated l host port path before x t) :
      t.firstKexDone = true ∧ t.sessionId = x.hash l ∧ t.hostKey = x.kS :=
    ⟨h.firstKexDone, h.sessionId, h.hostKey⟩
  rcases sessionEnd_cases w l host port path arrivals with
    ⟨t, hend, hun | ⟨before, x, h⟩⟩ | ⟨before, x, hall⟩
  · rw [hend cs]
    exact ⟨fun _ => hun.sent, fun h => nomatch hun.firstKexDone.symm.trans h⟩
  · rw [hend cs]
    refine ⟨fun hno => (nomatch h.firstKexDone.symm.trans hno), fun _ => ?_⟩
    obtain ⟨after, hlog, hlater⟩ := h.log
    refine ⟨before, x, after, hlog, h.sent, h.none, h.accepted, h.sessionId, h.hostKey, hlater,
      fun more => ?_⟩
    rw [hend]
    exact hdone h
  · have h := hall cs
    refine ⟨fun hno => (nomatch h.firstKexDone.symm.trans hno), fun _ => ?_⟩
    obtain ⟨after, hlog, hlater⟩ := h.log
    exact ⟨before, x, after, hlog, h.sent, h.none, h.accepted, h.sessionId, h.hostKey, hlater,
      fun more => hdone (hall (cs ++ more))⟩

end OmtClient.Ssh
