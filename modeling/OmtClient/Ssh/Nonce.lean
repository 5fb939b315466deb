import OmtClient.Ssh.Effects

/-!
# Nonces of the AEAD ciphers

Every packet of a session sealed by an AEAD cipher is recorded with the key and
the nonce it was sealed under: the sequence number for ChaCha20, the IV for GCM.
A pair comes up twice only through one path: the strict key exchange resets the
sequence number before the new cipher is set up, so when that fails during a
re-key the old ChaCha20 key goes on from sequence number 0.

Results:
1. `counter_gcmNextIv`: the GCM IV counts modulo 2^64.
2. `safe_tame`: the invariant of the sending side, kept by every operation.
3. `session_nonces_fresh`: no pair is used twice when no sending cipher is lost
   over a ChaCha20 cipher in use.
4. `lost_cipher_repeats_nonce`: the session that shows the repeated pair.
-/

namespace OmtClient.Ssh

open OmtClient.Lib Prog EffectLemmas

/-! ## The record -/

/-- The pairs of key and nonce that packets were sealed under. -/
def pairs (log : List Event) : List (Bytes × Bytes) :=
  log.filterMap fun
    | .sealed _ key nonce => some (key, nonce)
    | _ => none

/-- The keys of AEAD ciphers taken into use for sending, in order. -/
def aeadKeys (log : List Event) : List Bytes :=
  log.filterMap fun
    | .installed alg key => if alg.kind = .ctr then none else some key
    | _ => none

/-- A packet was given to an AEAD cipher with this key. -/
def usesKey (key : Bytes) : Event → Bool
  | .sealed _ k _ => k == key
  | .unsealed _ k => k == key
  | _ => false

/-- What the result rests on. -/
structure Clean (log : List Event) : Prop where
  /-- Different exchanges give different keys. -/
  keys : (aeadKeys log).Nodup
  /-- Fewer than 2^32 packets are sent per key. -/
  few : ∀ key, log.countP (usesKey key) < UInt32.size
  /-- No sending cipher failed to be set up over a ChaCha20 cipher. -/
  kept : Event.notInstalled (some .chacha20Poly1305) ∉ log

/-- An event that says nothing about seals and keys. -/
def Event.Silent : Event → Prop
  | .sent _ => True
  | .read _ => True
  | .identified _ => True
  | .exchanged _ => True
  | .notInstalled old => old ≠ some .chacha20Poly1305
  | _ => False

namespace NonceLemmas

@[simp] theorem pairs_append (l m : List Event) : pairs (l ++ m) = pairs l ++ pairs m :=
  List.filterMap_append

@[simp] theorem aeadKeys_append (l m : List Event) : aeadKeys (l ++ m) = aeadKeys l ++ aeadKeys m :=
  List.filterMap_append

theorem clean_before {l m : List Event} (h : Clean (l ++ m)) : Clean l where
  keys := by
    have := h.keys
    rw [aeadKeys_append] at this
    exact (List.nodup_append.mp this).1
  few key := by
    have := h.few key
    rw [List.countP_append] at this
    omega
  kept hmem := h.kept (List.mem_append_left m hmem)

/-! ## The GCM counter -/

theorem length_increment (bs : Bytes) : (increment bs).length = bs.length := by
  induction bs with
  | nil => rfl
  | cons b bs ih =>
    simp only [increment]
    split
    · rw [List.length_cons, List.length_cons, ih]
    · rfl

/-- Counting from the last byte adds one, modulo the size of the counter. -/
theorem leNat_increment (bs : Bytes) :
    leNat (increment bs) = (leNat bs + 1) % 256 ^ bs.length := by
  induction bs with
  | nil => rfl
  | cons b bs ih =>
    have hlt := leNat_lt bs
    have hb := b.toNat_lt
    simp only [increment, List.length_cons, Nat.pow_succ]
    split
    · next hz =>
      have hb255 : b.toNat = 255 := by
        have := congrArg UInt8.toNat hz
        simp at this
        omega
      simp only [leNat, ih, hb255, UInt8.toNat_ofNat]
      rw [show leNat bs * 256 + 255 + 1 = (leNat bs + 1) * 256 by omega, Nat.mul_mod_mul_right]
      simp
    · next hz =>
      have hb255 : b.toNat ≠ 255 := by
        intro h
        apply hz
        apply UInt8.toNat_inj.mp
        simp [h]
      have hadd : (b + 1).toNat = b.toNat + 1 := by
        simp only [UInt8.toNat_add, UInt8.toNat_one]
        omega
      simp only [leNat, hadd]
      rw [Nat.mod_eq_of_lt (by omega)]
      omega

/-- The counter in a GCM nonce. -/
def counter (nonce : Bytes) : Nat := leNat (nonce.drop 4).reverse

theorem gcmNextIv_spec {iv : Bytes} (h : iv.length = 16) :
    (gcmNextIv iv).length = 16 ∧
      counter ((gcmNextIv iv).take 12) = (counter (iv.take 12) + 1) % 2 ^ 64 := by
  have hmid : (((iv.take 12).drop 4).reverse).length = 8 := by simp [h]
  have hlen : (iv.take 4 ++ (increment ((iv.take 12).drop 4).reverse).reverse).length = 12 := by
    simp [length_increment, h]
  constructor
  · rw [gcmNextIv, List.length_append, hlen, List.length_drop, h]
  · rw [gcmNextIv, List.take_left' hlen, counter, List.drop_left' (by simp [h]),
      List.reverse_reverse, leNat_increment, hmid]
    rfl

theorem gcmNextIv_iterate {iv : Bytes} (h : iv.length = 16) (n : Nat) :
    (gcmNextIv^[n] iv).length = 16 ∧
      counter ((gcmNextIv^[n] iv).take 12) = (counter (iv.take 12) + n) % 2 ^ 64 := by
  induction n with
  | zero =>
    refine ⟨h, ?_⟩
    have hlt := leNat_lt ((iv.take 12).drop 4).reverse
    have hlen : (((iv.take 12).drop 4).reverse).length = 8 := by simp [h]
    rw [hlen] at hlt
    exact (Nat.mod_eq_of_lt hlt).symm
  | succ n ih =>
    rw [Function.iterate_succ_apply']
    obtain ⟨h1, h2⟩ := gcmNextIv_spec ih.1
    refine ⟨h1, ?_⟩
    rw [h2, ih.2]
    omega

theorem putU32_inj {a b : UInt32} (h : Wire.putU32 a = Wire.putU32 b) : a = b := by
  have ha := Wire.u32_putU32 a []
  rw [h, Wire.u32_putU32] at ha
  exact (Prod.mk.inj (Option.some.inj ha)).1.symm

end NonceLemmas

open NonceLemmas

/-! ## The invariant -/

/-- The nonce of the `i`th packet under a key. -/
def nonceAt (alg : CipherAlg) (base : UInt32) (iv : Bytes) (i : Nat) : Bytes :=
  if alg.kind = .gcm then (gcmNextIv^[i] iv).take 12 else Wire.putU32 (base + UInt32.ofNat i)

theorem nonceAt_inj {alg : CipherAlg} {base : UInt32} {iv : Bytes} (hiv : iv.length = 16) {i j : Nat}
    (hi : i < UInt32.size) (hj : j < UInt32.size)
    (h : nonceAt alg base iv i = nonceAt alg base iv j) : i = j := by
  unfold nonceAt at h
  split at h
  · have hc := congrArg counter h
    rw [(gcmNextIv_iterate hiv i).2, (gcmNextIv_iterate hiv j).2] at hc
    simp only [UInt32.size] at hi hj
    omega
  · have hsum := congrArg UInt32.toNat (putU32_inj h)
    have hbase := base.toNat_lt
    simp only [UInt32.toNat_add, UInt32.toNat_ofNat', UInt32.size] at hsum hi hj
    omega

/-- Where the cipher in use is in its sequence of nonces: it has used the first
`m` of them at most, and its next one is number `m`. -/
def Placed (c : PacketCipher) (seq : UInt32) (log : List Event) (alg : CipherAlg) : Prop :=
  c.aesKey ∈ aeadKeys log ∧ ∃ base iv m, iv.length = 16 ∧
    m ≤ log.countP (usesKey c.aesKey) ∧
    (alg.kind = .gcm → c.iv = gcmNextIv^[m] iv) ∧
    (alg.kind = .chaCha → seq = base + UInt32.ofNat m) ∧
    ∀ nonce, (c.aesKey, nonce) ∈ pairs log → ∃ i < m, nonce = nonceAt alg base iv i

/-- What a sending side and its record have in common in every clean run. -/
structure Fresh (c : PacketCipher) (seq : UInt32) (log : List Event) : Prop where
  nodup : (pairs log).Nodup
  known : ∀ key, 0 < log.countP (usesKey key) → key ∈ aeadKeys log
  placed : ∀ alg, c.alg = some alg → alg.kind ≠ .ctr → Placed c seq log alg

/-- The invariant of the sending side. -/
def Safe (t : Transport) : Prop := Clean t.log → Fresh t.send t.sendSeq t.log

namespace NonceLemmas

variable {c c' : PacketCipher} {seq seq' : UInt32} {log : List Event} {alg : CipherAlg}

/-- Events that say nothing about seals change nothing. -/
theorem fresh_silent {e : Event} (h : Fresh c seq log) (he : e.Silent) : Fresh c seq (log ++ [e]) := by
  have hp : pairs [e] = [] := by cases e <;> first | rfl | exact he.elim
  have hk : aeadKeys [e] = [] := by cases e <;> first | rfl | exact he.elim
  have hc (key : Bytes) : (log ++ [e]).countP (usesKey key) = log.countP (usesKey key) := by
    have : [e].countP (usesKey key) = 0 := by cases e <;> first | rfl | exact he.elim
    rw [List.countP_append, this, Nat.add_zero]
  refine ⟨?_, ?_, ?_⟩
  · rw [pairs_append, hp, List.append_nil]
    exact h.nodup
  · intro key hkey
    rw [hc] at hkey
    rw [aeadKeys_append, hk, List.append_nil]
    exact h.known key hkey
  · intro alg halg hkind
    have := h.placed alg halg hkind
    unfold Placed at *
    rwa [aeadKeys_append, hk, List.append_nil, hc, pairs_append, hp, List.append_nil]

theorem aesKey_moved (h : Moved c c') : c'.aesKey = c.aesKey := by
  unfold PacketCipher.aesKey
  rw [h.alg, h.key]

/-- A cipher that is not an AEAD is placed anywhere. -/
theorem fresh_other (h : Fresh c seq log) (hc : ∀ a, c'.alg = some a → a.kind = .ctr) :
    Fresh c' seq' log :=
  ⟨h.nodup, h.known, fun a ha hk => absurd (hc a ha) hk⟩

theorem usesKey_sealed (key nonce : Bytes) (alg : CipherAlg) :
    [Event.sealed alg key nonce].countP (usesKey key) = 1 := by simp [usesKey]

theorem usesKey_unsealed (key : Bytes) (alg : CipherAlg) :
    [Event.unsealed alg key].countP (usesKey key) = 1 := by simp [usesKey]

/-- The next nonce of a placed cipher. -/
theorem nonce_eq {base : UInt32} {iv : Bytes} {m : Nat} (hkind : alg.kind ≠ .ctr)
    (hgcm : alg.kind = .gcm → c.iv = gcmNextIv^[m] iv)
    (hcha : alg.kind = .chaCha → seq = base + UInt32.ofNat m) :
    (if alg.kind = .gcm then c.iv.take 12 else Wire.putU32 seq) = nonceAt alg base iv m := by
  unfold nonceAt
  cases hk : alg.kind with
  | ctr => exact absurd hk hkind
  | gcm => simp only [if_true, hgcm hk]
  | chaCha => simp only [reduceCtorEq, if_false, hcha hk]

/-- Moving an AEAD cipher on by one nonce. -/
theorem placed_next {base : UInt32} {iv : Bytes} {m : Nat} (hm : Moved c c') (halg : c.alg = some alg)
    (hgcm : alg.kind = .gcm → c.iv = gcmNextIv^[m] iv)
    (hcha : alg.kind = .chaCha → seq = base + UInt32.ofNat m) :
    (alg.kind = .gcm → c'.iv = gcmNextIv^[m + 1] iv) ∧
      (alg.kind = .chaCha → seq + 1 = base + UInt32.ofNat (m + 1)) := by
  refine ⟨fun hk => ?_, fun hk => ?_⟩
  · rw [hm.iv alg halg hk, hgcm hk, Function.iterate_succ_apply']
  · rw [hcha hk]
    apply UInt32.toNat_inj.mp
    simp only [UInt32.toNat_add, UInt32.toNat_ofNat', UInt32.toNat_one]
    omega

/-- A seal uses a pair that was not used before. -/
theorem fresh_sealed (h : Fresh c seq log) (hm : Moved c c') (halg : c.alg = some alg)
    (hkind : alg.kind ≠ .ctr)
    (hclean : Clean (log ++ sealRecord c seq true)) :
    Fresh c' (seq + 1) (log ++ sealRecord c seq true) := by
  obtain ⟨hkey, base, iv, m, hiv, hle, hgcm, hcha, hused⟩ := h.placed alg halg hkind
  have hrec : sealRecord c seq true = [.sealed alg c.aesKey (nonceAt alg base iv m)] := by
    simp only [sealRecord, halg, hkind, if_false, if_true, nonce_eq hkind hgcm hcha]
  rw [hrec] at hclean ⊢
  have hp : pairs [Event.sealed alg c.aesKey (nonceAt alg base iv m)] =
      [(c.aesKey, nonceAt alg base iv m)] := rfl
  have hk : aeadKeys [Event.sealed alg c.aesKey (nonceAt alg base iv m)] = [] := rfl
  have hfew := hclean.few c.aesKey
  rw [List.countP_append, usesKey_sealed] at hfew
  have hnew : (c.aesKey, nonceAt alg base iv m) ∉ pairs log := by
    intro hmem
    obtain ⟨i, hi, heq⟩ := hused _ hmem
    have := nonceAt_inj hiv (by omega) (by omega) heq
    omega
  obtain ⟨hgcm', hcha'⟩ := placed_next hm halg hgcm hcha
  refine ⟨?_, ?_, ?_⟩
  · rw [pairs_append, hp]
    refine List.nodup_append.mpr ⟨h.nodup, List.pairwise_singleton _ _, fun p hold q hlast heq => ?_⟩
    rw [List.mem_singleton] at hlast
    exact hnew (hlast ▸ heq ▸ hold)
  · intro key hkeyUsed
    rw [aeadKeys_append, hk, List.append_nil]
    by_cases hsame : c.aesKey = key
    · exact hsame ▸ hkey
    · refine h.known key ?_
      rw [List.countP_append] at hkeyUsed
      have : [Event.sealed alg c.aesKey (nonceAt alg base iv m)].countP (usesKey key) = 0 := by
        simp [usesKey, hsame]
      omega
  · intro alg' halg' _
    rw [hm.alg, halg] at halg'
    cases halg'
    unfold Placed
    rw [aesKey_moved hm, aeadKeys_append, hk, List.append_nil, List.countP_append, usesKey_sealed,
      pairs_append, hp]
    refine ⟨hkey, base, iv, m + 1, hiv, by omega, hgcm', hcha', fun nonce hmem => ?_⟩
    rcases List.mem_append.mp hmem with hold | hlast
    · obtain ⟨i, hi, heq⟩ := hused nonce hold
      exact ⟨i, by omega, heq⟩
    · rw [List.mem_singleton] at hlast
      exact ⟨m, by omega, (Prod.mk.inj hlast).2⟩

/-- A seal that failed uses no pair; a GCM cipher moves on all the same. -/
theorem fresh_unsealed (h : Fresh c seq log) (hm : Moved c c') (halg : c.alg = some alg)
    (hkind : alg.kind ≠ .ctr) : Fresh c' seq (log ++ sealRecord c seq false) := by
  obtain ⟨hkey, base, iv, m, hiv, hle, hgcm, hcha, hused⟩ := h.placed alg halg hkind
  have hrec : sealRecord c seq false = [.unsealed alg c.aesKey] := by
    simp [sealRecord, halg, hkind]
  rw [hrec]
  have hp : pairs [Event.unsealed alg c.aesKey] = [] := rfl
  have hk : aeadKeys [Event.unsealed alg c.aesKey] = [] := rfl
  refine ⟨?_, ?_, ?_⟩
  · rw [pairs_append, hp, List.append_nil]
    exact h.nodup
  · intro key hkeyUsed
    rw [aeadKeys_append, hk, List.append_nil]
    by_cases hsame : c.aesKey = key
    · exact hsame ▸ hkey
    · refine h.known key ?_
      rw [List.countP_append] at hkeyUsed
      have : [Event.unsealed alg c.aesKey].countP (usesKey key) = 0 := by simp [usesKey, hsame]
      omega
  · intro alg' halg' _
    rw [hm.alg, halg] at halg'
    cases halg'
    unfold Placed
    rw [aesKey_moved hm, aeadKeys_append, hk, List.append_nil, List.countP_append, usesKey_unsealed,
      pairs_append, hp, List.append_nil]
    refine ⟨hkey, base, iv, ?_⟩
    cases hcase : alg.kind with
    | ctr => exact absurd hcase hkind
    | gcm =>
      refine ⟨m + 1, hiv, by omega, fun _ => ?_, fun hk => (nomatch hk), fun nonce hmem => ?_⟩
      · rw [hm.iv alg halg hcase, hgcm hcase, Function.iterate_succ_apply']
      · obtain ⟨i, hi, heq⟩ := hused nonce hmem
        exact ⟨i, by omega, heq⟩
    | chaCha =>
      exact ⟨m, hiv, by omega, fun hk => (nomatch hk), fun _ => hcha hcase, hused⟩

theorem init_made {key iv macKey : Bytes} {mac : Option MacAlg} {ok : Bool}
    (h : PacketCipher.init alg mac key iv macKey ok = some c) :
    c.alg = some alg ∧ c.iv.length = 16 := by
  simp only [PacketCipher.init] at h
  generalize (if alg.kind = .ctr then mac else none) = mac' at h
  split at h
  · exact nomatch h
  · next hlens =>
    split at h
    · exact nomatch h
    · split at h
      · cases h
        refine ⟨rfl, ?_⟩
        have : alg.ivLen ≤ 16 := by cases alg <;> decide
        simp only [List.length_append, List.length_take, List.length_replicate]
        omega
      · exact nomatch h

/-- A new key starts with no nonce used. -/
theorem fresh_installed (h : Fresh c seq log) {key iv macKey : Bytes} {mac : Option MacAlg} {ok : Bool}
    (hinit : PacketCipher.init alg mac key iv macKey ok = some c')
    (hclean : Clean (log ++ [.installed alg c'.aesKey])) :
    Fresh c' seq' (log ++ [.installed alg c'.aesKey]) := by
  have hp : pairs [Event.installed alg c'.aesKey] = [] := rfl
  have hc (k : Bytes) : (log ++ [Event.installed alg c'.aesKey]).countP (usesKey k) =
      log.countP (usesKey k) := by
    rw [List.countP_append]
    rfl
  refine ⟨?_, ?_, ?_⟩
  · rw [pairs_append, hp, List.append_nil]
    exact h.nodup
  · intro k hk
    rw [hc] at hk
    rw [aeadKeys_append]
    exact List.mem_append_left _ (h.known k hk)
  · intro alg' halg' hkind
    have hmade := init_made hinit
    cases hmade.1.symm.trans halg'
    have hk : aeadKeys [Event.installed alg c'.aesKey] = [c'.aesKey] := by
      simp [aeadKeys, hkind]
    -- the key is new, so no packet was sealed under it
    have hunused : log.countP (usesKey c'.aesKey) = 0 := by
      have hnodup := hclean.keys
      rw [aeadKeys_append, hk] at hnodup
      have hnot : c'.aesKey ∉ aeadKeys log := by
        intro hmem
        exact (List.nodup_append.mp hnodup).2.2 _ hmem _ (List.mem_singleton_self _) rfl
      exact Nat.eq_zero_of_not_pos fun hpos => hnot (h.known _ hpos)
    refine ⟨?_, seq', c'.iv, 0, hmade.2, Nat.zero_le _, fun _ => rfl, fun _ => ?_, fun nonce hmem => ?_⟩
    · rw [aeadKeys_append, hk]
      exact List.mem_append_right _ (List.mem_singleton_self _)
    · exact (UInt32.add_zero seq').symm
    · rw [pairs_append, hp, List.append_nil] at hmem
      exfalso
      obtain ⟨e, he, hpair⟩ := List.mem_filterMap.mp hmem
      have : 0 < log.countP (usesKey c'.aesKey) := by
        rw [List.countP_pos_iff]
        refine ⟨e, he, ?_⟩
        cases e <;> simp_all [usesKey]
      omega

/-! ## Every operation keeps it -/

variable {w : World} {l : Library}

theorem safe_silent {t : Transport} {e : Event} (h : Safe t) (he : e.Silent) :
    Safe { t with log := t.log ++ [e] } :=
  fun hclean => fresh_silent (h (clean_before hclean)) he

theorem safe_sends {t t' : Transport} {payload : Bytes} (hs : Sends t payload t') (h : Safe t) :
    Safe t' := by
  -- a cipher that is not an AEAD leaves no trace of its seals
  have hplain (hplain : ∀ a, t.send.alg = some a → a.kind = .ctr) (ok : Bool) :
      sealRecord t.send t.sendSeq ok = [] := by
    unfold sealRecord
    cases halg : t.send.alg with
    | none => rfl
    | some a => simp [hplain a halg]
  cases hs with
  | @unsent x hsend hseq =>
    intro hclean
    show Fresh x.send x.sendSeq t.log
    rw [hsend, hseq]
    exact h hclean
  | @unsealed x hm hseq =>
    intro hclean
    have hf := h (clean_before hclean)
    show Fresh x.send x.sendSeq (t.log ++ sealRecord t.send t.sendSeq false)
    rw [hseq]
    by_cases haead : ∀ a, t.send.alg = some a → a.kind = .ctr
    · rw [hplain haead, List.append_nil]
      exact fresh_other hf fun a ha => haead a (hm.alg ▸ ha)
    · push Not at haead
      obtain ⟨alg, halg, hkind⟩ := haead
      exact fresh_unsealed hf hm halg hkind
  | @sent x hm hseq =>
    intro hclean
    have hf := h (clean_before (clean_before hclean))
    refine fresh_silent ?_ trivial
    show Fresh x.send x.sendSeq (t.log ++ sealRecord t.send t.sendSeq true)
    rw [hseq]
    by_cases haead : ∀ a, t.send.alg = some a → a.kind = .ctr
    · rw [hplain haead, List.append_nil]
      exact fresh_other hf fun a ha => haead a (hm.alg ▸ ha)
    · push Not at haead
      obtain ⟨alg, halg, hkind⟩ := haead
      exact fresh_sealed hf hm halg hkind (clean_before hclean)

/-- A new sending cipher lost: only a ChaCha20 cipher counts with the sequence
number that was reset. -/
theorem safe_loses {t : Transport} (seq : UInt32) (h : Safe t) :
    Safe { t with sendSeq := seq, log := t.log ++ [.notInstalled t.send.alg] } := by
  intro hclean
  have hf := h (clean_before hclean)
  have hnot : t.send.alg ≠ some .chacha20Poly1305 := by
    intro hcha
    refine hclean.kept (List.mem_append_right _ ?_)
    rw [← hcha]
    exact List.mem_singleton_self _
  refine fresh_silent ⟨hf.nodup, hf.known, fun alg halg hkind => ?_⟩ hnot
  obtain ⟨hkey, base, iv, m, hiv, hle, hgcm, hcha, hused⟩ := hf.placed alg halg hkind
  refine ⟨hkey, base, iv, m, hiv, hle, hgcm, fun hk => ?_, hused⟩
  have : alg = .chacha20Poly1305 := by cases alg <;> first | rfl | exact nomatch hk
  exact absurd (this ▸ halg) hnot

end NonceLemmas

theorem safe_tame : Tame (fun _ => True) Safe where
  same := by
    rintro t t' h ⟨hsend, hseq, _, _, _, hlog⟩
    unfold Safe
    rw [hsend, hseq, hlog]
    exact h
  heard he h := safe_silent h (by cases he <;> trivial)
  sends _ hs h := safe_sends hs h
  installs _ hinit h := fun hclean => fresh_installed (h (clean_before hclean)) hinit hclean
  loses seq h := safe_loses seq h

theorem safe_finishExchange {w : World} {l : Library} (a : Agreed) (o : KexOut) :
    Goes Safe (finishExchange w l a o) := by
  refine runs_bind runs_get fun t => runs_bind (goes_luck safe_tame) fun _ =>
    runs_ite (goes_fail _) ?_
  split
  · exact goes_fail _
  · refine runs_bind (runs_bind runs_get fun _ =>
      runs_ite (runs_pure _) (runs_modify (fun _ h => h) fun _ => Nat.le_refl _)) fun _ =>
      runs_bind (goes_luck safe_tame) fun _ => runs_ite (goes_fail _)
        (runs_bind (goes_switchKeys safe_tame trivial a _) fun _ =>
          runs_modify (fun t h => ?_) fun _ => Nat.le_refl _)
    exact safe_silent h trivial

/-- In every session, with any server, any calls and any failures: when different
exchanges give different keys, fewer than 2^32 packets are sent per key, and no
new sending cipher fails to be set up over a ChaCha20 cipher in use, no two
packets are sealed under the same key and nonce. -/
theorem session_nonces_fresh (w : World) (l : Library) (host : String) (port : Nat)
    (knownHosts : String) (arrivals : List Arrival) (cs : List Call)
    (h : Clean (sessionEnd w l host port knownHosts arrivals cs).log) :
    (pairs (sessionEnd w l host port knownHosts arrivals cs).log).Nodup := by
  have hstart : Safe { arrivals } := fun _ =>
    ⟨List.Pairwise.nil, fun key hk => (nomatch hk), fun alg halg => (nomatch halg)⟩
  have hgoes : Goes Safe (session w l host port knownHosts cs) :=
    goes_session safe_tame (fun _ => trivial) safe_finishExchange host port knownHosts cs
  exact (hgoes.state hstart h).nodup

/-! ## The session that repeats a nonce -/

/-- A stand-in for libcrypto and the operator's files: every host key is known and
every signature verifies. -/
def Library.agreeable : Library where
  mlkemAvailable := false
  digest md _ := List.replicate md.size 0
  x25519Public _ := List.replicate 32 1
  x25519Derive _ _ := some (List.replicate 32 1)
  mlkemPublic _ := []
  mlkemDecapsulate _ _ := none
  prime _ := 0
  publicKey _ := .ok "ssh-ed25519"
  verify _ _ _ _ := .ok ()
  knownHosts _ _ _ _ := .ok .known
  knownTypes _ _ _ := .ok []

/-- A payload as a server with this cipher puts it on the wire. -/
def onTheWire (c : PacketCipher) (seq : UInt32) (payload : Bytes) : Bytes :=
  let packet := packetOf c payload (List.replicate (padding c payload.length) 0)
  match c.sealPacket .keyed seq packet true true with
  | (_, some (sealed, tag)) => sealed ++ tag
  | (_, none) => []

/-- The KEXINIT of a server with strict key exchange, curve25519 and ChaCha20. -/
def serverInit : Bytes :=
  Msg.kexInit :: List.replicate 16 0 ++
    Wire.putString (Wire.joinNames ["curve25519-sha256", strictS]) ++
    Wire.putString (utf8 "ssh-ed25519") ++
    Wire.putString (utf8 "chacha20-poly1305@openssh.com") ++
    Wire.putString (utf8 "chacha20-poly1305@openssh.com") ++
    Wire.putString [] ++ Wire.putString [] ++ Wire.putString (utf8 "none") ++
    Wire.putString (utf8 "none") ++ Wire.putString [] ++ Wire.putString [] ++
    Wire.putBool false ++ Wire.putU32 0

def serverReply : Bytes :=
  Msg.kex31 :: Wire.putString [1] ++ Wire.putString (List.replicate 32 2) ++ Wire.putString [3]

/-- What the server says: the first exchange in the clear, and a re-key under
the keys of the first as far as its reply. -/
def rekeyScript : Bytes :=
  let cipher : PacketCipher := { alg := some .chacha20Poly1305 }
  utf8 "SSH-2.0-server" ++ [13, 10] ++ onTheWire {} 0 serverInit ++ onTheWire {} 1 serverReply ++
    onTheWire {} 2 [Msg.newKeys] ++ onTheWire cipher 0 serverInit ++ onTheWire cipher 1 serverReply

/-- Every call succeeds but the one that sets up the sending cipher of the
re-key. -/
def lossyWorld : World := { prims := .keyed, random := fun _ => 0, luck := fun i => i != 52 }

def rekeyArrivals : List Arrival := [.data rekeyScript (by decide +kernel)]

/-- The disconnect of the dropped session is sealed under the old key with the
sequence number of the first packet of that key. -/
theorem lost_cipher_repeats_nonce :
    let log := (sessionEnd lossyWorld .agreeable "pi" 22 "known_hosts" rekeyArrivals [.recv]).log
    ¬ (pairs log).Nodup ∧ (aeadKeys log).Nodup ∧ log.length < UInt32.size := by
  decide +kernel

/-- With a digest that tells the exchanges apart. -/
def Library.summing : Library :=
  { Library.agreeable with digest md data := data.foldl (· + ·) 0 :: List.replicate (md.size - 1) 0 }

def calmWorld : World := { prims := .keyed, random := fun i => UInt8.ofNat i, luck := fun _ => true }

/-- The server's cipher with a key that `Library.summing` derives. -/
def summed (front back : Byte) : PacketCipher where
  alg := some .chacha20Poly1305
  key := front :: (List.replicate 31 0 ++ back :: List.replicate 31 0)

/-- What the server says when it starts a re-key behind the first exchange, and a packet under the new keys. -/
def rekeyedScript : Bytes :=
  utf8 "SSH-2.0-server" ++ [13, 10] ++ onTheWire {} 0 serverInit ++ onTheWire {} 1 serverReply ++
    onTheWire {} 2 [Msg.newKeys] ++ onTheWire (summed 10 13) 0 serverInit ++ onTheWire (summed 10 13) 1 serverReply ++
    onTheWire (summed 10 13) 2 [Msg.newKeys] ++ onTheWire (summed 26 45) 0 [99]

def rekeyedArrivals : List Arrival := [.data rekeyedScript (by decide +kernel)]

/-- Packets before a re-key and behind it. -/
theorem session_nonces_fresh_rekeyed :
    let log := (sessionEnd calmWorld .summing "pi" 22 "known_hosts" rekeyedArrivals
      [.send [90], .send [91], .recv, .send [92], .send [93]]).log
    (aeadKeys log).length = 2 ∧ (pairs log).length = 8 ∧ (pairs log).Nodup := by
  refine ⟨by decide +kernel, by decide +kernel, session_nonces_fresh calmWorld .summing "pi" 22 "known_hosts"
    rekeyedArrivals _ ⟨by decide +kernel, fun key => ?_, by decide +kernel⟩⟩
  exact Nat.lt_of_le_of_lt List.countP_le_length (by decide +kernel)

end OmtClient.Ssh
