import OmtClient.Ssh.Wire

/-!
# Base64

`base64_decode` of `crates/omt-deploy/src/ssh/wire.rs`: one pass that collects six bits a
character and pushes a byte whenever eight are there, and the encoding that it reads.

1. `base64Decode_iff`: without skipping, the texts that decode are the encodings, each of what
   it decodes to.
-/

namespace OmtClient.Ssh.Wire

open OmtClient.Lib

/-! ## Decoding -/

def b64Value (c : Byte) : Option Nat :=
  if 65 ≤ c ∧ c ≤ 90 then some (c.toNat - 65)
  else if 97 ≤ c ∧ c ≤ 122 then some (c.toNat - 97 + 26)
  else if 48 ≤ c ∧ c ≤ 57 then some (c.toNat - 48 + 52)
  else if c = 43 then some 62
  else if c = 47 then some 63
  else none

/-- The locals of the loop. No more than 14 bits are ever collected in the `u32`. -/
structure Collected where
  out : Bytes
  acc : Nat
  bits : Nat
  pad : Nat
  symbols : Nat
  deriving DecidableEq, Repr

def base64Step (skipSpace : Bool) (st : Collected) (c : Byte) : Option Collected :=
  if skipSpace && (c == 32 || c == 9 || c == 13 || c == 10) then some st
  else if c = 61 then some { st with pad := st.pad + 1, symbols := st.symbols + 1 }
  else
    (b64Value c).bind fun v =>
      if 0 < st.pad then none
      else
        let acc := st.acc <<< 6 ||| v
        let bits := st.bits + 6
        if 8 ≤ bits then
          some ⟨st.out ++ [UInt8.ofNat (acc >>> (bits - 8) &&& 0xff)], acc &&& (1 <<< (bits - 8) - 1), bits - 8, st.pad,
            st.symbols + 1⟩
        else some { st with acc, bits, symbols := st.symbols + 1 }

/-- Strict base64 with padding; whitespace is skipped on request. -/
def base64Decode (text : Bytes) (skipSpace : Bool) : Option Bytes :=
  (text.foldlM (base64Step skipSpace) ⟨[], 0, 0, 0, 0⟩).bind fun st =>
    if st.pad ≤ 2 ∧ st.symbols % 4 = 0 ∧ st.acc = 0 then some st.out else none

/-! ## Encoding -/

/-- The character of six bits. -/
def b64Char (v : Nat) : Byte :=
  (utf8 "ABCDEFGHIJKLMNOPQRSTUVWXYZabcdefghijklmnopqrstuvwxyz0123456789+/").getD v 0

/-- The canonical encoding: three bytes as four characters, zero bits and `=` at the end. -/
def base64Encode : Bytes → Bytes
  | [] => []
  | [a] => [b64Char (a.toNat / 4), b64Char (a.toNat % 4 * 16), 61, 61]
  | [a, b] => [b64Char (a.toNat / 4), b64Char (a.toNat % 4 * 16 + b.toNat / 16), b64Char (b.toNat % 16 * 4), 61]
  | a :: b :: c :: rest =>
    b64Char (a.toNat / 4) :: b64Char (a.toNat % 4 * 16 + b.toNat / 16) :: b64Char (b.toNat % 16 * 4 + c.toNat / 64) ::
      b64Char (c.toNat % 64) :: base64Encode rest

namespace Base64Lemmas

variable {out y x rest : Bytes} {a b c d : Byte} {n acc bits pad symbols v : Nat} {st st' : Collected}

/-! ## Characters -/

theorem char_value : ∀ v, v < 64 → b64Value (b64Char v) = some v ∧ b64Char v ≠ 61 := by decide +kernel

theorem value_char (c : Byte) (v : Nat) (h : b64Value c = some v) : v < 64 ∧ b64Char v = c ∧ c ≠ 61 := by
  have hall : ∀ c : Byte, (b64Value c).all (fun v => decide (v < 64 ∧ b64Char v = c ∧ c ≠ 61)) = true := by
    refine forall_byte ?_
    decide +kernel
  have hc := hall c
  rw [h] at hc
  exact of_decide_eq_true hc

/-! ## Steps -/

theorem step_pad (st : Collected) : base64Step false st 61 = some { st with pad := st.pad + 1, symbols := st.symbols + 1 } :=
  rfl

theorem step_padded (hc : c ≠ 61) (hpad : 0 < st.pad) : base64Step false st c = none := by
  unfold base64Step
  rw [Bool.false_and, if_neg Bool.false_ne_true, if_neg hc]
  cases b64Value c with
  | none => rfl
  | some v => exact if_pos hpad

theorem step_none (hc : c ≠ 61) (hv : b64Value c = none) : base64Step false st c = none := by
  unfold base64Step
  rw [Bool.false_and, if_neg Bool.false_ne_true, if_neg hc, hv]
  rfl

/-- Six more bits. -/
theorem step_value (hv : b64Value c = some v) (out : Bytes) (acc bits symbols : Nat) :
    base64Step false ⟨out, acc, bits, 0, symbols⟩ c =
      if 8 ≤ bits + 6 then
        some ⟨out ++ [UInt8.ofNat ((acc * 64 + v) / 2 ^ (bits + 6 - 8) % 256)], (acc * 64 + v) % 2 ^ (bits + 6 - 8),
          bits + 6 - 8, 0, symbols + 1⟩
      else some ⟨out, acc * 64 + v, bits + 6, 0, symbols + 1⟩ := by
  obtain ⟨hlt, -, hc⟩ := value_char c v hv
  have hacc : acc <<< 6 ||| v = acc * 64 + v := by
    rw [← Nat.shiftLeft_add_eq_or_of_lt (show v < 2 ^ 6 from hlt), Nat.shiftLeft_eq]
  have hbyte (m : Nat) : m &&& 0xff = m % 256 := Nat.and_two_pow_sub_one_eq_mod m 8
  have hmask (m k : Nat) : m &&& (1 <<< k - 1) = m % 2 ^ k := by
    rw [Nat.one_shiftLeft, Nat.and_two_pow_sub_one_eq_mod]
  unfold base64Step
  rw [Bool.false_and, if_neg Bool.false_ne_true, if_neg hc, hv, Option.bind_some, if_neg (Nat.lt_irrefl 0)]
  dsimp only
  rw [hacc, hbyte, hmask, Nat.shiftRight_eq_div_pow]

/-- Every character counts. -/
theorem fold_symbols (h : x.foldlM (base64Step false) st = some st') : st'.symbols = st.symbols + x.length := by
  induction x generalizing st with
  | nil =>
    cases h
    rfl
  | cons c x ih =>
    rw [List.foldlM_cons] at h
    obtain ⟨mid, hmid, hrest⟩ := Option.bind_eq_some_iff.mp h
    have hone : mid.symbols = st.symbols + 1 := by
      unfold base64Step at hmid
      rw [Bool.false_and, if_neg Bool.false_ne_true] at hmid
      split at hmid
      · cases hmid
        rfl
      obtain ⟨v, -, hmid⟩ := Option.bind_eq_some_iff.mp hmid
      split at hmid
      · cases hmid
      dsimp only at hmid
      split at hmid
      · cases hmid
        rfl
      · cases hmid
        rfl
    rw [ih hrest, hone, List.length_cons]
    omega

/-- After padding there is only padding. -/
theorem fold_padded (hpad : 0 < st.pad) (h : x.foldlM (base64Step false) st = some st') :
    x = List.replicate x.length 61 ∧ st' = { st with pad := st.pad + x.length, symbols := st.symbols + x.length } := by
  induction x generalizing st with
  | nil =>
    cases h
    exact ⟨rfl, rfl⟩
  | cons c x ih =>
    rw [List.foldlM_cons] at h
    obtain ⟨mid, hmid, hrest⟩ := Option.bind_eq_some_iff.mp h
    by_cases hc : c = 61
    · subst hc
      rw [step_pad] at hmid
      cases hmid
      obtain ⟨hall, hst⟩ := ih (Nat.succ_pos _) hrest
      refine ⟨?_, ?_⟩
      · rw [List.length_cons, List.replicate_succ, ← hall]
      · rw [hst, List.length_cons]
        dsimp only
        rw [Nat.add_right_comm, Nat.add_right_comm st.symbols]
        rfl
    · rw [step_padded hc hpad] at hmid
      cases hmid

/-! ## Groups -/

/-- The state between two groups of four characters. -/
def clean (out : Bytes) (n : Nat) : Collected := ⟨out, 0, 0, 0, 4 * n⟩

theorem byte_ofNat {m : Nat} (h : m < 256) : (UInt8.ofNat m).toNat = m := UInt8.toNat_ofNat_of_lt' h

theorem ofNat_byte (b : Byte) : UInt8.ofNat b.toNat = b := UInt8.ofNat_toNat

/-- One character after a whole group. -/
theorem fold_one (ha : b64Value a = some v) (out : Bytes) (n : Nat) (rest : Bytes) :
    (a :: rest).foldlM (base64Step false) (clean out n) = rest.foldlM (base64Step false) ⟨out, v, 6, 0, 4 * n + 1⟩ := by
  rw [List.foldlM_cons, clean, step_value ha, if_neg (by decide), Nat.zero_mul, Nat.zero_add]
  rfl

variable {v₁ v₂ v₃ v₄ : Nat}

theorem fold_two (ha : b64Value a = some v₁) (hb : b64Value b = some v₂) (out : Bytes) (n : Nat) (rest : Bytes) :
    (a :: b :: rest).foldlM (base64Step false) (clean out n) =
      rest.foldlM (base64Step false) ⟨out ++ [UInt8.ofNat (v₁ * 4 + v₂ / 16)], v₂ % 16, 4, 0, 4 * n + 2⟩ := by
  obtain ⟨h₁, -, -⟩ := value_char a v₁ ha
  obtain ⟨h₂, -, -⟩ := value_char b v₂ hb
  rw [fold_one ha, List.foldlM_cons, step_value hb, if_pos (by decide)]
  rw [show (v₁ * 64 + v₂) / 2 ^ (6 + 6 - 8) % 256 = v₁ * 4 + v₂ / 16 by omega,
    show (v₁ * 64 + v₂) % 2 ^ (6 + 6 - 8) = v₂ % 16 by omega]
  rfl

theorem fold_three (ha : b64Value a = some v₁) (hb : b64Value b = some v₂) (hc : b64Value c = some v₃) (out : Bytes) (n : Nat)
    (rest : Bytes) : (a :: b :: c :: rest).foldlM (base64Step false) (clean out n) =
      rest.foldlM (base64Step false)
        ⟨out ++ [UInt8.ofNat (v₁ * 4 + v₂ / 16), UInt8.ofNat (v₂ % 16 * 16 + v₃ / 4)], v₃ % 4, 2, 0, 4 * n + 3⟩ := by
  obtain ⟨h₂, -, -⟩ := value_char b v₂ hb
  obtain ⟨h₃, -, -⟩ := value_char c v₃ hc
  rw [fold_two ha hb, List.foldlM_cons, step_value hc, if_pos (by decide)]
  rw [show (v₂ % 16 * 64 + v₃) / 2 ^ (4 + 6 - 8) % 256 = v₂ % 16 * 16 + v₃ / 4 by omega,
    show (v₂ % 16 * 64 + v₃) % 2 ^ (4 + 6 - 8) = v₃ % 4 by omega, List.append_assoc]
  rfl

theorem fold_four (ha : b64Value a = some v₁) (hb : b64Value b = some v₂) (hc : b64Value c = some v₃)
    (hd : b64Value d = some v₄) (out : Bytes) (n : Nat) (rest : Bytes) :
    (a :: b :: c :: d :: rest).foldlM (base64Step false) (clean out n) =
      rest.foldlM (base64Step false)
        (clean (out ++ [UInt8.ofNat (v₁ * 4 + v₂ / 16), UInt8.ofNat (v₂ % 16 * 16 + v₃ / 4), UInt8.ofNat (v₃ % 4 * 64 + v₄)])
          (n + 1)) := by
  obtain ⟨h₃, -, -⟩ := value_char c v₃ hc
  obtain ⟨h₄, -, -⟩ := value_char d v₄ hd
  rw [fold_three ha hb hc, List.foldlM_cons, step_value hd, if_pos (by decide)]
  rw [show (v₃ % 4 * 64 + v₄) / 2 ^ (2 + 6 - 8) % 256 = v₃ % 4 * 64 + v₄ by omega,
    show (v₃ % 4 * 64 + v₄) % 2 ^ (2 + 6 - 8) = 0 by omega, List.append_assoc]
  rfl

/-- What the end of the loop is checked for. -/
def finish (st : Collected) : Option Bytes := if st.pad ≤ 2 ∧ st.symbols % 4 = 0 ∧ st.acc = 0 then some st.out else none

theorem finish_some (h : finish st = some y) : st.pad ≤ 2 ∧ st.symbols % 4 = 0 ∧ st.acc = 0 ∧ st.out = y := by
  unfold finish at h
  split at h
  next hgood => exact ⟨hgood.1, hgood.2.1, hgood.2.2, Option.some.inj h⟩
  · cases h

/-- An encoding decodes, after whatever groups. -/
theorem decode_encode (y out : Bytes) (n : Nat) :
    ((base64Encode y).foldlM (base64Step false) (clean out n)).bind finish = some (out ++ y) := by
  induction y using base64Encode.induct generalizing out n with
  | case1 =>
    rw [List.append_nil]
    show finish (clean out n) = some out
    exact if_pos ⟨Nat.zero_le 2, Nat.mul_mod_right 4 n, rfl⟩
  | case2 a =>
    have ha := a.toNat_lt
    obtain ⟨h₁, -⟩ := char_value (a.toNat / 4) (by omega)
    obtain ⟨h₂, -⟩ := char_value (a.toNat % 4 * 16) (by omega)
    rw [base64Encode, fold_two h₁ h₂, List.foldlM_cons, step_pad]
    show finish _ = _
    rw [show a.toNat / 4 * 4 + a.toNat % 4 * 16 / 16 = a.toNat by omega, ofNat_byte]
    refine if_pos ⟨Nat.le_refl 2, ?_, ?_⟩
    · show (4 * n + 2 + 1 + 1) % 4 = 0
      omega
    · show a.toNat % 4 * 16 % 16 = 0
      omega
  | case3 a b =>
    have ha := a.toNat_lt
    have hb := b.toNat_lt
    obtain ⟨h₁, -⟩ := char_value (a.toNat / 4) (by omega)
    obtain ⟨h₂, -⟩ := char_value (a.toNat % 4 * 16 + b.toNat / 16) (by omega)
    obtain ⟨h₃, -⟩ := char_value (b.toNat % 16 * 4) (by omega)
    rw [base64Encode, fold_three h₁ h₂ h₃, List.foldlM_cons, step_pad]
    show finish _ = _
    rw [show a.toNat / 4 * 4 + (a.toNat % 4 * 16 + b.toNat / 16) / 16 = a.toNat by omega,
      show (a.toNat % 4 * 16 + b.toNat / 16) % 16 * 16 + b.toNat % 16 * 4 / 4 = b.toNat by omega, ofNat_byte, ofNat_byte]
    refine if_pos ⟨Nat.le_succ 1, ?_, ?_⟩
    · show (4 * n + 3 + 1) % 4 = 0
      omega
    · show b.toNat % 16 * 4 % 4 = 0
      omega
  | case4 a b c rest ih =>
    have ha := a.toNat_lt
    have hb := b.toNat_lt
    have hc := c.toNat_lt
    obtain ⟨h₁, -⟩ := char_value (a.toNat / 4) (by omega)
    obtain ⟨h₂, -⟩ := char_value (a.toNat % 4 * 16 + b.toNat / 16) (by omega)
    obtain ⟨h₃, -⟩ := char_value (b.toNat % 16 * 4 + c.toNat / 64) (by omega)
    obtain ⟨h₄, -⟩ := char_value (c.toNat % 64) (by omega)
    rw [base64Encode, fold_four h₁ h₂ h₃ h₄, ih]
    rw [show a.toNat / 4 * 4 + (a.toNat % 4 * 16 + b.toNat / 16) / 16 = a.toNat by omega,
      show (a.toNat % 4 * 16 + b.toNat / 16) % 16 * 16 + (b.toNat % 16 * 4 + c.toNat / 64) / 4 = b.toNat by omega,
      show (b.toNat % 16 * 4 + c.toNat / 64) % 4 * 64 + c.toNat % 64 = c.toNat by omega, ofNat_byte, ofNat_byte, ofNat_byte,
      List.append_assoc]
    rfl

/-- A character that leads to a result is padding or has a value. -/
theorem fold_head (h : (a :: rest).foldlM (base64Step false) st = some st') : a = 61 ∨ ∃ v, b64Value a = some v := by
  by_cases ha : a = 61
  · exact .inl ha
  · cases hv : b64Value a with
    | some v => exact .inr ⟨v, rfl⟩
    | none =>
      rw [List.foldlM_cons, step_none ha hv] at h
      cases h

/-- Padding from here on: at most two characters are left. -/
theorem padding_left (hpad : st.pad = 0) (h : (61 :: rest).foldlM (base64Step false) st = some st') (hfew : st'.pad ≤ 2) :
    rest.length ≤ 1 ∧ rest = List.replicate rest.length 61 ∧ st'.acc = st.acc ∧ st'.out = st.out := by
  rw [List.foldlM_cons, step_pad] at h
  obtain ⟨hall, hst⟩ := fold_padded (Nat.succ_pos _) h
  rw [hst, hpad] at hfew
  refine ⟨?_, hall, ?_, ?_⟩
  · have hfew' : 0 + 1 + rest.length ≤ 2 := hfew
    omega
  · rw [hst]
  · rw [hst]

/-- What decodes after whatever groups is an encoding. -/
theorem encode_of_decode (x out y : Bytes) (n : Nat)
    (h : (x.foldlM (base64Step false) (clean out n)).bind finish = some y) : ∃ z, y = out ++ z ∧ x = base64Encode z := by
  induction hlen : x.length using Nat.strongRecOn generalizing x out n with
  | ind len ih =>
    obtain ⟨st, hfold, hfinish⟩ := Option.bind_eq_some_iff.mp h
    obtain ⟨hfew, hfour, hacc, hout⟩ := finish_some hfinish
    have hsymbols := fold_symbols hfold
    rw [hsymbols, clean] at hfour
    dsimp only at hfour
    cases x with
    | nil =>
      cases hfold
      exact ⟨[], by rw [List.append_nil]; exact hout.symm, rfl⟩
    | cons a x =>
      rcases fold_head hfold with rfl | ⟨v₁, ha⟩
      · -- padding at the start of a group: three more characters would have to be padding
        obtain ⟨hlen, -, -, -⟩ := padding_left rfl hfold hfew
        rw [List.length_cons] at hfour
        omega
      cases x with
      | nil =>
        rw [List.length_singleton] at hfour
        omega
      | cons b x =>
        have hfold₁ := hfold
        rw [fold_one ha] at hfold₁
        rcases fold_head hfold₁ with rfl | ⟨v₂, hb⟩
        · obtain ⟨hlen, -, -, -⟩ := padding_left rfl hfold₁ hfew
          rw [List.length_cons, List.length_cons] at hfour
          omega
        obtain ⟨h₁, ha', -⟩ := value_char a v₁ ha
        obtain ⟨h₂, hb', -⟩ := value_char b v₂ hb
        cases x with
        | nil =>
          rw [List.length_cons, List.length_singleton] at hfour
          omega
        | cons c x =>
          have hfold₂ := hfold
          rw [fold_two ha hb] at hfold₂
          have hbyte : (UInt8.ofNat (v₁ * 4 + v₂ / 16)).toNat = v₁ * 4 + v₂ / 16 := byte_ofNat (by omega)
          rcases fold_head hfold₂ with rfl | ⟨v₃, hc⟩
          · obtain ⟨hshort, hpads, hacc', hout'⟩ := padding_left rfl hfold₂ hfew
            rw [List.length_cons, List.length_cons, List.length_cons] at hfour
            have hone : x.length = 1 := by omega
            have hzero : v₂ % 16 = 0 := hacc'.symm.trans hacc
            rw [hone] at hpads
            refine ⟨[UInt8.ofNat (v₁ * 4 + v₂ / 16)], hout.symm.trans hout', ?_⟩
            rw [base64Encode, hbyte, show (v₁ * 4 + v₂ / 16) / 4 = v₁ by omega,
              show (v₁ * 4 + v₂ / 16) % 4 * 16 = v₂ by omega, ha', hb', hpads]
            rfl
          obtain ⟨h₃, hc', -⟩ := value_char c v₃ hc
          have hbyte' : (UInt8.ofNat (v₂ % 16 * 16 + v₃ / 4)).toNat = v₂ % 16 * 16 + v₃ / 4 := byte_ofNat (by omega)
          cases x with
          | nil =>
            rw [List.length_cons, List.length_cons, List.length_singleton] at hfour
            omega
          | cons d x =>
            have hfold₃ := hfold
            rw [fold_three ha hb hc] at hfold₃
            rcases fold_head hfold₃ with rfl | ⟨v₄, hd⟩
            · obtain ⟨hshort, hpads, hacc', hout'⟩ := padding_left rfl hfold₃ hfew
              rw [List.length_cons, List.length_cons, List.length_cons, List.length_cons] at hfour
              have hnil : x = [] := List.length_eq_zero_iff.mp (by omega)
              have hzero : v₃ % 4 = 0 := hacc'.symm.trans hacc
              refine ⟨[UInt8.ofNat (v₁ * 4 + v₂ / 16), UInt8.ofNat (v₂ % 16 * 16 + v₃ / 4)], hout.symm.trans hout', ?_⟩
              rw [base64Encode, hbyte, hbyte', show (v₁ * 4 + v₂ / 16) / 4 = v₁ by omega,
                show (v₁ * 4 + v₂ / 16) % 4 * 16 + (v₂ % 16 * 16 + v₃ / 4) / 16 = v₂ by omega,
                show (v₂ % 16 * 16 + v₃ / 4) % 16 * 4 = v₃ by omega, ha', hb', hc', hnil]
            obtain ⟨h₄, hd', -⟩ := value_char d v₄ hd
            have hbyte'' : (UInt8.ofNat (v₃ % 4 * 64 + v₄)).toNat = v₃ % 4 * 64 + v₄ := byte_ofNat (by omega)
            rw [fold_four ha hb hc hd] at h
            have hless : x.length < len := by
              rw [← hlen, List.length_cons, List.length_cons, List.length_cons, List.length_cons]
              omega
            obtain ⟨z, hy, hx⟩ := ih _ hless x _ _ h rfl
            refine ⟨UInt8.ofNat (v₁ * 4 + v₂ / 16) :: UInt8.ofNat (v₂ % 16 * 16 + v₃ / 4) ::
              UInt8.ofNat (v₃ % 4 * 64 + v₄) :: z, ?_, ?_⟩
            · rw [hy, List.append_assoc]
              rfl
            · rw [base64Encode, hbyte, hbyte', hbyte'', show (v₁ * 4 + v₂ / 16) / 4 = v₁ by omega,
                show (v₁ * 4 + v₂ / 16) % 4 * 16 + (v₂ % 16 * 16 + v₃ / 4) / 16 = v₂ by omega,
                show (v₂ % 16 * 16 + v₃ / 4) % 16 * 4 + (v₃ % 4 * 64 + v₄) / 64 = v₃ by omega,
                show (v₃ % 4 * 64 + v₄) % 64 = v₄ by omega, ha', hb', hc', hd', ← hx]

end Base64Lemmas

open Base64Lemmas

/-- Strict base64 decodes the encodings and nothing else, each to what it encodes. -/
theorem base64Decode_iff (x y : Bytes) : base64Decode x false = some y ↔ x = base64Encode y := by
  constructor
  · intro h
    obtain ⟨z, hy, hx⟩ := encode_of_decode x [] y 0 h
    rw [List.nil_append] at hy
    rw [hy]
    exact hx
  · rintro rfl
    exact decode_encode y [] 0

end OmtClient.Ssh.Wire
