import OmtClient.Lib.Bits

/-!
# The Deflate encoder of the support bundle

`deflate` of `crates/omt-web/src/zip.rs`: a greedy LZ77 over a 32 KiB window with
fixed Huffman codes. `usize::MAX` in the hash tables is `none`. A slice or an index
past the end of the input, and a subtraction that would wrap, is a `none` result of
the function it stands in.

1. `putBits_spec`: the writer appends the bits of a value.
2. `findMatch_spec`: the matcher stays inside the input and returns a match.
-/

namespace OmtClient.Web.Zip

open OmtClient.Lib

/-! ## The bit writer -/

structure BitWriter where
  out : Bytes
  bits : Nat
  count : Nat
  deriving DecidableEq, Repr

/-- The loop of `put_bits`: whole bytes go out. -/
def BitWriter.drain (w : BitWriter) : BitWriter :=
  if 8 ≤ w.count then
    drain ⟨w.out ++ [UInt8.ofNat (w.bits % 256)], w.bits >>> 8, w.count - 8⟩
  else w
termination_by w.count

/-- `put_bits`: the low `n` bits of a value, the least significant first. -/
def BitWriter.putBits (w : BitWriter) (value n : Nat) : BitWriter :=
  { w with bits := w.bits ||| ((value <<< w.count) % 2 ^ 32), count := w.count + n }.drain

/-- `u32::reverse_bits`. -/
def reverseBits (v : Nat) : Nat := ofLsb (lsb 32 v).reverse

/-- `put_code`: Huffman codes are sent most-significant bit first. -/
def BitWriter.putCode (w : BitWriter) (code n : Nat) : BitWriter :=
  w.putBits (reverseBits code >>> (32 - n)) n

/-- `put_literal`. -/
def BitWriter.putLiteral (w : BitWriter) (symbol : Nat) : BitWriter :=
  if symbol ≤ 143 then w.putCode (0x30 + symbol) 8
  else if symbol ≤ 255 then w.putCode (0x190 + (symbol - 144)) 9
  else if symbol ≤ 279 then w.putCode (symbol - 256) 7
  else w.putCode (0xC0 + (symbol - 280)) 8

def lengthBase : List Nat :=
  [3, 4, 5, 6, 7, 8, 9, 10, 11, 13, 15, 17, 19, 23, 27, 31, 35, 43, 51, 59, 67, 83, 99, 115, 131, 163,
    195, 227, 258]

def lengthExtra : List Nat :=
  [0, 0, 0, 0, 0, 0, 0, 0, 1, 1, 1, 1, 2, 2, 2, 2, 3, 3, 3, 3, 4, 4, 4, 4, 5, 5, 5, 5, 0]

def distBase : List Nat :=
  [1, 2, 3, 4, 5, 7, 9, 13, 17, 25, 33, 49, 65, 97, 129, 193, 257, 385, 513, 769, 1025, 1537, 2049, 3073,
    4097, 6145, 8193, 12289, 16385, 24577]

def distExtra : List Nat :=
  [0, 0, 0, 0, 1, 1, 2, 2, 3, 3, 4, 4, 5, 5, 6, 6, 7, 7, 8, 8, 9, 9, 10, 10, 11, 11, 12, 12, 13, 13]

/-- `rposition(|b| b <= v)`: the last entry that is not above `v`, if any. -/
def lastNotAbove (table : List Nat) (v : Nat) : Option Nat :=
  (List.range table.length).reverse.find? fun i => decide (table.getD i 0 ≤ v)

/-- A code's extra bits, when it has any. -/
def BitWriter.putExtra (w : BitWriter) (value n : Nat) : BitWriter :=
  if n ≠ 0 then w.putBits value n else w

/-- `put_match`. -/
def BitWriter.putMatch (w : BitWriter) (length distance : Nat) : BitWriter :=
  let l := (lastNotAbove lengthBase length).getD 0
  let d := (lastNotAbove distBase distance).getD 0
  (((w.putLiteral (257 + l)).putExtra (length - lengthBase.getD l 0) (lengthExtra.getD l 0)).putCode d
    5).putExtra (distance - distBase.getD d 0) (distExtra.getD d 0)

/-! ## The matcher -/

def window : Nat := 32768
def hashBits : Nat := 15
def maxChain : Nat := 64
def minMatch : Nat := 3
def maxMatch : Nat := 258

/-- `&data[start..stop]`. -/
def slice (data : Bytes) (start stop : Nat) : Option Bytes :=
  if start ≤ stop ∧ stop ≤ data.length then some ((data.drop start).take (stop - start)) else none

/-- `hash3`: of the first three bytes of a slice. -/
def hash3 (p : Bytes) : Option Nat :=
  match p with
  | a :: b :: c :: _ =>
    let v := (a.toNat <<< 16) ^^^ (b.toNat <<< 8) ^^^ c.toNat
    some ((v * 2654435761) % 2 ^ 32 >>> (32 - hashBits))
  | _ => none

/-- How many bytes two slices have in common at the front. -/
def commonPrefix (a b : Bytes) : Nat := ((a.zip b).takeWhile fun p => p.1 == p.2).length

/-- The hash chains: the last position of each hash, and the one before each
position. -/
structure Chains where
  head : Nat → Option Nat
  prev : Nat → Option Nat

def Chains.empty : Chains := ⟨fun _ => none, fun _ => none⟩

/-- The chain walk, with the best length and distance so far. -/
def findMatch (data : Bytes) (prev : Nat → Option Nat) (i limit : Nat) :
    Nat → Option Nat → Nat × Nat → Option (Nat × Nat)
  | 0, _, best => some best
  | _, none, best => some best
  | chain + 1, some candidate, best =>
    if i < candidate then none
    else if window ≤ i - candidate then some best
    else do
      let before ← slice data candidate (candidate + limit)
      let here ← slice data i (i + limit)
      let n := commonPrefix before here
      if best.1 < n ∧ n = limit then some (n, i - candidate)
      else
        let best := if best.1 < n then (n, i - candidate) else best
        match prev (candidate % window) with
        | none => some best
        | some next =>
          if candidate ≤ next then some best else findMatch data prev i limit chain (some next) best

/-- Indexing one position. -/
def Chains.insert (t : Chains) (data : Bytes) (i : Nat) : Option Chains :=
  if data.length - i < minMatch then some t
  else do
    let h ← hash3 (← slice data i data.length)
    some {
      prev := fun k => if k = i % window then t.head h else t.prev k
      head := fun k => if k = h then some i else t.head k }

/-- Indexing every position consumed. -/
def Chains.insertAll (t : Chains) (data : Bytes) : Nat → Nat → Option Chains
  | _, 0 => some t
  | i, n + 1 => do (← t.insert data i).insertAll data (i + 1) n

/-- The longest match at a position, if the input has room for one. -/
def bestMatch (t : Chains) (data : Bytes) (i : Nat) : Option (Nat × Nat) :=
  if data.length - i < minMatch then some (0, 0)
  else do
    let h ← hash3 (← slice data i data.length)
    findMatch data t.prev i (min maxMatch (data.length - i)) maxChain (t.head h) (0, 0)

/-- The loop of `deflate`, for at most `fuel` turns. -/
def deflateLoop (data : Bytes) : Nat → BitWriter → Chains → Nat → Option BitWriter
  | fuel, w, t, i =>
    if i < data.length then
      match fuel with
      | 0 => none
      | fuel + 1 => do
        let (length, distance) ← bestMatch t data i
        if minMatch ≤ length then
          deflateLoop data fuel (w.putMatch length distance) (← t.insertAll data i length) (i + length)
        else
          deflateLoop data fuel (w.putLiteral (← data[i]?).toNat) (← t.insertAll data i 1) (i + 1)
    else some w

/-- `deflate`: one fixed-Huffman block for the whole member. -/
def deflate (data : Bytes) : Option Bytes := do
  let w := ((⟨[], 0, 0⟩ : BitWriter).putBits 1 1).putBits 1 2
  let w ← deflateLoop data data.length w Chains.empty 0
  let w := w.putLiteral 256
  some (if w.count ≠ 0 then w.putBits 0 (8 - w.count) else w).out

/-! ## What the writer appends -/

/-- The bits written so far. -/
def BitWriter.stream (w : BitWriter) : List Bool := bitsOf w.out ++ lsb w.count w.bits

/-- Less than a byte is pending, and nothing above it. -/
structure BitWriter.Ready (w : BitWriter) : Prop where
  few : w.count < 8
  clean : w.bits < 2 ^ w.count

namespace DeflateLemmas

variable {w : BitWriter}

theorem drain_spec (w : BitWriter) (h : w.bits < 2 ^ w.count) :
    w.drain.stream = w.stream ∧ w.drain.Ready := by
  induction w using BitWriter.drain.induct with
  | case1 w hfull ih =>
    rw [BitWriter.drain, if_pos hfull]
    have hbits : w.bits >>> 8 < 2 ^ (w.count - 8) := by
      rw [Nat.shiftRight_eq_div_pow]
      refine Nat.div_lt_of_lt_mul ?_
      rw [← Nat.pow_add, Nat.add_sub_cancel' hfull]
      exact h
    obtain ⟨hstream, hready⟩ := ih hbits
    refine ⟨hstream.trans ?_, hready⟩
    have hbyte : (UInt8.ofNat (w.bits % 256)).toNat = w.bits % 256 :=
      UInt8.toNat_ofNat_of_lt' (Nat.mod_lt _ (by decide))
    have hcount : lsb w.count w.bits = lsb 8 (w.bits % 256) ++ lsb (w.count - 8) (w.bits / 256) := by
      rw [← lsb_byte, Nat.add_sub_cancel' hfull]
    simp only [BitWriter.stream, bitsOf_append, List.append_assoc, hcount, Nat.shiftRight_eq_div_pow]
    simp only [bitsOf, List.flatMap_cons, List.flatMap_nil, List.append_nil, hbyte]
  | case2 w hfew =>
    rw [BitWriter.drain, if_neg hfew]
    exact ⟨rfl, ⟨Nat.not_le.mp hfew, h⟩⟩

theorem drain_count (w : BitWriter) : w.drain.count = w.count % 8 := by
  induction w using BitWriter.drain.induct with
  | case1 w hfull ih =>
    rw [BitWriter.drain, if_pos hfull, ih]
    exact (Nat.mod_eq_sub_mod hfull).symm
  | case2 w hfew =>
    rw [BitWriter.drain, if_neg hfew, Nat.mod_eq_of_lt (Nat.not_le.mp hfew)]

end DeflateLemmas

open DeflateLemmas

/-- The writer appends the bits of a value. -/
theorem putBits_spec {w : BitWriter} (hw : w.Ready) {value n : Nat} (hvalue : value < 2 ^ n) (hn : n ≤ 24) :
    (w.putBits value n).stream = w.stream ++ lsb n value ∧ (w.putBits value n).Ready := by
  have hfew := hw.few
  have hroom : value * 2 ^ w.count < 2 ^ 32 := by
    calc value * 2 ^ w.count < 2 ^ n * 2 ^ w.count :=
          Nat.mul_lt_mul_of_pos_right hvalue (Nat.two_pow_pos _)
      _ = 2 ^ (n + w.count) := (Nat.pow_add _ _ _).symm
      _ ≤ 2 ^ 32 := Nat.pow_le_pow_right (by decide) (by omega)
  have hbits : w.bits ||| ((value <<< w.count) % 2 ^ 32) = w.bits + value * 2 ^ w.count := by
    rw [Nat.shiftLeft_eq, Nat.mod_eq_of_lt hroom, Nat.or_comm, Nat.mul_comm,
      ← Nat.two_pow_add_eq_or_of_lt hw.clean, Nat.add_comm]
  have hlt : w.bits + value * 2 ^ w.count < 2 ^ (w.count + n) := by
    have hstep : (value + 1) * 2 ^ w.count ≤ 2 ^ n * 2 ^ w.count :=
      Nat.mul_le_mul_right _ hvalue
    rw [Nat.pow_add, Nat.mul_comm (2 ^ w.count)]
    rw [Nat.add_mul, Nat.one_mul] at hstep
    exact Nat.lt_of_lt_of_le (by have := hw.clean; omega) hstep
  rw [BitWriter.putBits, hbits]
  obtain ⟨hstream, hready⟩ := drain_spec ⟨w.out, w.bits + value * 2 ^ w.count, w.count + n⟩ hlt
  refine ⟨hstream.trans ?_, hready⟩
  show bitsOf w.out ++ lsb (w.count + n) (w.bits + value * 2 ^ w.count) = _
  rw [lsb_add _ _ _ _ hw.clean, BitWriter.stream, List.append_assoc]

/-- A code goes out from its most significant bit. -/
theorem putCode_spec {w : BitWriter} (hw : w.Ready) {code n : Nat} (hcode : code < 2 ^ n) (hn : n ≤ 9) :
    (w.putCode code n).stream = w.stream ++ msb n code ∧ (w.putCode code n).Ready := by
  obtain ⟨hlt, hbits⟩ := lsb_reversed (w := 32) (Nat.le_trans hn (by decide)) hcode
  rw [BitWriter.putCode, ← hbits]
  exact putBits_spec hw hlt (Nat.le_trans hn (by decide))

/-- Extra bits go out as they are, and none do when there are none. -/
theorem putExtra_spec {w : BitWriter} (hw : w.Ready) {value n : Nat} (hvalue : value < 2 ^ n) (hn : n ≤ 24) :
    (w.putExtra value n).stream = w.stream ++ lsb n value ∧ (w.putExtra value n).Ready := by
  rw [BitWriter.putExtra]
  split
  · exact putBits_spec hw hvalue hn
  · next hzero =>
    rw [not_not] at hzero
    rw [hzero]
    exact ⟨(List.append_nil _).symm, hw⟩

/-! ## What the matcher finds -/

/-- Every position in the chains is before `i`. -/
structure Chains.Before (t : Chains) (i : Nat) : Prop where
  head : ∀ h c, t.head h = some c → c < i
  prev : ∀ k c, t.prev k = some c → c < i

/-- A match is no match at all, or a copy of bytes from inside the window. -/
def IsMatch (data : Bytes) (i limit : Nat) (m : Nat × Nat) : Prop :=
  m = (0, 0) ∨ (1 ≤ m.2 ∧ m.2 ≤ i ∧ m.2 < window ∧ m.1 ≤ limit ∧
    ∀ k, k < m.1 → data[i - m.2 + k]? = data[i + k]?)

namespace DeflateLemmas

theorem commonPrefix_spec (a b : Bytes) :
    commonPrefix a b ≤ a.length ∧ commonPrefix a b ≤ b.length ∧
      ∀ k, k < commonPrefix a b → a[k]? = b[k]? := by
  induction a generalizing b with
  | nil => exact ⟨Nat.le_refl _, Nat.zero_le _, fun k hk => absurd hk (Nat.not_lt_zero k)⟩
  | cons x a ih =>
    cases b with
    | nil => exact ⟨Nat.zero_le _, Nat.le_refl _, fun k hk => absurd hk (Nat.not_lt_zero k)⟩
    | cons y b =>
      by_cases hxy : x = y
      · have hstep : commonPrefix (x :: a) (y :: b) = commonPrefix a b + 1 := by
          simp only [commonPrefix, List.zip_cons_cons, hxy, List.takeWhile_cons, beq_self_eq_true, if_true,
            List.length_cons]
        obtain ⟨ha, hb, heq⟩ := ih b
        rw [hstep]
        refine ⟨Nat.succ_le_succ ha, Nat.succ_le_succ hb, fun k hk => ?_⟩
        cases k with
        | zero => simp only [List.getElem?_cons_zero, hxy]
        | succ k =>
          simp only [List.getElem?_cons_succ]
          exact heq k (Nat.lt_of_succ_lt_succ hk)
      · have hnone : commonPrefix (x :: a) (y :: b) = 0 := by
          simp only [commonPrefix, List.zip_cons_cons, List.takeWhile_cons, beq_eq_false_iff_ne.mpr hxy,
            Bool.false_eq_true, if_false, List.length_nil]
        rw [hnone]
        exact ⟨Nat.zero_le _, Nat.zero_le _, fun k hk => absurd hk (Nat.not_lt_zero k)⟩

theorem getElem?_slice {data : Bytes} {start stop k : Nat} (hk : k < stop - start) :
    ((data.drop start).take (stop - start))[k]? = data[start + k]? := by
  rw [List.getElem?_take, if_pos hk, List.getElem?_drop]

theorem slice_eq {data : Bytes} {start stop : Nat} (h : start ≤ stop) (h' : stop ≤ data.length) :
    slice data start stop = some ((data.drop start).take (stop - start)) := if_pos ⟨h, h'⟩

/-- The bytes that a candidate has in common with the position are a match. -/
theorem isMatch_common {data : Bytes} {i limit c : Nat} (hc : c < i) (hwindow : i - c < window) :
    IsMatch data i limit (commonPrefix ((data.drop c).take (c + limit - c))
      ((data.drop i).take (i + limit - i)), i - c) := by
  obtain ⟨ha, -, heq⟩ := commonPrefix_spec ((data.drop c).take (c + limit - c))
    ((data.drop i).take (i + limit - i))
  have hle : ((data.drop c).take (c + limit - c)).length ≤ limit := by
    rw [List.length_take, Nat.add_sub_cancel_left]
    exact Nat.min_le_left _ _
  refine .inr ⟨Nat.sub_pos_of_lt hc, Nat.sub_le _ _, hwindow, Nat.le_trans ha hle, fun k hk => ?_⟩
  have hk' : k < limit := Nat.lt_of_lt_of_le hk (Nat.le_trans ha hle)
  have := heq k hk
  rw [getElem?_slice (by omega), getElem?_slice (by omega)] at this
  rw [Nat.sub_sub_self (Nat.le_of_lt hc)]
  exact this

end DeflateLemmas

/-- The chain walk stays inside the input and ends at a match. -/
theorem findMatch_spec {data : Bytes} {prev : Nat → Option Nat} {i limit : Nat}
    (hprev : ∀ k c, prev k = some c → c < i) (hlimit : i + limit ≤ data.length) (chain : Nat)
    (candidate : Option Nat) (hcandidate : ∀ c, candidate = some c → c < i) (best : Nat × Nat)
    (hbest : IsMatch data i limit best) :
    ∃ m, findMatch data prev i limit chain candidate best = some m ∧ IsMatch data i limit m := by
  induction chain generalizing candidate best with
  | zero => exact ⟨best, by unfold findMatch; rfl, hbest⟩
  | succ chain ih =>
    cases candidate with
    | none => exact ⟨best, rfl, hbest⟩
    | some c =>
      have hc := hcandidate c rfl
      rw [findMatch, if_neg (by omega)]
      by_cases hwindow : window ≤ i - c
      · exact ⟨best, by rw [if_pos hwindow], hbest⟩
      · have hcommon := (@isMatch_common data _ limit) hc (Nat.not_le.mp hwindow)
        rw [if_neg hwindow, slice_eq (by omega) (by omega), slice_eq (by omega) hlimit]
        simp only [Option.bind_eq_bind, Option.bind_some]
        generalize hn : commonPrefix ((data.drop c).take (c + limit - c))
          ((data.drop i).take (i + limit - i)) = n at hcommon
        split
        · exact ⟨_, rfl, hcommon⟩
        · have hnext : IsMatch data i limit (if best.1 < n then (n, i - c) else best) := by
            split
            · exact hcommon
            · exact hbest
          split
          · exact ⟨_, rfl, hnext⟩
          · next next hstep =>
            split
            · exact ⟨_, rfl, hnext⟩
            · exact ih (some next) (fun c' hc' => Option.some.inj hc' ▸ hprev _ _ hstep) _ hnext

namespace DeflateLemmas

variable {data : Bytes} {t : Chains} {i : Nat}

theorem hash3_slice (h : minMatch ≤ data.length - i) :
    ∃ k, (slice data i data.length).bind hash3 = some k := by
  have h3 : 3 ≤ data.length - i := h
  rw [slice_eq (by omega) (Nat.le_refl _), Option.bind_some]
  have hlen : ((data.drop i).take (data.length - i)).length = data.length - i := by
    rw [List.length_take, List.length_drop, Nat.min_self]
  match hs : (data.drop i).take (data.length - i) with
  | a :: b :: c :: rest => exact ⟨_, rfl⟩
  | [] => rw [hs, List.length_nil] at hlen; omega
  | [_] => rw [hs, List.length_singleton] at hlen; omega
  | [_, _] => rw [hs, List.length_cons, List.length_singleton] at hlen; omega

theorem bestMatch_spec (ht : t.Before i) (hi : i < data.length) :
    ∃ m, bestMatch t data i = some m ∧ IsMatch data i (min maxMatch (data.length - i)) m := by
  rw [bestMatch]
  split
  · exact ⟨_, rfl, .inl rfl⟩
  · next hroom =>
    obtain ⟨k, hk⟩ := hash3_slice (Nat.not_lt.mp hroom)
    obtain ⟨rest, hslice, hhash⟩ := Option.bind_eq_some_iff.mp hk
    simp only [hslice, hhash, Option.bind_eq_bind, Option.bind_some]
    refine findMatch_spec ht.prev ?_ _ _ (ht.head k) _ (.inl rfl)
    have := Nat.min_le_right maxMatch (data.length - i)
    omega

theorem insert_spec (ht : t.Before i) : ∃ t', t.insert data i = some t' ∧ t'.Before (i + 1) := by
  have hmore : t.Before (i + 1) :=
    ⟨fun h c hc => Nat.lt_succ_of_lt (ht.head h c hc), fun k c hc => Nat.lt_succ_of_lt (ht.prev k c hc)⟩
  rw [Chains.insert]
  split
  · exact ⟨t, rfl, hmore⟩
  · next hroom =>
    obtain ⟨k, hk⟩ := hash3_slice (Nat.not_lt.mp hroom)
    obtain ⟨rest, hslice, hhash⟩ := Option.bind_eq_some_iff.mp hk
    simp only [hslice, hhash, Option.bind_eq_bind, Option.bind_some]
    refine ⟨_, rfl, fun h c hc => ?_, fun k' c hc => ?_⟩
    · dsimp only at hc
      split at hc
      · cases hc
        exact Nat.lt_succ_self i
      · exact hmore.head _ _ hc
    · dsimp only at hc
      split at hc
      · exact hmore.head _ _ hc
      · exact hmore.prev _ _ hc

theorem insertAll_spec (ht : t.Before i) (n : Nat) :
    ∃ t', t.insertAll data i n = some t' ∧ t'.Before (i + n) := by
  induction n generalizing t i with
  | zero => exact ⟨t, rfl, ht⟩
  | succ n ih =>
    obtain ⟨t', hinsert, hbefore⟩ := (@insert_spec data) ht
    obtain ⟨t'', hrest, hdone⟩ := ih hbefore
    refine ⟨t'', ?_, ?_⟩
    · rw [Chains.insertAll, hinsert]
      exact hrest
    · rwa [Nat.add_assoc, Nat.add_comm 1 n] at hdone

end DeflateLemmas

end OmtClient.Web.Zip
