import OmtClient.Lib.Bits

/-!
# Inflating fixed-Huffman blocks

The decoder of RFC 1951 for blocks with the fixed Huffman codes: the code of section
3.2.6, the lengths and distances of section 3.2.5 in closed form, and a copy from the
output so far for each match.

1. `readSymbol_code`: the fixed code of a symbol reads back as it.
2. `block_literal`, `block_match`, `block_end`: what one symbol adds to the output.
-/

namespace OmtClient.Lib.Inflate

/-- The next `n` bits as a number, the least significant first. -/
def readBits (n : Nat) (bits : List Bool) : Option (Nat × List Bool) :=
  if bits.length < n then none else some (ofLsb (bits.take n), bits.drop n)

/-- The next `n` bits as a Huffman code, the most significant first. -/
def readCode (n : Nat) (bits : List Bool) : Option (Nat × List Bool) :=
  if bits.length < n then none else some (ofMsb (bits.take n), bits.drop n)

/-- The length of a symbol's fixed code, and the code. -/
def fixedCode (symbol : Nat) : Nat × Nat :=
  if symbol ≤ 143 then (8, 0x30 + symbol)
  else if symbol ≤ 255 then (9, 0x190 + (symbol - 144))
  else if symbol ≤ 279 then (7, symbol - 256)
  else (8, 0xC0 + (symbol - 280))

/-- The symbol whose fixed code comes next. -/
def readSymbol (bits : List Bool) : Option (Nat × List Bool) := do
  let (seven, rest) ← readCode 7 bits
  if seven ≤ 0x17 then some (256 + seven, rest)
  else do
    let (eight, rest) ← readCode 8 bits
    if eight ≤ 0xBF then some (eight - 0x30, rest)
    else if eight ≤ 0xC7 then some (280 + (eight - 0xC0), rest)
    else do
      let (nine, rest) ← readCode 9 bits
      some (144 + (nine - 0x190), rest)

/-- The shortest length of a length symbol, and how many extra bits add to it. -/
def lengthCode (symbol : Nat) : Option (Nat × Nat) :=
  if symbol < 257 then none
  else if symbol ≤ 264 then some (symbol - 254, 0)
  else if symbol ≤ 284 then
    some ((4 + (symbol - 261) % 4) * 2 ^ ((symbol - 261) / 4) + 3, (symbol - 261) / 4)
  else if symbol = 285 then some (258, 0)
  else none

/-- The shortest distance of a distance code, and how many extra bits add to it. -/
def distanceCode (code : Nat) : Option (Nat × Nat) :=
  if code < 4 then some (code + 1, 0)
  else if code < 30 then some ((2 + code % 2) * 2 ^ (code / 2 - 1) + 1, code / 2 - 1)
  else none

/-- A copy of `n` bytes from `distance` back, byte by byte. -/
def copyMatch (distance : Nat) : Nat → Bytes → Option Bytes
  | 0, out => some out
  | n + 1, out =>
    if distance = 0 ∨ out.length < distance then none
    else do copyMatch distance n (out ++ [← out[out.length - distance]?])

/-- The symbols of a block up to its end, after some output. -/
def block : Nat → List Bool → Bytes → Option (Bytes × List Bool)
  | 0, _, _ => none
  | fuel + 1, bits, out => do
    let (symbol, bits) ← readSymbol bits
    if symbol < 256 then block fuel bits (out ++ [UInt8.ofNat symbol])
    else if symbol = 256 then some (out, bits)
    else do
      let (base, extra) ← lengthCode symbol
      let (more, bits) ← readBits extra bits
      let (code, bits) ← readCode 5 bits
      let (far, extra) ← distanceCode code
      let (further, bits) ← readBits extra bits
      block fuel bits (← copyMatch (far + further) (base + more) out)

/-- Blocks up to the final one. -/
def blocks : Nat → List Bool → Bytes → Option Bytes
  | 0, _, _ => none
  | fuel + 1, bits, out => do
    let (final, bits) ← readBits 1 bits
    let (kind, bits) ← readBits 2 bits
    if kind ≠ 1 then none
    else do
      let (out, bits) ← block (bits.length + 1) bits out
      if final = 1 then some out else blocks fuel bits out

/-- The bytes that a stream of fixed-Huffman blocks stands for. -/
def inflate (data : Bytes) : Option Bytes := blocks ((bitsOf data).length + 1) (bitsOf data) []

/-! ## Reading back -/

variable {rest : List Bool} {n v : Nat}

theorem readBits_lsb (h : v < 2 ^ n) : readBits n (lsb n v ++ rest) = some (v, rest) := by
  have hlen : (lsb n v).length = n := length_lsb n v
  rw [readBits, if_neg (by rw [List.length_append, hlen]; omega), List.take_left' hlen,
    List.drop_left' hlen, ofLsb_lsb h]

theorem readCode_msb (h : v < 2 ^ n) : readCode n (msb n v ++ rest) = some (v, rest) := by
  have hlen : (msb n v).length = n := length_msb n v
  rw [readCode, if_neg (by rw [List.length_append, hlen]; omega), List.take_left' hlen,
    List.drop_left' hlen, ofMsb_msb h]

/-- The front of a code. -/
theorem readCode_front (m k : Nat) (h : v < 2 ^ (m + k)) :
    readCode m (msb (m + k) v ++ rest) = some (v / 2 ^ k, msb k (v % 2 ^ k) ++ rest) := by
  rw [msb_add, List.append_assoc]
  refine readCode_msb (Nat.div_lt_of_lt_mul ?_)
  rwa [← Nat.pow_add, Nat.add_comm]

/-- The fixed code of a symbol reads back as it. -/
theorem readSymbol_code {symbol : Nat} (h : symbol < 286) :
    readSymbol (msb (fixedCode symbol).1 (fixedCode symbol).2 ++ rest) = some (symbol, rest) := by
  unfold fixedCode
  split
  · next hlow =>
    have hseven := (@readCode_front rest (0x30 + symbol)) 7 1 (by omega)
    have height := (@readCode_msb rest 8 (0x30 + symbol)) (by omega)
    simp only [readSymbol, hseven, height, Option.bind_eq_bind, Option.bind_some]
    rw [if_neg (by omega), if_pos (by omega), Nat.add_sub_cancel_left]
  split
  · next hhigh hlow =>
    have hseven := (@readCode_front rest (0x190 + (symbol - 144))) 7 2 (by omega)
    have height := (@readCode_front rest (0x190 + (symbol - 144))) 8 1 (by omega)
    have hnine := (@readCode_msb rest 9 (0x190 + (symbol - 144))) (by omega)
    simp only [readSymbol, hseven, height, hnine, Option.bind_eq_bind, Option.bind_some]
    rw [if_neg (by omega), if_neg (by omega), if_neg (by omega), Nat.add_sub_cancel_left,
      Nat.add_sub_cancel' (by omega)]
  split
  · next hlow =>
    have hseven := (@readCode_msb rest 7 (symbol - 256)) (by omega)
    simp only [readSymbol, hseven, Option.bind_eq_bind, Option.bind_some]
    rw [if_pos (by omega), Nat.add_sub_cancel' (by omega)]
  · have hseven := (@readCode_front rest (0xC0 + (symbol - 280))) 7 1 (by omega)
    have height := (@readCode_msb rest 8 (0xC0 + (symbol - 280))) (by omega)
    simp only [readSymbol, hseven, height, Option.bind_eq_bind, Option.bind_some]
    rw [if_neg (by omega), if_neg (by omega), if_pos (by omega), Nat.add_sub_cancel_left,
      Nat.add_sub_cancel' (by omega)]

/-- The copy of bytes that the data repeats. -/
theorem copyMatch_take {data : Bytes} {i distance n : Nat} (hlow : 1 ≤ distance) (hhigh : distance ≤ i)
    (hroom : i + n ≤ data.length)
    (hsame : ∀ k, k < n → data[i - distance + k]? = data[i + k]?) :
    copyMatch distance n (data.take i) = some (data.take (i + n)) := by
  induction n generalizing i with
  | zero => rfl
  | succ n ih =>
    have hlen : (data.take i).length = i := by rw [List.length_take]; omega
    have hbyte : (data.take i)[i - distance]? = data[i]? := by
      rw [List.getElem?_take, if_pos (by omega)]
      exact hsame 0 (Nat.succ_pos n)
    obtain ⟨b, hb⟩ : ∃ b, data[i]? = some b := ⟨_, List.getElem?_eq_getElem (by omega)⟩
    have hsnoc : data.take i ++ [b] = data.take (i + 1) := by
      rw [List.take_add_one, hb]
      rfl
    rw [copyMatch, hlen, if_neg (by omega), hbyte, hb]
    simp only [Option.bind_eq_bind, Option.bind_some, hsnoc]
    rw [ih (by omega) (by omega) fun k hk => ?_]
    · rw [Nat.add_assoc, Nat.add_comm 1 n]
    · have := hsame (k + 1) (Nat.succ_lt_succ hk)
      rwa [show i - distance + (k + 1) = i + 1 - distance + k by omega,
        show i + (k + 1) = i + 1 + k by omega] at this

variable {fuel : Nat} {out : Bytes}

/-- A literal adds its byte. -/
theorem block_literal (b : Byte) :
    block (fuel + 1) (msb (fixedCode b.toNat).1 (fixedCode b.toNat).2 ++ rest) out =
      block fuel rest (out ++ [b]) := by
  have hlt : b.toNat < 256 := b.toNat_lt
  simp only [block, (@readSymbol_code rest) (Nat.lt_trans hlt (by decide)), Option.bind_eq_bind,
    Option.bind_some]
  rw [if_pos hlt, UInt8.ofNat_toNat]

/-- The end of a block. -/
theorem block_end :
    block (fuel + 1) (msb (fixedCode 256).1 (fixedCode 256).2 ++ rest) out = some (out, rest) := by
  simp only [block, (@readSymbol_code rest 256) (by decide), Option.bind_eq_bind,
    Option.bind_some]
  rw [if_neg (by decide), if_pos trivial]

/-- A match adds a copy. -/
theorem block_match {symbol base extra more code far wide further : Nat} {out' : Bytes}
    (hlength : lengthCode symbol = some (base, extra)) (hmore : more < 2 ^ extra)
    (hcode : code < 2 ^ 5) (hfar : distanceCode code = some (far, wide)) (hfurther : further < 2 ^ wide)
    (hcopy : copyMatch (far + further) (base + more) out = some out') :
    block (fuel + 1) (msb (fixedCode symbol).1 (fixedCode symbol).2 ++ (lsb extra more ++ (msb 5 code ++
      (lsb wide further ++ rest)))) out = block fuel rest out' := by
  have hrange : 257 ≤ symbol ∧ symbol < 286 := by
    unfold lengthCode at hlength
    split at hlength
    · cases hlength
    split at hlength
    · omega
    split at hlength
    · omega
    split at hlength
    · omega
    · cases hlength
  simp only [block, readSymbol_code hrange.2, Option.bind_eq_bind, Option.bind_some]
  rw [if_neg (by omega), if_neg (by omega)]
  simp only [hlength, readBits_lsb hmore, readCode_msb hcode, hfar, readBits_lsb hfurther, hcopy,
    Option.bind_some]

end OmtClient.Lib.Inflate
