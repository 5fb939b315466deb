import OmtClient.Lib.Inflate
import OmtClient.Web.Deflate

/-!
# What the encoder writes inflates to what it was given

1. `putLiteral_spec`, `putMatch_spec`: the writer sends the fixed code of a symbol, and
   for a match the codes and extra bits that denote its length and distance.
2. `deflateLoop_spec`: one turn of the loop sends a symbol for the bytes it consumes,
   so the whole loop sends the rest of the input.
3. `inflate_deflate`: the encoder ends without leaving its input, and a conforming
   decoder gives that input back.
-/

namespace OmtClient.Web.Zip

open OmtClient.Lib Inflate DeflateLemmas

namespace InflateLemmas

variable {w : BitWriter}

theorem fixedCode_bounds {symbol : Nat} (h : symbol < 286) :
    (fixedCode symbol).2 < 2 ^ (fixedCode symbol).1 ∧ 7 ≤ (fixedCode symbol).1 ∧
      (fixedCode symbol).1 ≤ 9 := by
  unfold fixedCode
  split
  · exact ⟨by dsimp only; omega, by dsimp only; omega, by dsimp only; omega⟩
  split
  · exact ⟨by dsimp only; omega, by dsimp only; omega, by dsimp only; omega⟩
  split
  · exact ⟨by dsimp only; omega, by dsimp only; omega, by dsimp only; omega⟩
  · exact ⟨by dsimp only; omega, by dsimp only; omega, by dsimp only; omega⟩

theorem putLiteral_eq (w : BitWriter) (symbol : Nat) :
    w.putLiteral symbol = w.putCode (fixedCode symbol).2 (fixedCode symbol).1 := by
  unfold BitWriter.putLiteral fixedCode
  split
  · rfl
  split
  · rfl
  split
  · rfl
  · rfl

/-- The last entry that is not above a value: the value is below the one after it. -/
theorem lastNotAbove_spec {table : List Nat} {v : Nat} (hne : 0 < table.length)
    (hfirst : table.getD 0 0 ≤ v) :
    ∃ l, lastNotAbove table v = some l ∧ l < table.length ∧ table.getD l 0 ≤ v ∧
      ∀ j, l < j → j < table.length → v < table.getD j 0 := by
  unfold lastNotAbove
  generalize table.length = n at hne
  induction n with
  | zero => exact absurd hne (Nat.lt_irrefl 0)
  | succ n ih =>
    rw [List.range_succ, List.reverse_append, List.reverse_singleton, List.singleton_append]
    by_cases hlast : table.getD n 0 ≤ v
    · rw [List.find?_cons_of_pos (by exact decide_eq_true hlast)]
      exact ⟨n, rfl, Nat.lt_succ_self n, hlast, fun j hj hj' => by omega⟩
    · rw [List.find?_cons_of_neg (by rw [decide_eq_true_eq]; exact hlast)]
      have hpos : 0 < n := by
        rcases Nat.eq_zero_or_pos n with rfl | hpos
        · exact absurd hfirst hlast
        · exact hpos
      obtain ⟨l, hl, hless, hle, habove⟩ := ih hpos
      refine ⟨l, hl, Nat.lt_succ_of_lt hless, hle, fun j hj hj' => ?_⟩
      rcases Nat.eq_or_lt_of_le (Nat.le_of_lt_succ hj') with rfl | hj'
      · exact Nat.not_le.mp hlast
      · exact habove j hj hj'

/-- The code of a value in a table whose entries are as far apart as their extra bits
reach: what is left of the value fits in them. -/
theorem lastNotAbove_extra {base extra : List Nat} {top v : Nat} (hne : 0 < base.length)
    (hfirst : base.getD 0 0 ≤ v) (htop : v < top)
    (hgap : ∀ l, l < base.length →
      (if l + 1 < base.length then base.getD (l + 1) 0 else top) ≤ base.getD l 0 + 2 ^ extra.getD l 0) :
    ∃ l, lastNotAbove base v = some l ∧ l < base.length ∧ base.getD l 0 ≤ v ∧
      v - base.getD l 0 < 2 ^ extra.getD l 0 := by
  obtain ⟨l, hl, hless, hle, habove⟩ := lastNotAbove_spec hne hfirst
  refine ⟨l, hl, hless, hle, ?_⟩
  have hstep := hgap l hless
  have hbelow : v < if l + 1 < base.length then base.getD (l + 1) 0 else top := by
    split
    · next hnext => exact habove _ (Nat.lt_succ_self l) hnext
    · exact htop
  omega

theorem length_tables : ∀ l, l < lengthBase.length →
    257 + l < 286 ∧ lengthCode (257 + l) = some (lengthBase.getD l 0, lengthExtra.getD l 0) ∧
    (if l + 1 < lengthBase.length then lengthBase.getD (l + 1) 0 else 259) ≤
      lengthBase.getD l 0 + 2 ^ lengthExtra.getD l 0 ∧ lengthExtra.getD l 0 ≤ 24 := by
  decide

theorem dist_tables : ∀ d, d < distBase.length →
    d < 2 ^ 5 ∧ distanceCode d = some (distBase.getD d 0, distExtra.getD d 0) ∧
    (if d + 1 < distBase.length then distBase.getD (d + 1) 0 else 32769) ≤
      distBase.getD d 0 + 2 ^ distExtra.getD d 0 ∧ distExtra.getD d 0 ≤ 24 := by
  decide

end InflateLemmas

open InflateLemmas

/-- The writer sends the fixed code of a symbol. -/
theorem putLiteral_spec {w : BitWriter} (hw : w.Ready) {symbol : Nat} (h : symbol < 286) :
    (w.putLiteral symbol).stream = w.stream ++ msb (fixedCode symbol).1 (fixedCode symbol).2 ∧
      (w.putLiteral symbol).Ready := by
  obtain ⟨hcode, -, hnine⟩ := fixedCode_bounds h
  rw [putLiteral_eq]
  exact putCode_spec hw hcode hnine

/-- The writer sends the codes and extra bits that denote a match. -/
theorem putMatch_spec {w : BitWriter} (hw : w.Ready) {length distance : Nat} (hlong : 3 ≤ length)
    (hshort : length ≤ 258) (hnear : 1 ≤ distance) (hfar : distance < window) :
    ∃ symbol base extra code far wide, symbol < 286 ∧ lengthCode symbol = some (base, extra) ∧
      base ≤ length ∧ length - base < 2 ^ extra ∧ code < 2 ^ 5 ∧ distanceCode code = some (far, wide) ∧
      far ≤ distance ∧ distance - far < 2 ^ wide ∧ (w.putMatch length distance).Ready ∧
      (w.putMatch length distance).stream = w.stream ++ (msb (fixedCode symbol).1 (fixedCode symbol).2 ++
        (lsb extra (length - base) ++ (msb 5 code ++ lsb wide (distance - far)))) := by
  have hdistance : distance < 32769 := Nat.lt_of_lt_of_le hfar (by decide)
  obtain ⟨l, hl, hless, hle, hmore⟩ := (@lastNotAbove_extra lengthBase lengthExtra _ length) (by decide) hlong (Nat.lt_succ_of_le hshort) fun l h => (length_tables l h).2.2.1
  obtain ⟨d, hd, hdless, hdle, hdmore⟩ := (@lastNotAbove_extra distBase distExtra _ distance) (by decide) hnear hdistance fun d h => (dist_tables d h).2.2.1
  obtain ⟨hsymbol, hlength, -, hextra⟩ := length_tables l hless
  obtain ⟨hcode, hdist, -, hwide⟩ := dist_tables d hdless
  refine ⟨257 + l, _, _, d, _, _, hsymbol, hlength, hle, hmore, hcode, hdist, hdle, hdmore, ?_⟩
  -- the four writes, one after the other
  obtain ⟨hstream1, hready1⟩ := putLiteral_spec hw hsymbol
  obtain ⟨hstream2, hready2⟩ := putExtra_spec hready1 hmore hextra
  obtain ⟨hstream3, hready3⟩ := putCode_spec hready2 hcode (by decide)
  obtain ⟨hstream4, hready4⟩ := putExtra_spec hready3 hdmore hwide
  simp only [BitWriter.putMatch, hl, hd, Option.getD_some]
  refine ⟨hready4, ?_⟩
  rw [hstream4, hstream3, hstream2, hstream1]
  simp only [List.append_assoc]

/-- The loop sends symbols for the rest of the input: a decoder that has the bytes before
`i` reads the others from them. -/
theorem deflateLoop_spec {data : Bytes} {i : Nat} (hi : i ≤ data.length) (fuel : Nat)
    (hfuel : data.length - i ≤ fuel) {w : BitWriter} (hw : w.Ready) {t : Chains} (ht : t.Before i) :
    ∃ w' bits turns, deflateLoop data fuel w t i = some w' ∧ w'.Ready ∧
      w'.stream = w.stream ++ bits ∧ turns ≤ bits.length ∧
      ∀ k rest, block (k + turns) (bits ++ rest) (data.take i) = block k rest data := by
  induction fuel generalizing i w t with
  | zero =>
    refine ⟨w, [], 0, ?_, hw, (List.append_nil _).symm, Nat.le_refl _, fun k rest => ?_⟩
    · rw [deflateLoop, if_neg (by omega)]
    · rw [List.take_of_length_le (by omega)]
      rfl
  | succ fuel ih =>
    rw [deflateLoop]
    split
    · next hmore =>
      obtain ⟨⟨length, distance⟩, hbest, hmatch⟩ := bestMatch_spec ht hmore
      simp only [hbest, Option.bind_eq_bind, Option.bind_some]
      split
      · next hlong =>
        have hlong3 : 3 ≤ length := hlong
        obtain ⟨hnear, hback, hwindow, hlimit, hsame⟩ : 1 ≤ distance ∧ distance ≤ i ∧ distance < window ∧
            length ≤ min maxMatch (data.length - i) ∧
            ∀ k, k < length → data[i - distance + k]? = data[i + k]? := by
          rcases hmatch with hnone | hmatch
          · cases hnone
            exact absurd hlong3 (by decide)
          · exact hmatch
        have hshort : length ≤ 258 := Nat.le_trans hlimit (Nat.min_le_left _ _)
        have hroom : i + length ≤ data.length := by
          have := Nat.le_trans hlimit (Nat.min_le_right _ _)
          omega
        obtain ⟨symbol, base, extra, code, far, wide, hsymbol, hlength, hbase, hmoreBits, hcode, hdist, hfar,
          hfurther, hready, hstream⟩ := putMatch_spec hw hlong3 hshort hnear hwindow
        obtain ⟨t', hinsert, hbefore⟩ := (@insertAll_spec data) ht length
        obtain ⟨w', bits, turns, hloop, hready', hstream', hturns, hblock⟩ :=
          ih (i := i + length) hroom (by omega) hready hbefore
        refine ⟨w', msb (fixedCode symbol).1 (fixedCode symbol).2 ++ (lsb extra (length - base) ++
          (msb 5 code ++ lsb wide (distance - far))) ++ bits, turns + 1, ?_, hready', ?_, ?_,
          fun k rest => ?_⟩
        · rw [hinsert]
          exact hloop
        · rw [hstream', hstream, List.append_assoc]
        · have := (fixedCode_bounds hsymbol).2.1
          rw [List.length_append, List.length_append, length_msb]
          omega
        · simp only [List.append_assoc]
          rw [← Nat.add_assoc, (@block_match _ _ _ _ _ _ _ _ _ _ _ (data.take (i + length))) hlength hmoreBits hcode hdist hfurther ?_, hblock]
          rw [Nat.add_sub_cancel' hfar, Nat.add_sub_cancel' hbase]
          exact copyMatch_take hnear hback hroom hsame
      · obtain ⟨b, hb⟩ : ∃ b, data[i]? = some b := ⟨_, List.getElem?_eq_getElem hmore⟩
        have hsymbol : b.toNat < 286 := Nat.lt_trans b.toNat_lt (by decide)
        obtain ⟨hstream, hready⟩ := putLiteral_spec hw hsymbol
        obtain ⟨t', hinsert, hbefore⟩ := (@insertAll_spec data) ht 1
        obtain ⟨w', bits, turns, hloop, hready', hstream', hturns, hblock⟩ :=
          ih (i := i + 1) hmore (by omega) hready hbefore
        refine ⟨w', msb (fixedCode b.toNat).1 (fixedCode b.toNat).2 ++ bits, turns + 1, ?_, hready', ?_, ?_,
          fun k rest => ?_⟩
        · simp only [hb, hinsert, Option.bind_some]
          exact hloop
        · rw [hstream', hstream, List.append_assoc]
        · have := (fixedCode_bounds hsymbol).2.1
          rw [List.length_append, length_msb]
          omega
        · rw [List.append_assoc, ← Nat.add_assoc, block_literal]
          rw [← hblock k rest, List.take_add_one, hb]
          rfl
    · refine ⟨w, [], 0, rfl, hw, (List.append_nil _).symm, Nat.le_refl _, fun k rest => ?_⟩
      rw [List.take_of_length_le (by omega)]
      rfl

theorem deflate_inflates (data : Bytes) : ∃ out, deflate data = some out ∧ Inflate.inflate out = some data := by
  have hempty : (⟨[], 0, 0⟩ : BitWriter).Ready := ⟨by decide, by decide⟩
  obtain ⟨hstream1, hready1⟩ := (@putBits_spec _ hempty 1 1) (by decide) (by decide)
  obtain ⟨hstream2, hready2⟩ := (@putBits_spec _ hready1 1 2) (by decide) (by decide)
  have hbefore : Chains.empty.Before 0 := ⟨fun _ _ h => (nomatch h), fun _ _ h => (nomatch h)⟩
  obtain ⟨w, bits, turns, hloop, hready, hstream, hturns, hblock⟩ :=
    deflateLoop_spec (Nat.zero_le data.length) data.length (Nat.le_refl _) hready2 hbefore
  obtain ⟨hstreamEnd, hreadyEnd⟩ := (@putLiteral_spec _ hready 256) (by decide)
  -- the padding, if any, completes the last byte
  obtain ⟨out, pad, hout, hbits⟩ : ∃ out pad,
      (if (w.putLiteral 256).count ≠ 0 then (w.putLiteral 256).putBits 0 (8 - (w.putLiteral 256).count)
        else w.putLiteral 256).out = out ∧ bitsOf out = (w.putLiteral 256).stream ++ pad := by
    split
    · next hcount =>
      have hfew := hreadyEnd.few
      obtain ⟨hpad, -⟩ := (@putBits_spec _ hreadyEnd 0 (8 - (w.putLiteral 256).count)) (Nat.two_pow_pos _) (by omega)
      have hfull : ((w.putLiteral 256).putBits 0 (8 - (w.putLiteral 256).count)).count = 0 := by
        rw [BitWriter.putBits, drain_count]
        dsimp only
        rw [Nat.add_sub_cancel' (Nat.le_of_lt hfew)]
      refine ⟨_, lsb (8 - (w.putLiteral 256).count) 0, rfl, ?_⟩
      rw [← hpad, BitWriter.stream, hfull]
      exact (List.append_nil _).symm
    · next hcount =>
      rw [not_not] at hcount
      refine ⟨_, [], rfl, ?_⟩
      rw [BitWriter.stream, hcount, List.append_nil]
      exact (List.append_nil _).symm
  refine ⟨out, ?_, ?_⟩
  · rw [deflate, hloop]
    exact congrArg some hout
  · have hall : bitsOf out = lsb 1 1 ++ (lsb 2 1 ++ (bits ++ (msb (fixedCode 256).1 (fixedCode 256).2 ++
        pad))) := by
      rw [hbits, hstreamEnd, hstream, hstream2, hstream1]
      simp only [BitWriter.stream, bitsOf, lsb, List.flatMap_nil, List.nil_append, List.append_assoc]
    obtain ⟨k, hk⟩ : ∃ k, (bits ++ (msb (fixedCode 256).1 (fixedCode 256).2 ++ pad)).length + 1 =
        k + 1 + turns := by
      refine ⟨(bits ++ (msb (fixedCode 256).1 (fixedCode 256).2 ++ pad)).length - turns, ?_⟩
      rw [List.length_append]
      omega
    have hread : block ((bits ++ (msb (fixedCode 256).1 (fixedCode 256).2 ++ pad)).length + 1)
        (bits ++ (msb (fixedCode 256).1 (fixedCode 256).2 ++ pad)) [] = some (data, pad) := by
      rw [hk]
      exact (hblock (k + 1) _).trans block_end
    rw [Inflate.inflate, hall, blocks, readBits_lsb (by decide)]
    simp only [Option.bind_eq_bind, Option.bind_some, readBits_lsb (show 1 < 2 ^ 2 by decide), hread]
    rw [if_neg (by decide), if_pos trivial]

/-- The encoder ends without leaving its input, and a conforming decoder gives that
input back. -/
theorem inflate_deflate (data : Bytes) :
    ∃ out, deflate data = some out ∧ Inflate.inflate out = some data :=
  deflate_inflates data

end OmtClient.Web.Zip
