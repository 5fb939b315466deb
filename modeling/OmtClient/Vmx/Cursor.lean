import OmtClient.Vmx.Lookahead

/-!
# The bit reader as a cursor

The reader of `crates/omt-vmx/src/bits.rs` against its purpose: a cursor into the bits of a
stream. Neither the window nor its reloads show from outside.

1. `call_at`: a call that leaves the reader sound does what the cursor does.
2. `reader_refines`: so does every call after any calls on a loaded stream, and a read past
   its end is never sound.
-/

namespace OmtClient.Vmx

open OmtClient.Lib

/-- Where the next unread bit stands in the stream. -/
def Reader.cursor (r : Reader) : Nat := (8 * r.position + 64 - r.bitsLeft).toNat

/-- The calls on a reader. -/
inductive Call
  | reload
  | take (count : Int)
  | bits (count : Int) (hcount : count ≤ 64)
  | bit
  | zeros
  | zerosBare
  | flush
  | align

/-- What a call returns, with 0 for nothing, and the reader after it. -/
def Reader.call (r : Reader) : Call → Int × Reader
  | .reload => (0, r.reload)
  | .take count => ((r.take count).1, (r.take count).2)
  | .bits count _ => ((r.bits count).1, (r.bits count).2)
  | .bit => (r.bit.1, r.bit.2)
  | .zeros => r.zeros
  | .zerosBare => r.zerosBare
  | .flush => (0, r.flush)
  | .align => (0, r.align)

def Reader.after (r : Reader) (calls : List Call) : Reader := calls.foldl (fun r c => (r.call c).2) r

/-- What a call returns of a bit string, and the cursor after it. `position` is the byte at which
the window starts: `zerosBare` looks to the end of that window, `zeros` to the end of the next. -/
def Call.does (bits : List Bool) (position cursor : Nat) : Call → Int × Nat
  | .reload => (0, cursor)
  | .take count => (ofMsb ((bits.drop cursor).take count.toNat), cursor + count.toNat)
  | .bits count _ => (ofMsb ((bits.drop cursor).take count.toNat), cursor + count.toNat)
  | .bit => (ofMsb ((bits.drop cursor).take 1), cursor + 1)
  | .zeros =>
    let count := min (zerosAhead (bits.drop cursor)) (8 * (position + 16) - cursor)
    (count, cursor + count)
  | .zerosBare =>
    let count := min (zerosAhead (bits.drop cursor)) (8 * (position + 8) - cursor)
    (count, cursor + count)
  | .flush => (0, cursor)
  | .align => (0, (cursor + 7) / 8 * 8)

/-- A reader of `buf` that has met no corruption: the window holds the bytes at its position. -/
structure Reader.At (buf : Bytes) (r : Reader) : Prop where
  buf_eq : r.buf = buf
  left : 0 ≤ r.bitsLeft ∧ r.bitsLeft ≤ 64
  inside : r.position + 8 ≤ buf.length
  window : r.window = beNat ((buf.drop r.position).take 8)

namespace CursorLemmas

variable {buf : Bytes} {r : Reader} {n m : Nat}

theorem window_lt (h : r.At buf) : r.window < 2 ^ 64 := by
  have hlen : ((buf.drop r.position).take 8).length = 8 := by
    have := h.inside
    rw [List.length_take, List.length_drop]
    omega
  have hlt := leNat_lt ((buf.drop r.position).take 8).reverse
  rw [List.length_reverse, hlen] at hlt
  rw [h.window]
  exact hlt

/-- The bits from the start of the window on. -/
theorem drop_window (h : r.At buf) : (msbBits buf).drop (8 * r.position) = msb 64 r.window ++ (msbBits buf).drop (8 * (r.position + 8)) := by
  have hlen : ((buf.drop r.position).take 8).length = 8 := by
    have := h.inside
    rw [List.length_take, List.length_drop]
    omega
  have hbits := msb_beNat ((buf.drop r.position).take 8)
  rw [hlen, ← h.window] at hbits
  rw [drop_msbBits, drop_msbBits, ← List.drop_drop, hbits, ← msbBits_append, List.take_append_drop]

theorem cursor_eq (hn : r.bitsLeft = n) (hhigh : n ≤ 64) : r.cursor = 8 * r.position + (64 - n) := by
  unfold Reader.cursor
  omega

/-- The bits from the cursor on: what is left of the window, then what follows it. -/
theorem drop_cursor (h : r.At buf) (hn : r.bitsLeft = n) (hhigh : n ≤ 64) :
    (msbBits buf).drop r.cursor = msb n (r.window % 2 ^ n) ++ (msbBits buf).drop (8 * (r.position + 8)) := by
  have hsplit : msb 64 r.window = msb (64 - n) (r.window / 2 ^ n) ++ msb n (r.window % 2 ^ n) := by
    rw [← msb_add, Nat.sub_add_cancel hhigh]
  rw [cursor_eq hn hhigh, ← List.drop_drop, drop_window h, hsplit, List.append_assoc, List.drop_left' (length_msb _ _)]

theorem exists_left (h : r.At buf) : ∃ n : Nat, r.bitsLeft = n ∧ n ≤ 64 := by
  obtain ⟨h₀, h₁⟩ := h.left
  exact ⟨r.bitsLeft.toNat, by omega, by omega⟩

theorem cursor_inside (h : r.At buf) : r.cursor ≤ (msbBits buf).length := by
  obtain ⟨n, hn, hhigh⟩ := exists_left h
  have := h.inside
  rw [cursor_eq hn hhigh, length_msbBits]
  omega

/-! ### Moving the window -/

theorem moveTo_at {position : Nat} (hbuf : r.buf = buf) (hleft : 0 ≤ r.bitsLeft ∧ r.bitsLeft ≤ 64)
    (hok : (r.moveTo position).corrupt = false) : (r.moveTo position).At buf := by
  unfold Reader.moveTo at hok ⊢
  split
  · next hinside =>
    rw [hbuf] at hinside
    exact ⟨hbuf, hleft, hinside, by rw [hbuf]⟩
  · next hout =>
    rw [if_neg hout] at hok
    cases hok

theorem moveTo_position (r : Reader) (position : Nat) : (r.moveTo position).position = position := by
  unfold Reader.moveTo
  split
  · rfl
  · rfl

theorem flush_at (h : r.At buf) (hok : r.flush.corrupt = false) : r.flush.At buf ∧ r.flush.cursor = r.cursor := by
  unfold Reader.flush at hok ⊢
  split
  · next hleft =>
    rw [if_pos hleft] at hok
    refine ⟨moveTo_at h.buf_eq (by simp) hok, ?_⟩
    rw [Reader.cursor, Reader.cursor, moveTo_position, LookaheadLemmas.moveTo_left, hleft]
    dsimp only
    omega
  · exact ⟨h, rfl⟩

theorem reload_at (h : r.At buf) (hok : r.reload.corrupt = false) : r.reload.At buf ∧ r.reload.cursor = r.cursor := by
  obtain ⟨h₀, h₁⟩ := h.left
  unfold Reader.reload at hok ⊢
  split
  · next hlow =>
    rw [if_pos hlow, if_neg (by omega)] at hok
    rw [if_neg (by omega)]
    dsimp only at hok ⊢
    refine ⟨moveTo_at h.buf_eq ⟨?_, ?_⟩ hok, ?_⟩
    · dsimp only
      omega
    · dsimp only
      omega
    · rw [Reader.cursor, Reader.cursor, moveTo_position, LookaheadLemmas.moveTo_left]
      dsimp only
      omega
  · exact ⟨h, rfl⟩

/-! ### Corruption stays -/

theorem moveTo_corrupt {position : Nat} (h : r.corrupt = true) : (r.moveTo position).corrupt = true := by
  unfold Reader.moveTo
  split
  · exact h
  · rfl

theorem flush_corrupt (h : r.corrupt = true) : r.flush.corrupt = true := by
  unfold Reader.flush
  split
  · exact moveTo_corrupt h
  · exact h

theorem reload_corrupt (h : r.corrupt = true) : r.reload.corrupt = true := by
  unfold Reader.reload
  split
  · split
    · rfl
    · exact moveTo_corrupt h
  · exact h

theorem take_corrupt {count : Int} (h : r.corrupt = true) : (r.take count).2.corrupt = true := by
  unfold Reader.take
  dsimp only
  split
  · rfl
  · exact h

theorem leadingZeros_corrupt (h : r.corrupt = true) : r.leadingZeros.2.corrupt = true := by
  unfold Reader.leadingZeros
  split
  · rfl
  · exact h

theorem zerosBare_corrupt (h : r.corrupt = true) : r.zerosBare.2.corrupt = true := by
  unfold Reader.zerosBare
  dsimp only
  split
  · rfl
  · exact leadingZeros_corrupt h

theorem zeros_corrupt (h : r.corrupt = true) : r.zeros.2.corrupt = true := by
  unfold Reader.zeros
  dsimp only
  split
  · split
    · rfl
    · exact flush_corrupt (leadingZeros_corrupt h)
  · exact leadingZeros_corrupt h

theorem bitsLoop_corrupt (fuel : Nat) (remaining : Int) (value : Nat) (h : r.corrupt = true) :
    (Reader.bitsLoop fuel remaining value r).2.corrupt = true := by
  induction fuel generalizing remaining value r with
  | zero => exact h
  | succ fuel ih =>
    unfold Reader.bitsLoop
    split
    · exact h
    · dsimp only
      split
      · rfl
      · exact ih _ _ (flush_corrupt (take_corrupt h))

theorem bits_corrupt {count : Int} (h : r.corrupt = true) : (r.bits count).2.corrupt = true := by
  unfold Reader.bits
  split
  · rfl
  · exact bitsLoop_corrupt _ _ _ h

theorem align_corrupt (h : r.corrupt = true) : r.align.corrupt = true := by
  unfold Reader.align
  refine flush_corrupt ?_
  split
  · exact bits_corrupt h
  · exact h

/-- A reader that is sound after a step was sound before it. -/
theorem sound_before {r r' : Reader} (hstays : r.corrupt = true → r'.corrupt = true) (hok : r'.corrupt = false) : r.corrupt = false := by
  cases hc : r.corrupt with
  | false => rfl
  | true => exact absurd (hstays hc) (by simp [hok])

theorem call_corrupt (c : Call) (h : r.corrupt = true) : (r.call c).2.corrupt = true := by
  cases c with
  | reload => exact reload_corrupt h
  | take => exact take_corrupt h
  | bits => exact bits_corrupt h
  | bit => exact flush_corrupt (take_corrupt h)
  | zeros => exact zeros_corrupt h
  | zerosBare => exact zerosBare_corrupt h
  | flush => exact flush_corrupt h
  | align => exact align_corrupt h

/-! ### Reading bits -/

theorem take_at {count : Int} (h : r.At buf) (hok : (r.take count).2.corrupt = false) :
    ∃ m n : Nat, count = m ∧ r.bitsLeft = n ∧ n ≤ 64 ∧ m ≤ n ∧
      r.take count = (ofMsb (((msbBits buf).drop r.cursor).take m), { r with bitsLeft := ((n - m : Nat) : Int) }) := by
  obtain ⟨n, hn, hhigh⟩ := exists_left h
  have hcount : 0 ≤ count ∧ count ≤ n := by
    unfold Reader.take at hok
    dsimp only at hok
    split at hok
    · cases hok
    · omega
  obtain ⟨m, rfl⟩ := Int.eq_ofNat_of_zero_le hcount.1
  have hm : m ≤ n := by omega
  refine ⟨m, n, rfl, hn, hhigh, hm, ?_⟩
  have hfield : r.take (m : Int) = (r.window / 2 ^ (n - m) % 2 ^ m, { r with bitsLeft := ((n - m : Nat) : Int) }) := by
    rcases Nat.eq_zero_or_pos m with rfl | hpos
    · have hleft : r.bitsLeft - ((0 : Nat) : Int) = ((n - 0 : Nat) : Int) := by omega
      rw [Reader.take, hleft]
      dsimp only
      rw [if_neg (by omega)]
      simp [Nat.mod_one]
    · exact LookaheadLemmas.take_field hn hhigh hpos hm
  have hsplit : msb n (r.window % 2 ^ n) = msb m (r.window / 2 ^ (n - m) % 2 ^ m) ++ msb (n - m) (r.window % 2 ^ n % 2 ^ (n - m)) := by
    have hadd := msb_add m (n - m) (r.window % 2 ^ n)
    have hupper : r.window % 2 ^ n / 2 ^ (n - m) = r.window / 2 ^ (n - m) % 2 ^ m := by
      rw [← mod_div_pow, Nat.sub_add_cancel hm]
    rwa [Nat.add_sub_cancel' hm, hupper] at hadd
  rw [hfield, drop_cursor h hn hhigh, hsplit, List.append_assoc, List.take_left' (length_msb _ _),
    ofMsb_msb (Nat.mod_lt _ (Nat.two_pow_pos m))]

/-- A reader from which `m` bits of the window were taken. -/
theorem taken_at (h : r.At buf) (hn : r.bitsLeft = n) (hhigh : n ≤ 64) (hm : m ≤ n) :
    Reader.At buf { r with bitsLeft := ((n - m : Nat) : Int) } ∧
      Reader.cursor { r with bitsLeft := ((n - m : Nat) : Int) } = r.cursor + m := by
  refine ⟨⟨h.buf_eq, ⟨Int.natCast_nonneg _, ?_⟩, h.inside, h.window⟩, ?_⟩
  · dsimp only
    omega
  · rw [cursor_eq hn hhigh, cursor_eq rfl (Nat.le_trans (Nat.sub_le n m) hhigh)]
    dsimp only
    omega

/-- The value so far, moved up by what is taken next. -/
theorem shifted_eq {value k : Nat} (hvalue : value < 2 ^ k) (hroom : k + m ≤ 64) :
    (if value = 0 then value else shl64 value m) = value * 2 ^ m := by
  split
  · next hzero => rw [hzero, Nat.zero_mul]
  · next hone =>
    have hk : k ≠ 0 := by
      rintro rfl
      rw [Nat.pow_zero, Nat.lt_one_iff] at hvalue
      exact hone hvalue
    have hlt : value * 2 ^ m < 2 ^ 64 := by
      calc value * 2 ^ m < 2 ^ k * 2 ^ m := Nat.mul_lt_mul_of_pos_right hvalue (Nat.two_pow_pos m)
        _ = 2 ^ (k + m) := (Nat.pow_add 2 k m).symm
        _ ≤ 2 ^ 64 := Nat.pow_le_pow_right (by decide) hroom
    rw [shl64, if_neg (by omega), Nat.mod_eq_of_lt hlt]

theorem or_low {value low : Nat} (h : low < 2 ^ m) : value * 2 ^ m ||| low = value * 2 ^ m + low := by
  rw [Nat.mul_comm, Nat.two_pow_add_eq_or_of_lt h]

/-- What the loop of `bits` returns and where it stops, `k` bits being read already. -/
theorem bitsLoop_at (fuel : Nat) {remaining value k : Nat} (h : r.At buf) (hfuel : remaining ≤ fuel) (hvalue : value < 2 ^ k)
    (hroom : k + remaining ≤ 64) (hok : (Reader.bitsLoop fuel remaining value r).2.corrupt = false) :
    (Reader.bitsLoop fuel remaining value r).2.At buf ∧
      (Reader.bitsLoop fuel remaining value r).2.cursor = r.cursor + remaining ∧
      (Reader.bitsLoop fuel remaining value r).1 =
        value * 2 ^ remaining + ofMsb (((msbBits buf).drop r.cursor).take remaining) := by
  induction fuel generalizing remaining value k r with
  | zero =>
    obtain rfl := Nat.le_zero.mp hfuel
    exact ⟨h, rfl, by simp [Reader.bitsLoop, ofMsb, ofLsb]⟩
  | succ fuel ih =>
    unfold Reader.bitsLoop at hok ⊢
    rcases Nat.eq_zero_or_pos remaining with rfl | hpos
    · rw [if_pos (by decide)]
      exact ⟨h, rfl, by simp [ofMsb, ofLsb]⟩
    rw [if_neg (by omega)] at hok ⊢
    dsimp only at hok ⊢
    obtain ⟨n, hn, hhigh⟩ := exists_left h
    rcases Nat.eq_zero_or_pos n with rfl | hnpos
    · rw [hn, if_pos (by omega)] at hok
      cases hok
    have hmin : min (remaining : Int) r.bitsLeft = ((min remaining n : Nat) : Int) := by omega
    have hmpos : 0 < min remaining n := by omega
    have hmr : min remaining n ≤ remaining := Nat.min_le_left _ _
    have hmn : min remaining n ≤ n := Nat.min_le_right _ _
    rw [hmin] at hok ⊢
    generalize min remaining n = m at hok hmpos hmr hmn ⊢
    have hrest : (remaining : Int) - (m : Int) = ((remaining - m : Nat) : Int) := by omega
    rw [if_neg (by omega), Int.toNat_natCast, shifted_eq hvalue (by omega), hrest] at hok ⊢
    have hflush : (r.take m).2.flush.corrupt = false := sound_before (bitsLoop_corrupt _ _ _) hok
    have htake : (r.take m).2.corrupt = false := sound_before flush_corrupt hflush
    obtain ⟨m', n', hm', hn', -, -, heq⟩ := take_at h htake
    obtain rfl : m = m' := by omega
    obtain rfl : n = n' := by omega
    obtain ⟨htaken, hcursor⟩ := taken_at h hn hhigh hmn
    rw [heq] at hok hflush ⊢
    dsimp only at hok hflush ⊢
    obtain ⟨hat, hstay⟩ := flush_at htaken hflush
    have hlow : ofMsb (((msbBits buf).drop r.cursor).take m) < 2 ^ m :=
      Nat.lt_of_lt_of_le (ofMsb_lt _) (Nat.pow_le_pow_right (by decide) (List.length_take_le _ _))
    have hnext : value * 2 ^ m + ofMsb (((msbBits buf).drop r.cursor).take m) < 2 ^ (k + m) := by
      rw [Nat.pow_add]
      calc _ < value * 2 ^ m + 2 ^ m := Nat.add_lt_add_left hlow _
        _ = (value + 1) * 2 ^ m := (Nat.succ_mul _ _).symm
        _ ≤ 2 ^ k * 2 ^ m := Nat.mul_le_mul_right _ hvalue
    rw [or_low hlow] at hok ⊢
    obtain ⟨hend, hendCursor, hendValue⟩ := ih hat (by omega) hnext (by omega) hok
    refine ⟨hend, ?_, ?_⟩
    · rw [hendCursor, hstay, hcursor]
      omega
    · have hinside := cursor_inside hend
      rw [hendCursor, hstay, hcursor] at hinside
      have hsplit : ((msbBits buf).drop r.cursor).take remaining =
          ((msbBits buf).drop r.cursor).take m ++ ((msbBits buf).drop (r.cursor + m)).take (remaining - m) := by
        rw [← List.drop_drop, ← List.take_add, Nat.add_sub_cancel' hmr]
      have hlen : (((msbBits buf).drop (r.cursor + m)).take (remaining - m)).length = remaining - m := by
        rw [List.length_take, List.length_drop]
        omega
      have hpow : 2 ^ remaining = 2 ^ m * 2 ^ (remaining - m) := by rw [← Nat.pow_add, Nat.add_sub_cancel' hmr]
      rw [hendValue, hstay, hcursor, hsplit, ofMsb_append, hlen, hpow, Nat.add_mul, Nat.mul_assoc, Nat.add_assoc]

theorem bits_at {count : Int} (h : r.At buf) (hcount : count ≤ 64) (hok : (r.bits count).2.corrupt = false) :
    (r.bits count).2.At buf ∧ (r.bits count).2.cursor = r.cursor + count.toNat ∧
      (r.bits count).1 = ofMsb (((msbBits buf).drop r.cursor).take count.toNat) := by
  unfold Reader.bits at hok ⊢
  split
  · next hneg =>
    rw [if_pos hneg] at hok
    cases hok
  · next hpos =>
    rw [if_neg hpos] at hok
    obtain ⟨m, rfl⟩ := Int.eq_ofNat_of_zero_le (Int.not_lt.mp hpos)
    have hloop := (@bitsLoop_at buf r m m 0 0) h (Nat.le_refl m) Nat.zero_lt_one (by omega) hok
    rwa [Nat.zero_mul, Nat.zero_add] at hloop

theorem align_at (h : r.At buf) (hok : r.align.corrupt = false) : r.align.At buf ∧ r.align.cursor = (r.cursor + 7) / 8 * 8 := by
  obtain ⟨n, hn, hhigh⟩ := exists_left h
  unfold Reader.align at hok ⊢
  split
  · next hlow =>
    rw [if_pos hlow] at hok
    have hbits : (r.bits (r.bitsLeft % 8)).2.corrupt = false := sound_before flush_corrupt hok
    obtain ⟨hat, hcursor, _⟩ := bits_at h (by omega) hbits
    obtain ⟨hend, hstay⟩ := flush_at hat hok
    refine ⟨hend, ?_⟩
    rw [hstay, hcursor, cursor_eq hn hhigh, hn]
    omega
  · next hfull =>
    rw [if_neg hfull] at hok
    obtain ⟨hend, hstay⟩ := flush_at h hok
    refine ⟨hend, ?_⟩
    rw [hstay, cursor_eq hn hhigh]
    omega

/-! ### Runs of zeros -/

/-- The run of zeros at the cursor, as the window shows it. -/
theorem zerosAhead_left (h : r.At buf) (hn : r.bitsLeft = n) (hhigh : n ≤ 64) :
    zerosAhead ((msbBits buf).drop r.cursor) =
      if r.window % 2 ^ n = 0 then n + zerosAhead ((msbBits buf).drop (8 * (r.position + 8)))
      else n - 1 - (r.window % 2 ^ n).log2 := by
  rw [drop_cursor h hn hhigh]
  split
  · next hzero => rw [hzero, msb_zero, zerosAhead_replicate]
  · next hone => exact zerosAhead_msb (Nat.mod_lt _ (Nat.two_pow_pos n)) hone _

/-- The zeros at the front of a full window. -/
theorem clz_window (h : r.At buf) (hfull : r.bitsLeft = ((64 : Nat) : Int)) :
    clz64 r.window ≤ 64 ∧ min (zerosAhead ((msbBits buf).drop r.cursor)) 64 = clz64 r.window := by
  rw [zerosAhead_left h hfull (Nat.le_refl 64), Nat.mod_eq_of_lt (window_lt h), clz64]
  split
  · exact ⟨Nat.le_refl 64, Nat.min_eq_right (Nat.le_add_right _ _)⟩
  · exact ⟨by omega, by omega⟩

theorem left_pos_of_zeros (h : r.At buf) (hn : r.bitsLeft = n) (hok : r.leadingZeros.2.corrupt = false) : 0 < n := by
  obtain ⟨h₀, h₁⟩ := h.left
  unfold Reader.leadingZeros at hok
  split at hok
  · cases hok
  · omega

theorem zerosBare_at (h : r.At buf) (hok : r.zerosBare.2.corrupt = false) :
    r.zerosBare.2.At buf ∧
      (r.zerosBare.1, r.zerosBare.2.cursor) = Call.does (msbBits buf) r.position r.cursor .zerosBare := by
  obtain ⟨n, hn, hhigh⟩ := exists_left h
  have hpos : 0 < n := by
    refine left_pos_of_zeros h hn (sound_before (fun hc => ?_) hok)
    unfold Reader.zerosBare
    dsimp only
    split
    · rfl
    · exact hc
  have hrun := zerosAhead_left h hn hhigh
  have hwindow : 8 * (r.position + 8) - r.cursor = n := by
    rw [cursor_eq hn hhigh]
    omega
  rw [Call.does, hrun, hwindow]
  by_cases hone : r.window % 2 ^ n = 0
  · -- only a full window of zeros is stepped over
    have hfull : n = 64 := by
      unfold Reader.zerosBare at hok
      rw [LookaheadLemmas.leadingZeros_field hn hhigh hpos, if_pos hone] at hok
      dsimp only at hok
      split at hok
      · cases hok
      · omega
    have heq : r.zerosBare = (((n : Nat) : Int), { r with bitsLeft := ((n - n : Nat) : Int) }) := by
      rw [Reader.zerosBare, LookaheadLemmas.leadingZeros_field hn hhigh hpos, if_pos hone]
      dsimp only
      rw [if_neg (by omega), hn, hfull]
      rfl
    obtain ⟨hat, hcursor⟩ := taken_at h hn hhigh (Nat.le_refl n)
    rw [heq, if_pos hone, Nat.min_eq_right (Nat.le_add_right _ _)]
    exact ⟨hat, Prod.ext rfl hcursor⟩
  · have hlt : (r.window % 2 ^ n).log2 < n := (Nat.log2_lt hone).mpr (Nat.mod_lt _ (Nat.two_pow_pos n))
    have hleft : (r.window % 2 ^ n).log2 + 1 = n - (n - 1 - (r.window % 2 ^ n).log2) := by omega
    have hle : n - 1 - (r.window % 2 ^ n).log2 ≤ n := by omega
    obtain ⟨hat, hcursor⟩ := taken_at h hn hhigh hle
    rw [LookaheadLemmas.zerosBare_field hn hhigh hpos hone, if_neg hone, Nat.min_eq_left hle, hleft]
    exact ⟨hat, Prod.ext rfl hcursor⟩

theorem zeros_at (h : r.At buf) (hok : r.zeros.2.corrupt = false) :
    r.zeros.2.At buf ∧ (r.zeros.1, r.zeros.2.cursor) = Call.does (msbBits buf) r.position r.cursor .zeros := by
  obtain ⟨n, hn, hhigh⟩ := exists_left h
  have hpos : 0 < n := by
    refine left_pos_of_zeros h hn (sound_before (fun hc => ?_) hok)
    unfold Reader.zeros
    dsimp only
    split
    · split
      · rfl
      · exact flush_corrupt hc
    · exact hc
  have hrun := zerosAhead_left h hn hhigh
  have hwindows : 8 * (r.position + 16) - r.cursor = n + 64 := by
    rw [cursor_eq hn hhigh]
    omega
  rw [Call.does, hrun, hwindows]
  unfold Reader.zeros at hok ⊢
  rw [LookaheadLemmas.leadingZeros_field hn hhigh hpos] at hok ⊢
  by_cases hone : r.window % 2 ^ n = 0
  · -- the window is used up, and the next one goes on
    rw [if_pos hone] at hok ⊢
    dsimp only at hok ⊢
    rw [if_pos (by omega)] at hok ⊢
    obtain ⟨htaken, hcursor⟩ : Reader.At buf { r with bitsLeft := 0 } ∧ Reader.cursor { r with bitsLeft := 0 } = r.cursor + n := by
      have := taken_at h hn hhigh (Nat.le_refl n)
      rw [Nat.sub_self] at this
      exact this
    have hflush : (Reader.flush { r with bitsLeft := 0 }).corrupt = false := by
      split at hok
      · cases hok
      · exact hok
    have hfull : (Reader.flush { r with bitsLeft := 0 }).bitsLeft = ((64 : Nat) : Int) := by
      rw [Reader.flush, if_pos rfl, LookaheadLemmas.moveTo_left]
      rfl
    obtain ⟨hat, hstay⟩ := flush_at htaken hflush
    have hend : r.cursor + n = 8 * (r.position + 8) := by
      rw [cursor_eq hn hhigh]
      omega
    generalize Reader.flush { r with bitsLeft := 0 } = s at *
    obtain ⟨hle, hnext⟩ := clz_window hat hfull
    obtain ⟨hstepped, hstop⟩ := taken_at hat hfull (Nat.le_refl 64) hle
    have hleft : s.bitsLeft - ((clz64 s.window : Nat) : Int) = ((64 - clz64 s.window : Nat) : Int) := by omega
    rw [if_neg (by omega), hleft, if_pos hone, Nat.add_min_add_left, ← hend, ← hcursor, ← hstay, hnext, hn]
    refine ⟨hstepped, Prod.ext (Int.natCast_add _ _).symm ?_⟩
    rw [hstop, hstay, hcursor, Nat.add_assoc]
  · have hlt : (r.window % 2 ^ n).log2 < n := (Nat.log2_lt hone).mpr (Nat.mod_lt _ (Nat.two_pow_pos n))
    have hle : n - 1 - (r.window % 2 ^ n).log2 ≤ n := by omega
    obtain ⟨hat, hcursor⟩ := taken_at h hn hhigh hle
    have hleft : r.bitsLeft - ((n - 1 - (r.window % 2 ^ n).log2 : Nat) : Int) =
        ((n - (n - 1 - (r.window % 2 ^ n).log2) : Nat) : Int) := by omega
    rw [if_neg hone]
    dsimp only
    rw [if_neg (by omega), if_neg hone, Nat.min_eq_left (Nat.le_add_right_of_le hle), hleft]
    exact ⟨hat, Prod.ext rfl hcursor⟩

end CursorLemmas

open CursorLemmas

/-- A call that leaves the reader sound does what it does of the bits of the stream. -/
theorem call_at {buf : Bytes} {r : Reader} (c : Call) (h : r.At buf) (hok : (r.call c).2.corrupt = false) :
    (r.call c).2.At buf ∧ ((r.call c).1, (r.call c).2.cursor) = c.does (msbBits buf) r.position r.cursor := by
  cases c with
  | reload =>
    obtain ⟨hat, hcursor⟩ := reload_at h hok
    exact ⟨hat, Prod.ext rfl hcursor⟩
  | take count =>
    obtain ⟨m, n, rfl, hn, hhigh, hm, heq⟩ := take_at h hok
    obtain ⟨hat, hcursor⟩ := taken_at h hn hhigh hm
    rw [Reader.call, heq]
    exact ⟨hat, Prod.ext rfl hcursor⟩
  | bits count hcount =>
    obtain ⟨hat, hcursor, hvalue⟩ := bits_at h hcount hok
    exact ⟨hat, Prod.ext (congrArg Nat.cast hvalue) hcursor⟩
  | bit =>
    have htake : (r.take 1).2.corrupt = false := sound_before flush_corrupt hok
    obtain ⟨m, n, hm', hn, hhigh, hm, heq⟩ := take_at h htake
    obtain rfl : m = 1 := by omega
    obtain ⟨htaken, hcursor⟩ := taken_at h hn hhigh hm
    rw [Reader.call, Reader.bit, heq] at hok ⊢
    obtain ⟨hat, hstay⟩ := flush_at htaken hok
    exact ⟨hat, Prod.ext rfl (hstay.trans hcursor)⟩
  | zeros => exact zeros_at h hok
  | zerosBare => exact zerosBare_at h hok
  | flush =>
    obtain ⟨hat, hcursor⟩ := flush_at h hok
    exact ⟨hat, Prod.ext rfl hcursor⟩
  | align =>
    obtain ⟨hat, hcursor⟩ := align_at h hok
    exact ⟨hat, Prod.ext rfl hcursor⟩

/-- What holds of a reader as long as it is not corrupt. -/
structure Reader.Refines (bits : List Bool) (r : Reader) : Prop where
  left : 0 ≤ r.bitsLeft ∧ r.bitsLeft ≤ 64
  inside : r.cursor ≤ bits.length
  does : ∀ c, (r.call c).2.corrupt = false → ((r.call c).1, (r.call c).2.cursor) = c.does bits r.position r.cursor

theorem start_at (data : Bytes) :
    (Reader.start (padded data)).At (padded data) ∧ (Reader.start (padded data)).corrupt = false ∧
      (Reader.start (padded data)).cursor = 0 := by
  have hinside : 0 + 8 ≤ (padded data).length := by
    rw [padded, List.length_append, List.length_replicate, padding]
    omega
  have hsound : (Reader.start (padded data)).corrupt = false := by
    rw [Reader.start, Reader.moveTo, if_pos hinside]
  refine ⟨moveTo_at rfl (by simp) hsound, hsound, ?_⟩
  rw [Reader.cursor, Reader.start, moveTo_position, LookaheadLemmas.moveTo_left]
  rfl

theorem after_corrupt {r : Reader} (calls : List Call) (h : r.corrupt = true) : (r.after calls).corrupt = true := by
  induction calls generalizing r with
  | nil => exact h
  | cons c calls ih => exact ih (call_corrupt c h)

theorem after_at {buf : Bytes} {r : Reader} (calls : List Call) (h : r.At buf) (hok : (r.after calls).corrupt = false) :
    (r.after calls).At buf := by
  induction calls generalizing r with
  | nil => exact h
  | cons c calls ih => exact ih (call_at c h (sound_before (after_corrupt calls) hok)).1 hok

/-- **The reader is a cursor into the bits of its stream.** It starts at their front, and after
any calls it is corrupt, which it stays, or every call does what the cursor does. A call that
would move the cursor past the padding leaves it corrupt. -/
theorem reader_refines (data : Bytes) (calls : List Call) :
    ((Reader.start (padded data)).corrupt = false ∧ (Reader.start (padded data)).cursor = 0) ∧
    (((Reader.start (padded data)).after calls).corrupt = false →
      ((Reader.start (padded data)).after calls).Refines (msbBits (padded data))) ∧
    (∀ more, ((Reader.start (padded data)).after calls).corrupt = true →
      (((Reader.start (padded data)).after calls).after more).corrupt = true) ∧
    ∀ c : Call,
      (msbBits (padded data)).length <
        (c.does (msbBits (padded data)) ((Reader.start (padded data)).after calls).position
          ((Reader.start (padded data)).after calls).cursor).2 →
      (((Reader.start (padded data)).after calls).call c).2.corrupt = true := by
  obtain ⟨hat, hsound, hzero⟩ := start_at data
  refine ⟨⟨hsound, hzero⟩, fun hok => ?_, fun more => after_corrupt more, fun c hpast => ?_⟩
  · have h := after_at calls hat hok
    exact ⟨h.left, cursor_inside h, fun c hc => (call_at c h hc).2⟩
  · by_contra hnot
    have hok := Bool.eq_false_iff.mpr hnot
    obtain ⟨hnext, hdoes⟩ := call_at c (after_at calls hat (sound_before (call_corrupt c) hok)) hok
    have hinside := cursor_inside hnext
    rw [← hdoes] at hpast
    exact Nat.not_lt.mpr hinside hpast

end OmtClient.Vmx
