import OmtClient.Common.Calendar
import OmtClient.Omt.Protocol
import Mathlib.Tactic.Ring

/-!
# Concealing lost audio

`end_timestamp` and `missing_frames` of `crates/omt-receiver/src/audio.rs`: how much silence stands
in for the audio that a sender dropped. Timestamps count ticks of 100 ns, the answer counts samples,
and both conversions round down.

1. `ticks_between`: the hole in ticks is the hole in samples, less than one tick short and less
   than two over.
2. `samples_between`: so rounding it back down loses at most one sample and adds none.
3. `silence_exact`: what the receiver conceals, for every frame that it accepts, and what it makes of
   timestamps that fit no stream.
-/

namespace OmtClient.Receiver.Conceal

open OmtClient.Lib OmtClient.Omt OmtClient.Common.Calendar OmtClient.Common.Calendar.CalendarLemmas

/-- The longest hole in the sender's timeline concealed with silence. -/
def concealMaxMs : Int := 1000

/-- OMT timestamps count 100 ns ticks. -/
def ticksPerSecond : Int := 10000000

/-- `end_timestamp`: where the next frame starts when none was lost. None outside where an
operation overflows; inside, where the code has none. -/
def endTimestamp (timestamp samples rate : Int) : Option (Option Int) :=
  if rate ≤ 0 ∨ samples ≤ 0 then some none
  else
    match i64 (samples * ticksPerSecond) with
    | none => some none
    | some scaled => (i64 (scaled.tdiv rate)).map fun ticks => i64 (timestamp + ticks)

/-- `missing_frames`, or none where an operation overflows. -/
def missingFrames (expected timestamp rate samples : Int) : Option Int :=
  match i64 (timestamp - expected) with
  | none => some 0
  | some ticks =>
    if rate ≤ 0 ∨ samples ≤ 0 ∨ ticks ≤ 0 ∨ concealMaxMs * (ticksPerSecond / 1000) < ticks then some 0
    else do
      let scaled ← i64 (ticks * rate)
      let frames := scaled.tdiv ticksPerSecond
      let fourfold ← i64 (frames * 4)
      let threefold ← i64 (samples * 3)
      some (if fourfold < threefold then 0 else frames)

/-- The exact timestamp of frame `k`: its `samples` frames before it at `rate`, in ticks. -/
def stamp (samples rate k : Int) : Int := k * samples * ticksPerSecond / rate

/-- A hole of `lost` samples lasts at most one second less two ticks. -/
def Short (lost rate : Int) : Prop := lost * ticksPerSecond ≤ (ticksPerSecond - 2) * rate

/-- What the two functions make of a stream and of any timestamps. -/
structure SilenceExact (samples rate : Int) : Prop where
  /-- After `n` lost frames of an exact stream. -/
  stream : ∀ k n : Nat, stamp samples rate (k + 1 + n) < 2 ^ 63 → Short (n * samples) rate →
    ∃ expected silence, endTimestamp (stamp samples rate k) samples rate = some (some expected) ∧
      missingFrames expected (stamp samples rate (k + 1 + n)) rate samples = some silence ∧
      silence ≤ n * samples ∧ (n = 0 → silence = 0) ∧
      (1 ≤ n → 4 ≤ samples → silence = n * samples ∨ silence = n * samples - 1)
  /-- Whatever the timestamps are, nothing overflows, and no more than a second is concealed. -/
  hostile : ∀ expected timestamp, IsI64 expected → IsI64 timestamp →
    (∃ next, endTimestamp timestamp samples rate = some next) ∧
    ∃ silence, missingFrames expected timestamp rate samples = some silence ∧ 0 ≤ silence ∧ silence ≤ rate

namespace ConcealLemmas

variable {samples rate : Int}

/-- A quotient that rounds down, times its divisor. -/
theorem floor_bounds (hrate : 0 < rate) (a : Int) : rate * (a / rate) ≤ a ∧ a < rate * (a / rate) + rate := by
  have hdiv := Int.mul_ediv_add_emod a rate
  have hlow := Int.emod_nonneg a (Int.ne_of_gt hrate)
  have hhigh := Int.emod_lt_of_pos a hrate
  constructor
  · omega
  · omega

/-- `rate` times the ticks from the end of frame `k` to a frame after `n` lost ones. -/
theorem ticks_between (hrate : 0 < rate) (k n : Int) :
    n * samples * ticksPerSecond - rate <
      rate * (stamp samples rate (k + 1 + n) - (stamp samples rate k + samples * ticksPerSecond / rate)) ∧
    rate * (stamp samples rate (k + 1 + n) - (stamp samples rate k + samples * ticksPerSecond / rate)) <
      n * samples * ticksPerSecond + 2 * rate := by
  have hstart := floor_bounds hrate (k * samples * ticksPerSecond)
  have hlength := floor_bounds hrate (samples * ticksPerSecond)
  have hnext := floor_bounds hrate ((k + 1 + n) * samples * ticksPerSecond)
  have hsum : (k + 1 + n) * samples * ticksPerSecond =
      k * samples * ticksPerSecond + samples * ticksPerSecond + n * samples * ticksPerSecond := by
    ring
  unfold stamp
  rw [Int.mul_sub, Int.mul_add]
  generalize rate * ((k + 1 + n) * samples * ticksPerSecond / rate) = next at hnext ⊢
  generalize rate * (k * samples * ticksPerSecond / rate) = start at hstart ⊢
  generalize rate * (samples * ticksPerSecond / rate) = length at hlength ⊢
  rw [hsum] at hnext
  constructor
  · omega
  · omega

/-- From ticks back to samples, where a tick is a small part of one. -/
theorem samples_between {ticks lost : Int} (hrate : 2 * rate ≤ ticksPerSecond)
    (hlow : lost * ticksPerSecond - rate < rate * ticks) (hhigh : rate * ticks < lost * ticksPerSecond + 2 * rate) :
    lost - 1 ≤ ticks * rate / ticksPerSecond ∧ ticks * rate / ticksPerSecond ≤ lost := by
  rw [Int.mul_comm ticks rate]
  unfold ticksPerSecond at *
  constructor
  · omega
  · omega

/-- The frame that is expected is one of the stream, or one tick before. -/
theorem end_le_stamp (hrate : 0 < rate) (hsamples : 0 ≤ samples) (k : Int) {n : Int} (hn : 0 ≤ n) :
    stamp samples rate k + samples * ticksPerSecond / rate ≤ stamp samples rate (k + 1 + n) := by
  have hlost : 0 ≤ n * samples * ticksPerSecond := Int.mul_nonneg (Int.mul_nonneg hn hsamples) (by decide)
  have hticks := (@ticks_between samples rate hrate k n).1
  by_contra hless
  have hneg : stamp samples rate (k + 1 + n) - (stamp samples rate k + samples * ticksPerSecond / rate) ≤ -1 := by
    omega
  have hmul := Int.mul_le_mul_of_nonneg_left hneg (Int.le_of_lt hrate)
  omega

theorem stamp_nonneg (hrate : 0 < rate) (hsamples : 0 ≤ samples) {k : Int} (hk : 0 ≤ k) : 0 ≤ stamp samples rate k :=
  Int.ediv_nonneg (Int.mul_nonneg (Int.mul_nonneg hk hsamples) (by decide)) (Int.le_of_lt hrate)

theorem endTimestamp_eq (hrate : 0 < rate) (hsamples : 0 < samples ∧ samples < 2 ^ 31) (timestamp : Int) :
    endTimestamp timestamp samples rate = some (i64 (timestamp + samples * ticksPerSecond / rate)) := by
  have hscaled : IsI64 (samples * ticksPerSecond) := by
    unfold IsI64 ticksPerSecond
    omega
  have hticks : IsI64 (samples * ticksPerSecond / rate) := by
    have hpos : 0 ≤ samples * ticksPerSecond := Int.mul_nonneg (Int.le_of_lt hsamples.1) (by decide)
    have hle := Int.ediv_le_self rate hpos
    have hnonneg := Int.ediv_nonneg hpos (Int.le_of_lt hrate)
    exact ⟨by omega, Int.lt_of_le_of_lt hle hscaled.2⟩
  unfold endTimestamp
  rw [if_neg (by omega), i64_of hscaled]
  dsimp only
  rw [tdiv_eq (Int.mul_nonneg (Int.le_of_lt hsamples.1) (by decide)), i64_of hticks]
  rfl

/-- The branches of `missing_frames` where the hole is one to look at. -/
theorem missingFrames_eq (hrate : 0 < rate ∧ rate < 2 ^ 31) (hsamples : 0 < samples ∧ samples < 2 ^ 31)
    {expected timestamp : Int} (hin : IsI64 (timestamp - expected)) (hpos : 0 < timestamp - expected)
    (hcap : timestamp - expected ≤ ticksPerSecond) :
    missingFrames expected timestamp rate samples =
      some (if (timestamp - expected) * rate / ticksPerSecond * 4 < samples * 3 then 0
        else (timestamp - expected) * rate / ticksPerSecond) := by
  unfold missingFrames
  rw [i64_of hin]
  dsimp only
  generalize timestamp - expected = ticks at *
  have hmax : concealMaxMs * (ticksPerSecond / 1000) = ticksPerSecond := by decide
  have hnonneg : 0 ≤ ticks * rate := Int.mul_nonneg (Int.le_of_lt hpos) (Int.le_of_lt hrate.1)
  have hle : ticks * rate ≤ ticksPerSecond * rate := Int.mul_le_mul_of_nonneg_right hcap (Int.le_of_lt hrate.1)
  have hscaled : IsI64 (ticks * rate) := by
    unfold IsI64 ticksPerSecond at *
    omega
  have hframes : IsI64 (ticks * rate / ticksPerSecond * 4) := by
    unfold IsI64 ticksPerSecond at *
    omega
  have hthree : IsI64 (samples * 3) := by
    unfold IsI64
    omega
  rw [hmax, if_neg (by omega)]
  refine (i64_bind hscaled).trans ?_
  rw [tdiv_eq hnonneg]
  refine (i64_bind hframes).trans ?_
  exact i64_bind hthree

/-- Timestamps that are no hole to conceal. -/
theorem missingFrames_zero {expected timestamp : Int}
    (h : timestamp - expected ≤ 0 ∨ ticksPerSecond < timestamp - expected) :
    missingFrames expected timestamp rate samples = some 0 := by
  have hmax : concealMaxMs * (ticksPerSecond / 1000) = ticksPerSecond := by decide
  unfold missingFrames
  by_cases hin : IsI64 (timestamp - expected)
  · rw [i64_of hin]
    dsimp only
    rw [hmax, if_pos (.inr (.inr h))]
  · rw [i64, if_neg hin]

theorem frame_le_lost {n : Nat} (hn : 1 ≤ n) (hsamples : 0 ≤ samples) : samples ≤ n * samples := by
  have hmul := Int.mul_le_mul_of_nonneg_right (Int.ofNat_le.mpr hn) hsamples
  omega

end ConcealLemmas

open ConcealLemmas

/-- Both directions for the rates and sizes that the receiver accepts. -/
theorem silence_of_bounds {samples rate : Int} (hrate : 0 < rate ∧ rate ≤ 192000)
    (hsamples : 0 < samples ∧ samples < 2 ^ 31) : SilenceExact samples rate where
  stream := by
    intro k n hfits hshort
    have hlost : 0 ≤ (n : Int) * samples := Int.mul_nonneg (Int.natCast_nonneg n) (Int.le_of_lt hsamples.1)
    obtain ⟨hlow, hhigh⟩ := @ticks_between samples rate hrate.1 k n
    have hend := @end_le_stamp samples rate hrate.1 (Int.le_of_lt hsamples.1) k n (Int.natCast_nonneg n)
    have hstart := @stamp_nonneg samples rate hrate.1 (Int.le_of_lt hsamples.1) k (Int.natCast_nonneg k)
    have hlength : 0 ≤ samples * ticksPerSecond / rate :=
      Int.ediv_nonneg (Int.mul_nonneg (Int.le_of_lt hsamples.1) (by decide)) (Int.le_of_lt hrate.1)
    have hnext := endTimestamp_eq hrate.1 hsamples (stamp samples rate k)
    have hnonneg := Int.add_nonneg hstart hlength
    generalize stamp samples rate k + samples * ticksPerSecond / rate = expected at *
    generalize stamp samples rate (k + 1 + n) = timestamp at *
    have hin : IsI64 expected := ⟨by omega, by omega⟩
    have hdiff : IsI64 (timestamp - expected) := ⟨by omega, by omega⟩
    rw [i64_of hin] at hnext
    -- the hole is shorter than the cap
    have hcap : timestamp - expected ≤ ticksPerSecond := by
      by_contra hlarge
      have hmul := Int.mul_le_mul_of_nonneg_left (Int.le_of_lt (Int.not_le.mp hlarge)) (Int.le_of_lt hrate.1)
      unfold Short at hshort
      rw [Int.sub_mul, Int.mul_comm ticksPerSecond rate] at hshort
      omega
    obtain ⟨hfew, hmany⟩ := samples_between (by unfold ticksPerSecond; omega) hlow hhigh
    rcases Int.lt_or_le 0 (timestamp - expected) with hpos | hzero
    · refine ⟨expected, _, hnext, missingFrames_eq ⟨hrate.1, by omega⟩ hsamples hdiff hpos hcap, ?_, ?_, ?_⟩
      · split
        · exact hlost
        · exact hmany
      · rintro rfl
        have hnone : ((0 : Nat) : Int) * samples = 0 := Int.zero_mul samples
        exact if_pos (by omega)
      · intro hn hfour
        have hone := frame_le_lost hn (Int.le_of_lt hsamples.1)
        rw [if_neg (by omega)]
        omega
    · refine ⟨expected, 0, hnext, missingFrames_zero (.inl hzero), hlost, fun _ => rfl, ?_⟩
      intro hn hfour
      -- a hole of a frame is longer than a tick
      have hone := frame_le_lost hn (Int.le_of_lt hsamples.1)
      have hticks := Int.mul_le_mul_of_nonneg_left hzero (Int.le_of_lt hrate.1)
      unfold ticksPerSecond at hlow
      omega
  hostile := by
    intro expected timestamp hexpected htimestamp
    refine ⟨⟨_, endTimestamp_eq hrate.1 hsamples timestamp⟩, ?_⟩
    by_cases hhole : timestamp - expected ≤ 0 ∨ ticksPerSecond < timestamp - expected
    · exact ⟨0, missingFrames_zero hhole, Int.le_refl 0, Int.le_of_lt hrate.1⟩
    · obtain ⟨hpos, hcap⟩ := not_or.mp hhole
      have hpos := Int.not_le.mp hpos
      have hcap := Int.not_lt.mp hcap
      have hdiff : IsI64 (timestamp - expected) := by
        unfold IsI64 ticksPerSecond at *
        omega
      refine ⟨_, missingFrames_eq ⟨hrate.1, by omega⟩ hsamples hdiff hpos hcap, ?_⟩
      have hle : (timestamp - expected) * rate ≤ ticksPerSecond * rate :=
        Int.mul_le_mul_of_nonneg_right hcap (Int.le_of_lt hrate.1)
      have hnonneg : 0 ≤ (timestamp - expected) * rate := Int.mul_nonneg (Int.le_of_lt hpos) (Int.le_of_lt hrate.1)
      generalize (timestamp - expected) * rate = scaled at *
      unfold ticksPerSecond at *
      split
      · exact ⟨Int.le_refl 0, Int.le_of_lt hrate.1⟩
      · exact ⟨by omega, by omega⟩

/-- What the receiver conceals of a stream of frames that it accepts. -/
theorem silence_exact {f : FrameHeader} {data : Bytes} {a : AudioHeader} (h : parseAudioHeader f data = .ok a) :
    SilenceExact a.samplesPerChannel a.sampleRate := by
  unfold parseAudioHeader at h
  split at h
  · cases h
  · dsimp only at h
    split at h
    · cases h
    · next hformat =>
      split at h
      · cases h
      · next hsize =>
        have hparsed : a.sampleRate = leI32 data 4 ∧ a.samplesPerChannel = leI32 data 8 := by
          split at h
          · cases h
          · split at h
            · cases h
            · split at h
              · cases h
              · cases h
                exact ⟨rfl, rfl⟩
        obtain ⟨hrate, hsamples⟩ := hparsed
        rw [hrate, hsamples]
        -- at least one channel, so the samples alone fit the size limit
        have hchannels : 0 < (leI32 data 12).natAbs := by omega
        have hone := Nat.le_mul_of_pos_right (leI32 data 8).natAbs hchannels
        unfold audioMaxSize at hsize
        exact silence_of_bounds ⟨by omega, by omega⟩ ⟨by omega, by omega⟩

/-- A silent frame of 960 samples at 48 kHz. -/
def silentHeader : Bytes :=
  [0x46, 0x50, 0x41, 0x31] ++ [0x80, 0xBB, 0, 0] ++ [0xC0, 3, 0, 0] ++ [1, 0, 0, 0] ++ [0, 0, 0, 0] ++ [0, 0, 0, 0]

theorem silence_exact_48000 : SilenceExact 960 48000 :=
  @silence_exact ⟨.audio, 0, 0, 24⟩ silentHeader ⟨codecFpa1, 48000, 960, 1, 0⟩ (by decide +kernel)

end OmtClient.Receiver.Conceal
