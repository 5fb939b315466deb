import Mathlib.Data.Nat.Count
import Mathlib.Data.Nat.Nth
import OmtClient.Lib.Loop
import OmtClient.Omt.Stream

/-!
# Audio frames

`Frame::media` of `crates/omt-receiver/src/channel.rs` and `interleave` of
`crates/omt-receiver/src/audio.rs`: the planes of a published audio frame become the
samples that the device is given.

A sample is the 32 bits of its float. `usize` has at least 32 bits: an index that takes
more is a fault here.

1. `published_audio_interleaves`: every audio frame that a channel publishes.
-/

namespace OmtClient.Receiver.Audio

open OmtClient.Lib OmtClient.Omt

/-- `metadata_length`. -/
def metadataLength (f : Frame) : Nat := f.header.elim 0 (·.metadataLength)

/-- `media`: the body of a frame after its extended header and before its trailing
metadata. -/
def media (f : Frame) (extendedHeader : Nat) : Option Bytes :=
  if f.len < metadataLength f then none
  else
    let last := f.len - metadataLength f
    if last < extendedHeader then none else some ((f.buffer.take last).drop extendedHeader)

/-! ## Interleaving -/

inductive Fault
  | truncated
  | outputShort
  | overflow
  deriving DecidableEq, Repr

/-- An index computed in a `usize`. -/
def fit (n : Nat) : Except Fault Nat := if n < 2 ^ 32 then .ok n else .error .overflow

/-- The bit of a channel in the mask; past its width there is none. -/
def isActive (active : UInt32) (channel : Nat) : Bool := decide (channel < 32) && active.toNat.testBit channel

/-- The next value of the body and the cursor past it. -/
def nextValue (body : Bytes) (cursor : Nat) : Except Fault (UInt32 × Nat) := do
  let past ← fit (cursor + 4)
  if past ≤ body.length then pure (le32 body cursor, past) else throw .truncated

/-- A value written to the slot of a sample. -/
def store (channels channel sample : Nat) (value : UInt32) (out : List UInt32) : Except Fault (List UInt32) := do
  let start ← fit (sample * channels)
  let slot ← fit (start + channel)
  if slot < out.length then pure (out.set slot value) else throw .outputShort

/-- One pass of the inner loop. -/
def interleaveSample (body : Bytes) (active : UInt32) (channels channel : Nat) (s : Nat × List UInt32) (sample : Nat) :
    Except Fault (Nat × List UInt32) := do
  let (value, cursor) ← if isActive active channel then nextValue body s.1 else pure (0, s.1)
  let out ← store channels channel sample value s.2
  pure (cursor, out)

/-- One pass of the outer loop. -/
def interleaveChannel (body : Bytes) (active : UInt32) (samples channels : Nat) (s : Nat × List UInt32) (channel : Nat) :
    Except Fault (Nat × List UInt32) :=
  (List.range samples).foldlM (interleaveSample body active channels channel) s

/-- `interleave`, with where the cursor ends. -/
def interleave (body : Bytes) (active : UInt32) (samples channels : Nat) (out : List UInt32) :
    Except Fault (Nat × List UInt32) :=
  (List.range channels).foldlM (interleaveChannel body active samples channels) (0, out)

/-- How many channels before this one are active: the plane it is in. -/
def rank (active : UInt32) (channel : Nat) : Nat := Nat.count (isActive active · = true) channel

/-- Where a sample of an active channel is in the body. -/
def offset (active : UInt32) (samples channel sample : Nat) : Nat := (rank active channel * samples + sample) * 4

/-- What a device hears in a slot. -/
def sampleOf (body : Bytes) (active : UInt32) (samples channel sample : Nat) : UInt32 :=
  if isActive active channel then le32 body (offset active samples channel sample) else 0

/-- `out` made into `out'` by the first `channels` of `width` channels. -/
structure Filled (body : Bytes) (active : UInt32) (samples width channels : Nat) (out out' : List UInt32) : Prop where
  length : out'.length = out.length
  written : ∀ c < channels, ∀ s < samples, out'[s * width + c]? = some (sampleOf body active samples c s)
  untouched : ∀ i, (∀ c < channels, ∀ s < samples, i ≠ s * width + c) → out'[i]? = out[i]?

/-- What becomes of a frame that was published as audio. -/
structure Interleaves (f : Frame) (h : FrameHeader) (a : AudioHeader) : Prop where
  /-- Its extended header passed every check. -/
  checked : f.audio = some a ∧ parseAudioHeader h f.payload = .ok a
  inside : f.len ≤ f.buffer.length
  /-- The body is the planes of the active channels, and any output that has room takes
  them all. -/
  plays : ∃ body, media f audioHeaderSize = some body ∧
    body.length = countOnes a.activeChannels * a.samplesPerChannel.natAbs * 4 ∧
    ∀ out : List UInt32, a.samplesPerChannel.natAbs * a.channels.natAbs ≤ out.length →
      ∃ out', interleave body a.activeChannels a.samplesPerChannel.natAbs a.channels.natAbs out = .ok (body.length, out') ∧
        Filled body a.activeChannels a.samplesPerChannel.natAbs a.channels.natAbs a.channels.natAbs out out'
  /-- Each byte of the body is in exactly one sample. -/
  once : ∀ i < countOnes a.activeChannels * a.samplesPerChannel.natAbs * 4, ∃! p : Nat × Nat,
    p.1 < a.channels.natAbs ∧ isActive a.activeChannels p.1 = true ∧ p.2 < a.samplesPerChannel.natAbs ∧
      offset a.activeChannels a.samplesPerChannel.natAbs p.1 p.2 ≤ i ∧
      i < offset a.activeChannels a.samplesPerChannel.natAbs p.1 p.2 + 4

namespace AudioLemmas

/-! ### Slots and planes -/

theorem slot_inj {w c c' s s' : Nat} (hc : c < w) (hc' : c' < w) (h : s * w + c = s' * w + c') : s = s' ∧ c = c' := by
  have hw : 0 < w := Nat.lt_of_le_of_lt (Nat.zero_le c) hc
  have hmod : c = c' := by
    rw [← Nat.mul_add_mod_of_lt (a := s) hc, h, Nat.mul_add_mod_of_lt hc']
  refine ⟨Nat.eq_of_mul_eq_mul_right hw ?_, hmod⟩
  omega

theorem slot_lt {w c s n : Nat} (hc : c < w) (hs : s < n) : s * w + c < n * w := by
  calc s * w + c < s * w + w := Nat.add_lt_add_left hc _
    _ = (s + 1) * w := (Nat.succ_mul s w).symm
    _ ≤ n * w := Nat.mul_le_mul_right w hs

theorem countP_range (p : Nat → Bool) (n : Nat) : (List.range n).countP p = Nat.count (p · = true) n := by
  induction n with
  | zero => rw [Nat.count_zero]; rfl
  | succ n ih => rw [List.range_succ, List.countP_append, Nat.count_succ, ih, List.countP_singleton]

theorem allowedChannels_toNat : ∀ n < 32, (allowedChannels n).toNat = 2 ^ n - 1 := by decide

/-- A mask that passed the check has no bit past the channels. -/
theorem isActive_of_le {active : UInt32} {channels c : Nat} (h : active &&& ~~~allowedChannels channels = 0)
    (hc : channels ≤ c) : isActive active c = false := by
  by_cases hwide : c < 32
  · have hn : channels < 32 := Nat.lt_of_le_of_lt hc hwide
    have hbit := congrArg (fun v : UInt32 => v.toBitVec.getLsbD c) h
    have hallowed : (allowedChannels channels).toBitVec.getLsbD c = false := by
      show (allowedChannels channels).toNat.testBit c = false
      rw [allowedChannels_toNat channels hn, Nat.testBit_two_pow_sub_one, decide_eq_false (Nat.not_lt.mpr hc)]
    simp only [UInt32.toBitVec_and, UInt32.toBitVec_not, BitVec.getLsbD_and, BitVec.getLsbD_not, hallowed, hwide] at hbit
    have hoff : active.toNat.testBit c = false := by
      rw [← UInt32.toNat_toBitVec, BitVec.testBit_toNat]
      simpa using hbit
    unfold isActive
    rw [hoff, Bool.and_false]
  · unfold isActive
    rw [decide_eq_false hwide]
    rfl

/-- The planes of a mask that passed the check are those of its bits. -/
theorem rank_countOnes {active : UInt32} {channels : Nat} (h : active &&& ~~~allowedChannels channels = 0)
    (hwidth : channels ≤ 32) : rank active channels = countOnes active := by
  have hall : countOnes active = Nat.count (isActive active · = true) 32 := by
    rw [← countP_range]
    refine List.countP_congr fun i hi => ?_
    unfold isActive
    rw [decide_eq_true (List.mem_range.mp hi), Bool.true_and]
  have hnone : Nat.count (fun k => isActive active (channels + k) = true) (32 - channels) = 0 :=
    Nat.count_iff_forall_not.mpr fun k _ => by
      rw [isActive_of_le h (Nat.le_add_right channels k)]
      exact Bool.false_ne_true
  rw [hall, rank, ← Nat.add_sub_cancel' hwidth, Nat.count_add, hnone, Nat.add_zero]

/-! ### The loops -/

theorem ok_bind {α β : Type} (x : α) (f : α → Except Fault β) : (Except.ok x >>= f) = f x := rfl

theorem fit_of_lt {n : Nat} (h : n < 2 ^ 32) : fit n = .ok n := if_pos h

theorem store_ok {width c n : Nat} {value : UInt32} {out : List UInt32} (hhere : n * width + c < out.length)
    (hfits : n * width + c < 2 ^ 32) : store width c n value out = .ok (out.set (n * width + c) value) := by
  unfold store
  rw [fit_of_lt (Nat.lt_of_le_of_lt (Nat.le_add_right _ c) hfits), ok_bind, fit_of_lt hfits, ok_bind, if_pos hhere]
  rfl

/-- The state after `n` samples of a channel whose plane begins at `start`. -/
structure Column (body : Bytes) (active : UInt32) (width c start n : Nat) (out : List UInt32) (s : Nat × List UInt32) :
    Prop where
  cursor : s.1 = start + if isActive active c then n * 4 else 0
  length : s.2.length = out.length
  written : ∀ k < n, s.2[k * width + c]? = some (if isActive active c then le32 body (start + k * 4) else 0)
  untouched : ∀ i, (∀ k < n, i ≠ k * width + c) → s.2[i]? = out[i]?

/-- One sample more. -/
theorem column_step {body : Bytes} {active : UInt32} {samples width c start n : Nat} {out : List UInt32}
    {s : Nat × List UInt32} (hc : c < width) (hn : n < samples) (hroom : samples * width ≤ out.length)
    (hfits : samples * width < 2 ^ 32) (hbody : body.length < 2 ^ 32)
    (hplane : isActive active c = true → start + samples * 4 ≤ body.length) (h : Column body active width c start n out s) :
    ∃ s', interleaveSample body active width c s n = .ok s' ∧ Column body active width c start (n + 1) out s' := by
  have hslot := slot_lt hc hn
  have hhere : n * width + c < s.2.length := by
    rw [h.length]
    omega
  have hpast : ∀ k < n, n * width + c ≠ k * width + c := by
    intro k hk heq
    exact Nat.ne_of_gt hk (slot_inj hc hc heq).1
  have hstore := fun value => (@store_ok _ _ _ value) hhere (Nat.lt_trans hslot hfits)
  have hrest : ∀ cursor value, cursor = start + (if isActive active c then (n + 1) * 4 else 0) →
      value = (if isActive active c then le32 body (start + n * 4) else 0) →
      Column body active width c start (n + 1) out (cursor, s.2.set (n * width + c) value) := by
    intro cursor value hcursor hvalue
    refine ⟨hcursor, by rw [List.length_set, h.length], fun k hk => ?_, fun i hi => ?_⟩
    · rcases Nat.lt_succ_iff_lt_or_eq.mp hk with hk | rfl
      · rw [List.getElem?_set_ne (hpast k hk), h.written k hk]
      · rw [List.getElem?_set_self hhere, hvalue]
    · rw [List.getElem?_set_ne (Ne.symm (hi n (Nat.lt_succ_self n)))]
      exact h.untouched i fun k hk => hi k (Nat.lt_succ_of_lt hk)
  unfold interleaveSample
  by_cases hon : isActive active c = true
  · have hcursor : s.1 = start + n * 4 := by rw [h.cursor, if_pos hon]
    have hinside := hplane hon
    have hnext : nextValue body s.1 = .ok (le32 body (start + n * 4), start + (n + 1) * 4) := by
      unfold nextValue
      rw [fit_of_lt (by omega), ok_bind, hcursor, if_pos (by omega), Nat.succ_mul]
      rfl
    refine ⟨_, ?_, hrest (start + (n + 1) * 4) (le32 body (start + n * 4)) ?_ ?_⟩
    · rw [if_pos hon, hnext, ok_bind]
      dsimp only
      rw [hstore]
      rfl
    · rw [if_pos hon]
    · rw [if_pos hon]
  · refine ⟨_, ?_, hrest s.1 0 ?_ ?_⟩
    · rw [if_neg hon]
      show (store width c n 0 s.2 >>= _) = _
      rw [hstore]
      rfl
    · rw [h.cursor, if_neg hon, if_neg hon]
    · rw [if_neg hon]

theorem column_ok {body : Bytes} {active : UInt32} {samples width c start : Nat} {out : List UInt32} (hc : c < width)
    (hroom : samples * width ≤ out.length) (hfits : samples * width < 2 ^ 32) (hbody : body.length < 2 ^ 32)
    (hplane : isActive active c = true → start + samples * 4 ≤ body.length) :
    ∃ s', interleaveChannel body active samples width (start, out) c = .ok s' ∧
      Column body active width c start samples out s' := by
  have hzero : Column body active width c start 0 out (start, out) := by
    refine ⟨?_, rfl, nofun, fun _ _ => rfl⟩
    rw [Nat.zero_mul, ite_self, Nat.add_zero]
  exact foldlM_range_ok (P := fun n s => Column body active width c start n out s) hzero
    fun n s hn h => column_step hc hn hroom hfits hbody hplane h

theorem rank_succ (active : UInt32) (c : Nat) : rank active (c + 1) = rank active c + if isActive active c then 1 else 0 :=
  Nat.count_succ _ c

theorem rank_mono (active : UInt32) {c c' : Nat} (h : c ≤ c') : rank active c ≤ rank active c' :=
  Nat.count_monotone _ h

/-- One channel more. -/
theorem filled_step {body : Bytes} {active : UInt32} {samples width c : Nat} {out : List UInt32} {s : Nat × List UInt32}
    (hc : c < width) (hroom : samples * width ≤ out.length) (hfits : samples * width < 2 ^ 32)
    (hbody : body.length < 2 ^ 32) (hlength : body.length = rank active width * samples * 4)
    (hcursor : s.1 = rank active c * samples * 4) (h : Filled body active samples width c out s.2) :
    ∃ s', interleaveChannel body active samples width s c = .ok s' ∧
      s'.1 = rank active (c + 1) * samples * 4 ∧ Filled body active samples width (c + 1) out s'.2 := by
  have hplane : isActive active c = true → s.1 + samples * 4 ≤ body.length := by
    intro hon
    have hle := rank_mono active hc
    rw [rank_succ, if_pos hon] at hle
    have := Nat.mul_le_mul_right (samples * 4) hle
    rw [Nat.succ_mul] at this
    rw [hcursor, hlength, Nat.mul_assoc, Nat.mul_assoc]
    exact this
  obtain ⟨s', hrun, hcol⟩ := (@column_ok _ _ _ _ _ _ s.2) hc (h.length.symm ▸ hroom) hfits hbody hplane
  refine ⟨s', hrun, ?_, ⟨hcol.length.trans h.length, fun c' hc' k hk => ?_, fun i hi => ?_⟩⟩
  · rw [hcol.cursor, hcursor, rank_succ]
    split
    · rw [Nat.succ_mul, Nat.add_mul]
    · rfl
  · rcases Nat.lt_succ_iff_lt_or_eq.mp hc' with hlt | rfl
    · rw [hcol.untouched _ fun k' _ heq => Nat.ne_of_lt hlt (slot_inj (Nat.lt_trans hlt hc) hc heq).2]
      exact h.written c' hlt k hk
    · rw [hcol.written k hk, sampleOf, offset, hcursor]
      congr 2
      rw [Nat.add_mul]
  · rw [hcol.untouched i fun k hk => hi c (Nat.lt_succ_self c) k hk]
    exact h.untouched i fun c' hc' k hk => hi c' (Nat.lt_succ_of_lt hc') k hk

/-- The whole of `interleave` on a body that holds the planes of the mask. -/
theorem interleave_ok {body : Bytes} {active : UInt32} {samples width : Nat} {out : List UInt32}
    (hroom : samples * width ≤ out.length) (hfits : samples * width < 2 ^ 32) (hbody : body.length < 2 ^ 32)
    (hlength : body.length = rank active width * samples * 4) :
    ∃ out', interleave body active samples width out = .ok (body.length, out') ∧
      Filled body active samples width width out out' := by
  have hzero : Filled body active samples width 0 out out := ⟨rfl, nofun, fun _ _ => rfl⟩
  obtain ⟨s, hrun, hcursor, hfilled⟩ := foldlM_range_ok
    (f := interleaveChannel body active samples width) (n := width) (s := (0, out))
    (P := fun c s => s.1 = rank active c * samples * 4 ∧ Filled body active samples width c out s.2)
    ⟨by rw [rank, Nat.count_zero, Nat.zero_mul, Nat.zero_mul], hzero⟩
    fun c s hc h => filled_step hc hroom hfits hbody hlength h.1 h.2
  exact ⟨s.2, by rw [hlength, ← hcursor]; exact hrun, hfilled⟩

/-- Every plane belongs to one active channel. -/
theorem exists_rank {active : UInt32} {width p : Nat} (h : p < rank active width) :
    ∃ c < width, isActive active c = true ∧ rank active c = p := by
  have hfew : ∀ hf : (Set.ofPred (isActive active · = true)).Finite, p < hf.toFinset.card :=
    fun hf => Nat.lt_of_lt_of_le h (Nat.count_le_card hf width)
  exact ⟨Nat.nth (isActive active · = true) p, Nat.nth_lt_of_lt_count h, Nat.nth_mem p hfew, Nat.count_nth hfew⟩

theorem byte_once {active : UInt32} {samples width i : Nat} (h : i < rank active width * samples * 4) :
    ∃! p : Nat × Nat, p.1 < width ∧ isActive active p.1 = true ∧ p.2 < samples ∧
      offset active samples p.1 p.2 ≤ i ∧ i < offset active samples p.1 p.2 + 4 := by
  have hword : i / 4 < rank active width * samples := Nat.div_lt_of_lt_mul (by rwa [Nat.mul_comm])
  have hsamples : 0 < samples := by
    rcases Nat.eq_zero_or_pos samples with rfl | hpos
    · rw [Nat.mul_zero] at hword
      exact absurd hword (Nat.not_lt_zero _)
    · exact hpos
  obtain ⟨c, hc, hon, hrank⟩ := exists_rank (Nat.div_lt_of_lt_mul (by rwa [Nat.mul_comm]) : i / 4 / samples < rank active width)
  have hsplit : i / 4 / samples * samples + i / 4 % samples = i / 4 := by
    rw [Nat.mul_comm]
    exact Nat.div_add_mod _ _
  refine ⟨(c, i / 4 % samples), ⟨hc, hon, Nat.mod_lt _ hsamples, ?_, ?_⟩, ?_⟩
  · rw [offset, hrank, hsplit]
    omega
  · rw [offset, hrank, hsplit]
    omega
  · rintro ⟨c', k'⟩ ⟨-, hon', hk', hlow, hhigh⟩
    dsimp only at hon' hk' hlow hhigh
    unfold offset at hlow hhigh
    have hsame : rank active c' * samples + k' = rank active c * samples + i / 4 % samples := by
      rw [hrank, hsplit]
      omega
    obtain ⟨hranks, hks⟩ := slot_inj hk' (Nat.mod_lt _ hsamples) hsame
    rw [Nat.count_injective hon' hon hranks, hks]

/-! ### What the header's checks leave -/

structure Checked (h : FrameHeader) (a : AudioHeader) : Prop where
  channels : a.channels.natAbs ≤ 32
  bounded : a.samplesPerChannel.natAbs * a.channels.natAbs * 4 ≤ audioMaxSize
  mask : a.activeChannels &&& ~~~allowedChannels a.channels.natAbs = 0
  room : audioHeaderSize ≤ h.dataLength
  planes : countOnes a.activeChannels * a.samplesPerChannel.natAbs * 4 + h.metadataLength = h.dataLength - audioHeaderSize

theorem checked_of_parse {h : FrameHeader} {data : Bytes} {a : AudioHeader} (hparse : parseAudioHeader h data = .ok a) :
    Checked h a := by
  unfold parseAudioHeader at hparse
  split at hparse
  · cases hparse
  · dsimp only at hparse
    split at hparse
    · cases hparse
    · next hformat =>
      split at hparse
      · cases hparse
      · next hsize =>
        split at hparse
        · cases hparse
        · next hmask =>
          split at hparse
          · cases hparse
          · next hroom =>
            split at hparse
            · cases hparse
            · next hplanes =>
              cases hparse
              refine ⟨?_, Nat.not_lt.mp hsize, Decidable.not_not.mp hmask, Nat.not_lt.mp hroom, Decidable.not_not.mp hplanes⟩
              dsimp only
              omega

/-- A frame as a channel publishes it. -/
structure Whole (f : Frame) : Prop where
  header : ∃ h, f.header = some h ∧ f.len = h.dataLength ∧ frameOf h f.payload = .ok ⟨h, f.video, f.audio, f.payload⟩
  inside : f.len ≤ f.buffer.length

theorem media_of_whole {f : Frame} {h : FrameHeader} {a : AudioHeader} (hheader : f.header = some h)
    (hlen : f.len = h.dataLength) (hinside : f.len ≤ f.buffer.length) (hc : Checked h a) :
    ∃ body, media f audioHeaderSize = some body ∧
      body.length = countOnes a.activeChannels * a.samplesPerChannel.natAbs * 4 := by
  have hmeta : metadataLength f = h.metadataLength := by
    unfold metadataLength
    rw [hheader]
    rfl
  have hroom := hc.room
  have hplanes := hc.planes
  refine ⟨(f.buffer.take (f.len - metadataLength f)).drop audioHeaderSize, ?_, ?_⟩
  · unfold media
    rw [if_neg (by omega)]
    dsimp only
    rw [if_neg (by omega)]
  · rw [List.length_drop, List.length_take, hmeta]
    omega

theorem interleaves_of_whole {f : Frame} {h : FrameHeader} (hw : Whole f) (hheader : f.header = some h)
    (haudio : h.frameType = .audio) : ∃ a, Interleaves f h a := by
  obtain ⟨h', hheader', hlen, hframe⟩ := hw.header
  obtain rfl := Option.some.inj (hheader.symm.trans hheader')
  unfold frameOf at hframe
  rw [haudio] at hframe
  dsimp only at hframe
  cases hparse : parseAudioHeader h f.payload with
  | error e =>
    rw [hparse] at hframe
    cases hframe
  | ok a =>
    rw [hparse] at hframe
    have hshown : f.audio = some a := (congrArg Published.audio (Except.ok.inj hframe)).symm
    have hc := checked_of_parse hparse
    have hrank := rank_countOnes hc.mask hc.channels
    have hbounded : a.samplesPerChannel.natAbs * a.channels.natAbs * 4 ≤ 1048576 := hc.bounded
    obtain ⟨body, hmedia, hbody⟩ := media_of_whole hheader hlen hw.inside hc
    refine ⟨a, ⟨hshown, hparse⟩, hw.inside, ⟨body, hmedia, hbody, fun out hroom => ?_⟩, fun i hi => ?_⟩
    · have hfew : rank a.activeChannels a.channels.natAbs ≤ a.channels.natAbs := Nat.count_le _
      have hsmall : body.length ≤ 1048576 := by
        rw [hbody, ← hrank, Nat.mul_comm (rank _ _)]
        exact Nat.le_trans (Nat.mul_le_mul_right 4 (Nat.mul_le_mul_left _ hfew)) hbounded
      refine interleave_ok hroom (by omega) (by omega) ?_
      rw [hbody, hrank]
    · rw [← hrank] at hi
      exact byte_once hi

/-! ### What the channel publishes -/

/-- Only a frame that was completed is returned, and completing it sets its length. -/
theorem settle_len {c c' : Channel} {h : FrameHeader} (hdone : c.settle h = .done c' .ok) :
    ∃ h, c'.frame.header = some h ∧ c'.frame.len = h.dataLength := by
  unfold Channel.settle at hdone
  split at hdone
  · unfold Frame.complete at hdone
    dsimp only at hdone
    cases htype : h.frameType with
    | metadata =>
      rw [htype] at hdone
      cases hdone
      exact ⟨h, rfl, rfl⟩
    | video =>
      rw [htype] at hdone
      dsimp only at hdone
      split at hdone
      · cases hdone
        exact ⟨h, rfl, rfl⟩
      · cases hdone
    | audio =>
      rw [htype] at hdone
      dsimp only at hdone
      split at hdone
      · cases hdone
        exact ⟨h, rfl, rfl⟩
      · cases hdone
  · cases hdone

theorem pass_len {c c' : Channel} {deadlineMs : Nat} {wait : Bool} {x : Io}
    (hdone : c.pass deadlineMs wait x = .done c' .ok) : ∃ h, c'.frame.header = some h ∧ c'.frame.len = h.dataLength := by
  unfold Channel.pass at hdone
  cases hread : x.read with
  | eof | interrupted | failed e =>
    rw [hread] at hdone
    cases hdone
  | wouldBlock =>
    rw [hread] at hdone
    dsimp only at hdone
    unfold Channel.idle at hdone
    extract_lets started limit at hdone
    split at hdone
    · cases hdone
    · split at hdone
      · cases hdone
      · split at hdone
        · cases hdone
        · split at hdone <;> cases hdone
  | data bytes =>
    rw [hread] at hdone
    dsimp only at hdone
    unfold Channel.arrive at hdone
    extract_lets budgetMs fixed at hdone
    split at hdone
    · split at hdone
      · cases hdone
      · unfold Channel.startBody at hdone
        split at hdone
        · cases (Progress.done.inj hdone).2
        · split at hdone
          · cases (Progress.done.inj hdone).2
          · exact settle_len hdone
    · exact settle_len hdone

theorem frameOf_ok {h : FrameHeader} {body : Bytes} {p : Published} (hf : frameOf h body = .ok p) :
    p.header = h ∧ p.payload = body := by
  unfold frameOf at hf
  split at hf
  · split at hf
    · cases hf
      exact ⟨rfl, rfl⟩
    · cases hf
  · split at hf
    · cases hf
      exact ⟨rfl, rfl⟩
    · cases hf
  · cases hf
    exact ⟨rfl, rfl⟩

/-- What the front of a stream holds is a frame that was checked. -/
theorem frontFrame_item {b rest : Bytes} {p : Published} (h : frontFrame b = .item p rest) :
    p.payload.length = p.header.dataLength ∧ frameOf p.header p.payload = .ok p := by
  unfold frontFrame at h
  split at h
  · cases h
  · split at h
    · cases h
    · next hdr _ =>
      split at h
      · cases h
      · next hlong =>
        split at h
        · cases h
        · next f hf =>
          cases h
          have hsame := frameOf_ok hf
          rw [hsame.1, hsame.2]
          refine ⟨?_, hf⟩
          rw [List.length_take]
          omega

theorem whole_of_pass {c c' : Channel} {deadlineMs : Nat} {wait : Bool} {x : Io} (hready : c.Ready)
    (hfit : x.read.fits c.targetLen = true) (hdone : c.pass deadlineMs wait x = .done c' .ok) : Whole c'.frame := by
  obtain ⟨h, hheader, hlen⟩ := pass_len hdone
  have hspec := pass_spec hready hfit deadlineMs wait
  rw [hdone] at hspec
  cases hspec with
  | frame hitem hshown _ _ _ =>
    obtain ⟨hlength, hframe⟩ := frontFrame_item hitem
    unfold Frame.shown at hshown
    rw [hheader] at hshown
    obtain rfl := Option.some.inj hshown
    refine ⟨⟨h, hheader, hlen, hframe⟩, ?_⟩
    dsimp only [Frame.payload] at hlength
    rw [List.length_take] at hlength
    omega

theorem step_whole {s s' : Line} {e : Event} (h : s.Inv ∧ (s.fresh = true → Whole s.channel.frame))
    (hstep : s.step e = .running s') : s'.Inv ∧ (s'.fresh = true → Whole s'.channel.frame) := by
  refine ⟨Line.step_inv h.1 hstep, fun hfresh => ?_⟩
  cases e with
  | call deadlineMs wait =>
    unfold Line.step at hstep
    dsimp only at hstep
    split at hstep
    · cases hstep
    · split at hstep
      · cases hstep
        cases hfresh
      · cases hstep
        cases hfresh
  | take replacement =>
    unfold Line.step at hstep
    dsimp only at hstep
    split at hstep
    · cases hstep
      cases hfresh
    · cases hstep
  | io x =>
    unfold Line.step at hstep
    dsimp only at hstep
    split at hstep
    · cases hstep
    · next deadlineMs wait hcall =>
      split at hstep
      · next hfit =>
        obtain ⟨hconn, hbefore⟩ := h.1.called (by rw [hcall]; rfl)
        split at hstep
        · cases hstep
          exact absurd (hbefore.symm.trans hfresh) Bool.false_ne_true
        · next c r hpass =>
          cases hstep
          have hr : r = .ok := eq_of_beq hfresh
          rw [hr] at hpass ⊢
          exact whole_of_pass (h.1.live hconn).2.1 hfit hpass
      · cases hstep

end AudioLemmas

open AudioLemmas

/-- In every run over every stream, a call that has just returned a frame: one that is audio
passed its checks and interleaves. -/
theorem published_audio_interleaves (frame : Frame) (es : List Event) (s : Line) (h : FrameHeader)
    (hrun : drive Line.step (Line.start frame) es = .running s) (hfresh : s.fresh = true)
    (hheader : s.channel.frame.header = some h) (haudio : h.frameType = .audio) :
    ∃ a, Interleaves s.channel.frame h a := by
  have hinv := drive_invariant (I := fun s => s.Inv ∧ (s.fresh = true → Whole s.channel.frame))
    (fun _ _ _ => step_whole) ⟨Line.start_inv frame, fun h => absurd h Bool.false_ne_true⟩ hrun
  exact interleaves_of_whole (hinv.2 hfresh) hheader haudio

/-- A frame of two samples on the second of two channels, with two bytes of metadata: it
arrives in one read for its fixed header and one for its body. -/
def stereoHeader : Bytes := [1, 4] ++ List.replicate 8 0 ++ [2, 0] ++ [34, 0, 0, 0]

def stereoBody : Bytes :=
  [0x46, 0x50, 0x41, 0x31] ++ [0x80, 0xBB, 0, 0] ++ [2, 0, 0, 0] ++ [2, 0, 0, 0] ++ [2, 0, 0, 0] ++ [0, 0, 0, 0] ++
    [0, 0, 0x80, 0x3F] ++ [0, 0, 0x80, 0xBF] ++ [0x41, 0x42]

def stereoEvents : List Event :=
  [.receive 1000, .io { read := .data stereoHeader }, .io { read := .data stereoBody }]

theorem stereo_interleaves : ∃ s : Line, drive Line.step (Line.start {}) stereoEvents = .running s ∧ s.fresh = true ∧
    ∃ a, Interleaves s.channel.frame ⟨.audio, 0, 2, 34⟩ a := by
  refine ⟨_, rfl, rfl, ?_⟩
  exact published_audio_interleaves {} stereoEvents _ ⟨.audio, 0, 2, 34⟩ rfl rfl rfl rfl

end OmtClient.Receiver.Audio
