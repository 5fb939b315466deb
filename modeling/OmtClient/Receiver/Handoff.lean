import OmtClient.Lib.Fifo
import OmtClient.Omt.Channel

/-!
# The hand-off queue

`Queue` of `crates/omt-receiver/src/handoff.rs`: frames between the socket and the display
or the audio device. Video is a single slot; audio queues in order and sheds its oldest
frames past a backlog of 100 ms or the byte cap.

The rounded duration of a frame (`audio_interval_ns`) is a parameter. A buffer is kept with
its capacity, which tells whether it holds an allocation. `saturated` is no field of the source: it records whether a
saturating subtraction ever met less than it takes away.

1. `queue_accounts`: what holds after any sequence of calls.
-/

namespace OmtClient.Receiver.Handoff

open OmtClient.Lib OmtClient.Omt

def videoByteCap : Nat := videoMaxSize + 4096
def audioByteCap : Nat := 8 * 1024 * 1024
def audioBacklogNs : Nat := 100000000
def spareBuffers : Nat := 4

inductive QueueKind
  | video
  | audio
  deriving DecidableEq, Repr

/-- A `Vec<u8>`. -/
structure Buffer where
  bytes : Bytes
  capacity : Nat
  deriving DecidableEq, Repr

/-- A frame, with the capacity of its buffer. -/
structure Held extends Frame where
  capacity : Nat := 0
  deriving DecidableEq, Repr

def Held.vec (f : Held) : Buffer := ⟨f.buffer, f.capacity⟩

structure Queue where
  frames : List Held
  bytes : Nat
  byteCap : Nat
  intervalNs : Option Nat
  kind : QueueKind
  spares : List Buffer
  saturated : Bool
  deriving DecidableEq, Repr

def Queue.new (kind : QueueKind) (byteCap : Nat) : Queue := ⟨[], 0, byteCap, none, kind, [], false⟩

section

variable (interval : AudioHeader → Option Nat)

/-! ## The calls -/

/-- `take_spare`. -/
def Queue.takeSpare (q : Queue) : Buffer × Queue :=
  (q.spares.getLast?.getD ⟨[], 0⟩, { q with spares := q.spares.dropLast })

/-- `recycle`. -/
def Queue.recycle (q : Queue) (buffer : Buffer) : Queue :=
  if 0 < buffer.capacity ∧ q.spares.length < spareBuffers then { q with spares := q.spares ++ [buffer] } else q

/-- `pop`, which `drop_oldest` starts with too. -/
def Queue.pop (q : Queue) : Option (Held × Queue) :=
  match q.frames with
  | [] => none
  | f :: rest =>
    some (f, { q with
      frames := rest
      bytes := q.bytes - f.len
      saturated := q.saturated || decide (q.bytes < f.len) })

/-- `drop_oldest`. -/
def Queue.dropOldest (q : Queue) : Queue :=
  match q.pop with
  | none => q
  | some (f, q') => q'.recycle f.vec

/-- `audio_backlog_exceeded`. -/
def Queue.audioBacklogExceeded (q : Queue) : Bool :=
  match q.intervalNs with
  | some interval => decide (1 < q.frames.length ∧ audioBacklogNs < interval * q.frames.length)
  | none => false

/-- A loop that drops the oldest frame while a condition holds, with the number of frames
dropped. It ends: each turn takes a frame. -/
def Queue.dropWhile (cond : Queue → Bool) : Nat → Queue → Nat × Queue
  | 0, q => (0, q)
  | n + 1, q =>
    if cond q then
      let (dropped, q') := Queue.dropWhile cond n (q.dropOldest)
      (dropped + 1, q')
    else (0, q)

/-- The frames that a queue is for. -/
def Queue.wanted (q : Queue) (frame : Held) : Bool :=
  match q.kind with
  | .video => frame.video.isSome && (frame.header.map (·.frameType)) == some .video
  | .audio => frame.audio.isSome && (frame.header.map (·.frameType)) == some .audio

/-- Why frames are dropped after one has been added. -/
def Queue.overfull (q : Queue) : Bool :=
  decide (1 < q.frames.length) && (decide (q.byteCap < q.bytes) || q.audioBacklogExceeded)

/-- What is done before a frame is stored: video empties its slot, audio notes the duration. -/
def Queue.prepare (q : Queue) (frame : Held) : Nat × Queue :=
  match q.kind with
  | .video => q.dropWhile (fun q => !q.frames.isEmpty) q.frames.length
  | .audio => (0, { q with intervalNs := (frame.audio.bind interval).or q.intervalNs })

/-- `push`: how many older frames were dropped. `reserves` tells whether `try_reserve`
succeeds. -/
def Queue.push (q : Queue) (frame : Held) (reserves : Bool) : Nat × Queue :=
  if !q.wanted frame || decide (q.byteCap < frame.len) then (0, q.recycle frame.vec)
  else
    let (dropped, q) := q.prepare interval frame
    if !reserves then (dropped, q.recycle frame.vec)
    else
      let q := { q with bytes := q.bytes + frame.len, frames := q.frames ++ [frame] }
      let (more, q) := q.dropWhile Queue.overfull q.frames.length
      (dropped + more, q)

/-! ## Runs -/

inductive Call
  | push (frame : Held) (reserves : Bool)
  | pop
  | recycle (buffer : Buffer)
  | takeSpare
  deriving DecidableEq, Repr

/-- A queue with what went through it: the frames it stored, the frames it gave out, and the
drops that it reported. -/
structure Traffic where
  queue : Queue
  accepted : List Held
  popped : List Held
  dropped : Nat
  deriving DecidableEq, Repr

/-- A frame that `push` stores. -/
def Queue.accepts (q : Queue) (frame : Held) (reserves : Bool) : Bool :=
  q.wanted frame && decide (frame.len ≤ q.byteCap) && reserves

def Traffic.step (t : Traffic) : Call → Traffic
  | .push frame reserves =>
    { queue := (t.queue.push interval frame reserves).2
      accepted := t.accepted ++ if t.queue.accepts frame reserves then [frame] else []
      popped := t.popped
      dropped := t.dropped + (t.queue.push interval frame reserves).1 }
  | .pop =>
    match t.queue.pop with
    | none => t
    | some (f, q) => { t with queue := q, popped := t.popped ++ [f] }
  | .recycle buffer => { t with queue := t.queue.recycle buffer }
  | .takeSpare => { t with queue := t.queue.takeSpare.2 }

def run (kind : QueueKind) (byteCap : Nat) (calls : List Call) : Traffic :=
  calls.foldl (Traffic.step interval) ⟨Queue.new kind byteCap, [], [], 0⟩

/-! ## What the calls keep -/

/-- The counters of a queue are what they stand for. -/
structure Sound (q : Queue) : Prop where
  bytes : q.bytes = (q.frames.map fun f => f.len).sum
  exact : q.saturated = false
  spares : q.spares.length ≤ spareBuffers

/-- The latest frame's duration, as often as there are frames, is no backlog. -/
def InTime (frames : List Held) : Prop :=
  ∀ f h d, frames.getLast? = some f → f.audio = some h → interval h = some d → 1 < frames.length →
    frames.length * d ≤ audioBacklogNs

/-- What holds of a queue of a kind and a cap, with what went through it. -/
structure Inv (kind : QueueKind) (cap : Nat) (t : Traffic) : Prop where
  sound : Sound t.queue
  sameKind : t.queue.kind = kind
  sameCap : t.queue.byteCap = cap
  capped : t.queue.bytes ≤ cap
  conserved : Conserved t.accepted t.popped t.dropped t.queue.frames
  single : kind = .video → t.queue.frames.length ≤ 1
  inTime : kind = .audio → InTime interval t.queue.frames

namespace HandoffLemmas

variable {interval} {q q' : Queue} {f : Held} {rest : List Held}

@[simp] theorem recycle_frames (buffer : Buffer) : (q.recycle buffer).frames = q.frames := by
  unfold Queue.recycle
  split <;> rfl

/-- What a call leaves of the queue it was made with. -/
structure Same (q q' : Queue) : Prop where
  byteCap : q'.byteCap = q.byteCap
  intervalNs : q'.intervalNs = q.intervalNs
  kind : q'.kind = q.kind

theorem Same.refl : Same q q := ⟨rfl, rfl, rfl⟩

theorem Same.trans {q'' : Queue} (h : Same q q') (h' : Same q' q'') : Same q q'' :=
  ⟨h'.byteCap.trans h.byteCap, h'.intervalNs.trans h.intervalNs, h'.kind.trans h.kind⟩

theorem recycle_spec (h : Sound q) (buffer : Buffer) :
    Sound (q.recycle buffer) ∧ Same q (q.recycle buffer) := by
  unfold Queue.recycle
  split
  · next hroom =>
    refine ⟨⟨h.bytes, h.exact, ?_⟩, rfl, rfl, rfl⟩
    rw [List.length_append]
    exact hroom.2
  · exact ⟨h, .refl⟩

/-- Taking the oldest frame takes away no more than there is. -/
theorem pop_spec (h : Sound q) (hq : q.pop = some (f, q')) :
    Sound q' ∧ Same q q' ∧ q.frames = f :: q'.frames ∧ q'.bytes ≤ q.bytes := by
  unfold Queue.pop at hq
  cases hframes : q.frames with
  | nil =>
    rw [hframes] at hq
    cases hq
  | cons g rest =>
    rw [hframes] at hq
    cases hq
    have hsum : q.bytes = f.len + (rest.map fun f => f.len).sum := by
      rw [h.bytes, hframes, List.map_cons, List.sum_cons]
    refine ⟨⟨?_, ?_, h.spares⟩, ⟨rfl, rfl, rfl⟩, rfl, Nat.sub_le _ _⟩
    · dsimp only
      rw [hsum, Nat.add_sub_cancel_left]
    · dsimp only
      rw [h.exact, Bool.false_or, decide_eq_false_iff_not, hsum]
      exact Nat.not_lt.mpr (Nat.le_add_right _ _)

theorem dropOldest_spec (h : Sound q) (hframes : q.frames = f :: rest) :
    Sound (q.dropOldest) ∧ Same q (q.dropOldest) ∧ (q.dropOldest).frames = rest := by
  unfold Queue.dropOldest
  cases hpop : q.pop with
  | none =>
    unfold Queue.pop at hpop
    rw [hframes] at hpop
    cases hpop
  | some p =>
    obtain ⟨g, q'⟩ := p
    obtain ⟨hsound, hsame, hcons, _⟩ := pop_spec h hpop
    obtain ⟨hsound', hsame'⟩ := recycle_spec hsound g.vec
    refine ⟨hsound', hsame.trans hsame', ?_⟩
    rw [hframes] at hcons
    exact (recycle_frames _).trans (List.cons.inj hcons).2.symm

/-- A loop that drops: it stops when its condition fails, and reports every frame it drops. -/
theorem dropWhile_spec {cond : Queue → Bool} (hcond : ∀ q : Queue, cond q = true → q.frames ≠ []) (h : Sound q) {n : Nat}
    (hn : q.frames.length ≤ n) :
    Sound (q.dropWhile cond n).2 ∧ Same q (q.dropWhile cond n).2 ∧
      cond (q.dropWhile cond n).2 = false ∧ (q.dropWhile cond n).2.frames <:+ q.frames ∧
      ∀ taken handed dropped, Conserved taken handed dropped q.frames →
        Conserved taken handed (dropped + (q.dropWhile cond n).1) (q.dropWhile cond n).2.frames := by
  induction n generalizing q with
  | zero =>
    refine ⟨h, .refl, ?_, List.suffix_refl _, fun _ _ _ hc => hc⟩
    exact Bool.eq_false_iff.mpr fun hc => hcond q hc (List.length_eq_zero_iff.mp (Nat.le_zero.mp hn))
  | succ n ih =>
    unfold Queue.dropWhile
    by_cases hc : cond q = true
    · rw [if_pos hc]
      dsimp only
      obtain ⟨f, rest, hframes⟩ := List.exists_cons_of_ne_nil (hcond q hc)
      obtain ⟨hsound, hsame, hrest⟩ := dropOldest_spec h hframes
      rw [hframes, List.length_cons] at hn
      obtain ⟨hsound', hsame', hstop, hsuffix, hconserved⟩ := ih hsound (by rw [hrest]; omega)
      rw [hrest] at hsuffix hconserved
      refine ⟨hsound', hsame.trans hsame', hstop, ?_, fun taken handed dropped hc => ?_⟩
      · rw [hframes]
        exact hsuffix.trans (List.suffix_cons f rest)
      · rw [hframes] at hc
        have := hconserved taken handed (dropped + 1) hc.drop
        rwa [Nat.add_assoc, Nat.add_comm 1] at this
    · rw [if_neg hc]
      exact ⟨h, .refl, Bool.eq_false_iff.mpr hc, List.suffix_refl _, fun _ _ _ hc => hc⟩

/-- What is done before a frame is stored. -/
theorem prepare_spec (h : Sound q) :
    Sound (q.prepare interval f).2 ∧ (q.prepare interval f).2.byteCap = q.byteCap ∧
      (q.prepare interval f).2.kind = q.kind ∧
      (q.kind = .video → (q.prepare interval f).2.frames = []) ∧
      (q.kind = .audio → (q.prepare interval f).2.frames = q.frames ∧
        (q.prepare interval f).2.intervalNs = (f.audio.bind interval).or q.intervalNs) ∧
      ∀ taken handed dropped, Conserved taken handed dropped q.frames →
        Conserved taken handed (dropped + (q.prepare interval f).1) (q.prepare interval f).2.frames := by
  unfold Queue.prepare
  cases hkind : q.kind with
  | video =>
    have hcond : ∀ q : Queue, (!q.frames.isEmpty) = true → q.frames ≠ [] := by
      intro q hq hnil
      rw [hnil] at hq
      cases hq
    obtain ⟨hsound, hsame, hstop, _, hconserved⟩ := dropWhile_spec hcond h (Nat.le_refl _)
    rw [Bool.not_eq_false', List.isEmpty_iff] at hstop
    exact ⟨hsound, hsame.byteCap, hsame.kind.trans hkind, fun _ => hstop, nofun, hconserved⟩
  | audio => exact ⟨⟨h.bytes, h.exact, h.spares⟩, rfl, rfl, nofun, fun _ => ⟨rfl, rfl⟩, fun _ _ _ hc => hc⟩

/-- What is left of a queue that has been added to ends with what was added. -/
theorem suffix_last {frames : List Held} {g : Held} (h : frames <:+ rest ++ [f]) (hlast : frames.getLast? = some g) :
    g = f := by
  obtain ⟨front, hfront⟩ := h
  have hboth := congrArg List.getLast? hfront
  cases frames with
  | nil => cases hlast
  | cons x xs =>
    rw [List.getLast?_append_of_ne_nil _ (List.cons_ne_nil _ _), hlast, List.getLast?_concat] at hboth
    exact Option.some.inj hboth

/-- The queue once a frame has been stored and the excess dropped. -/
theorem store_spec (h : Sound q) (hfits : f.len ≤ q.byteCap) {q₂ q₃ : Queue} {more : Nat}
    (hq₂ : q₂ = { q with bytes := q.bytes + f.len, frames := q.frames ++ [f] })
    (hq₃ : (more, q₃) = q₂.dropWhile Queue.overfull q₂.frames.length) :
    Sound q₃ ∧ Same q q₃ ∧ q₃.bytes ≤ q.byteCap ∧ q₃.frames <:+ q.frames ++ [f] ∧ q₃.overfull = false ∧
      ∀ taken handed dropped, Conserved taken handed dropped (q.frames ++ [f]) →
        Conserved taken handed (dropped + more) q₃.frames := by
  have hcond : ∀ q : Queue, q.overfull = true → q.frames ≠ [] := by
    intro q hq hnil
    rw [Queue.overfull, hnil] at hq
    cases hq
  have hsound₂ : Sound q₂ := by
    rw [hq₂]
    refine ⟨?_, h.exact, h.spares⟩
    dsimp only
    rw [h.bytes, List.map_append, List.sum_append]
    rfl
  obtain ⟨hsound, hsame, hstop, hsuffix, hconserved⟩ := dropWhile_spec hcond hsound₂ (Nat.le_refl _)
  rw [← hq₃] at hsound hsame hstop hsuffix hconserved
  dsimp only at hsound hsame hstop hsuffix hconserved
  have hframes : q₂.frames = q.frames ++ [f] := by rw [hq₂]
  rw [hframes] at hsuffix hconserved
  have hsame : Same q q₃ := by
    rw [hq₂] at hsame
    exact ⟨hsame.byteCap, hsame.intervalNs, hsame.kind⟩
  refine ⟨hsound, hsame, ?_, hsuffix, hstop, hconserved⟩
  -- the loop stops within the cap, or with the frame that was added alone
  cases hq : q₃.frames with
  | nil =>
    rw [hsound.bytes, hq]
    exact Nat.zero_le _
  | cons g gs =>
    cases gs with
    | nil =>
      have hg : g = f := suffix_last hsuffix (by rw [hq]; rfl)
      rw [hsound.bytes, hq, hg]
      exact hfits
    | cons g' gs =>
      have hlong : 1 < q₃.frames.length := by
        rw [hq, List.length_cons, List.length_cons]
        omega
      rw [Queue.overfull, decide_eq_true hlong, Bool.true_and, Bool.or_eq_false_iff, decide_eq_false_iff_not,
        hsame.byteCap] at hstop
      exact Nat.not_lt.mp hstop.1

theorem inTime_of_overfull (h : q.overfull = false) {d : Nat} (hd : q.intervalNs = some d) (hlong : 1 < q.frames.length) :
    q.frames.length * d ≤ audioBacklogNs := by
  rw [Queue.overfull, decide_eq_true hlong, Bool.true_and, Bool.or_eq_false_iff, Queue.audioBacklogExceeded, hd] at h
  have := h.2
  dsimp only at this
  rw [decide_eq_false_iff_not, not_and, Nat.not_lt, Nat.mul_comm] at this
  exact this hlong

variable {kind : QueueKind} {cap : Nat} {t : Traffic}

/-- A frame that is not stored leaves the frames as they are, or none of them. -/
theorem unstored_inv (h : Inv interval kind cap t) {dropped : Nat} (hsound : Sound q) (hkind : q.kind = kind)
    (hcap : q.byteCap = cap) (hconserved : Conserved t.accepted t.popped dropped q.frames)
    (hframes : q.frames = t.queue.frames ∨ q.frames = []) : Inv interval kind cap ⟨q, t.accepted, t.popped, dropped⟩ := by
  refine ⟨hsound, hkind, hcap, ?_, hconserved, fun hvideo => ?_, fun haudio => ?_⟩
  · dsimp only
    rw [hsound.bytes]
    rcases hframes with hframes | hframes
    · rw [hframes, ← h.sound.bytes]
      exact h.capped
    · rw [hframes]
      exact Nat.zero_le _
  · dsimp only
    rcases hframes with hframes | hframes
    · rw [hframes]
      exact h.single hvideo
    · rw [hframes]
      exact Nat.zero_le _
  · dsimp only
    rcases hframes with hframes | hframes
    · rw [hframes]
      exact h.inTime haudio
    · rw [hframes]
      exact fun f h d hlast => nomatch hlast

theorem push_inv (h : Inv interval kind cap t) (reserves : Bool) :
    Inv interval kind cap (t.step interval (.push f reserves)) := by
  unfold Traffic.step Queue.push Queue.accepts
  dsimp only
  by_cases hok : t.queue.wanted f = true ∧ f.len ≤ t.queue.byteCap
  · obtain ⟨hwanted, hfits⟩ := hok
    have hover : decide (t.queue.byteCap < f.len) = false := decide_eq_false (Nat.not_lt.mpr hfits)
    rw [hwanted, hover, decide_eq_true hfits, Bool.not_true, Bool.false_or, if_neg Bool.false_ne_true, Bool.true_and,
      Bool.true_and]
    obtain ⟨hsound, hcap, hkind, hvideo, haudio, hconserved⟩ :=
      (@prepare_spec interval _ f) h.sound
    have hprepared := hconserved _ _ _ h.conserved
    generalize t.queue.prepare interval f = p at hsound hcap hkind hvideo haudio hprepared ⊢
    obtain ⟨dropped, q⟩ := p
    dsimp only at hsound hcap hkind hvideo haudio hprepared ⊢
    cases reserves with
    | false =>
      rw [Bool.not_false, if_pos rfl, if_neg Bool.false_ne_true, List.append_nil]
      obtain ⟨hsound', hsame⟩ := recycle_spec hsound f.vec
      refine unstored_inv h hsound' (hsame.kind.trans (hkind.trans h.sameKind)) (hsame.byteCap.trans (hcap.trans h.sameCap))
        (by rw [recycle_frames]; exact hprepared) ?_
      rw [recycle_frames]
      cases hq : t.queue.kind with
      | video => exact .inr (hvideo hq)
      | audio => exact .inl (haudio hq).1
    | true =>
      rw [Bool.not_true, if_neg Bool.false_ne_true, if_pos rfl]
      obtain ⟨hsound', hsame, hcapped, hsuffix, hstop, hconserved'⟩ :=
        store_spec hsound (hcap ▸ hfits) rfl rfl
      have hnow := hconserved' _ _ _ (hprepared.push f)
      rw [Nat.add_assoc] at hnow
      refine ⟨hsound', hsame.kind.trans (hkind.trans h.sameKind), hsame.byteCap.trans (hcap.trans h.sameCap),
        Nat.le_trans hcapped (Nat.le_of_eq (hcap.trans h.sameCap)), hnow, fun hk => ?_, fun hk => ?_⟩
      · refine Nat.le_trans hsuffix.length_le ?_
        rw [hvideo (h.sameKind.trans hk)]
        exact Nat.le_refl 1
      · intro g hdr d hlast hg hd hlong
        cases suffix_last hsuffix hlast
        refine inTime_of_overfull hstop ?_ hlong
        rw [hsame.intervalNs, (haudio (h.sameKind.trans hk)).2, hg, Option.bind_some, hd]
        rfl
  · have hrefused : (!t.queue.wanted f || decide (t.queue.byteCap < f.len)) = true := by
      rw [Bool.or_eq_true, Bool.not_eq_true', decide_eq_true_iff]
      by_cases hwanted : t.queue.wanted f = true
      · exact .inr (Nat.not_le.mp fun hfits => hok ⟨hwanted, hfits⟩)
      · exact .inl (Bool.eq_false_iff.mpr hwanted)
    have hnot : (t.queue.wanted f && decide (f.len ≤ t.queue.byteCap)) = false := by
      rw [Bool.eq_false_iff, ne_eq, Bool.and_eq_true, decide_eq_true_iff]
      exact hok
    obtain ⟨hsound, hsame⟩ := recycle_spec h.sound f.vec
    rw [if_pos hrefused, hnot, Bool.false_and, if_neg Bool.false_ne_true, List.append_nil]
    exact unstored_inv h hsound (hsame.kind.trans h.sameKind) (hsame.byteCap.trans h.sameCap)
      (by rw [recycle_frames]; exact h.conserved) (.inl (recycle_frames _))

theorem pop_inv (h : Inv interval kind cap t) : Inv interval kind cap (t.step interval .pop) := by
  unfold Traffic.step
  cases hpop : t.queue.pop with
  | none => exact h
  | some p =>
    obtain ⟨f, q⟩ := p
    obtain ⟨hsound, hsame, hframes, hbytes⟩ := pop_spec h.sound hpop
    have hconserved := h.conserved
    have hsingle := h.single
    have htime := h.inTime
    rw [hframes] at hconserved hsingle htime
    refine ⟨hsound, hsame.kind.trans h.sameKind, hsame.byteCap.trans h.sameCap, Nat.le_trans hbytes h.capped,
      hconserved.pop, fun hk => Nat.le_trans (Nat.le_succ _) (hsingle hk), fun hk => ?_⟩
    intro g hdr d hlast hg hd hlong
    dsimp only at hlast hlong ⊢
    -- the latest frame is still there
    have hlast' : (f :: q.frames).getLast? = some g := by
      cases hq : q.frames with
      | nil =>
        rw [hq] at hlong
        exact absurd hlong (by decide)
      | cons x xs =>
        rw [hq] at hlast
        rw [List.getLast?_cons_cons]
        exact hlast
    have hbound := htime hk g hdr d hlast' hg hd (Nat.lt_succ_of_lt hlong)
    exact Nat.le_trans (Nat.mul_le_mul_right d (Nat.le_succ _)) hbound

theorem step_inv (h : Inv interval kind cap t) (call : Call) : Inv interval kind cap (t.step interval call) := by
  cases call with
  | push f reserves => exact push_inv h reserves
  | pop => exact pop_inv h
  | recycle buffer =>
    obtain ⟨hsound, hsame⟩ := recycle_spec h.sound buffer
    exact unstored_inv h hsound (hsame.kind.trans h.sameKind) (hsame.byteCap.trans h.sameCap)
      (by rw [recycle_frames]; exact h.conserved) (.inl (recycle_frames _))
  | takeSpare =>
    have hsound : Sound t.queue.takeSpare.2 := by
      refine ⟨h.sound.bytes, h.sound.exact, ?_⟩
      exact Nat.le_trans (List.length_dropLast ▸ Nat.sub_le _ _) h.sound.spares
    exact unstored_inv h hsound h.sameKind h.sameCap h.conserved (.inl rfl)

theorem inv_new : Inv interval kind cap ⟨Queue.new kind cap, [], [], 0⟩ :=
  ⟨⟨rfl, rfl, Nat.zero_le _⟩, rfl, rfl, Nat.zero_le _, .empty, fun _ => Nat.zero_le _, fun _ _ _ _ hlast => nomatch hlast⟩

end HandoffLemmas

open HandoffLemmas

theorem run_inv (kind : QueueKind) (byteCap : Nat) (calls : List Call) :
    Inv interval kind byteCap (run interval kind byteCap calls) := by
  unfold run
  suffices hall : ∀ t, Inv interval kind byteCap t → Inv interval kind byteCap (calls.foldl (Traffic.step interval) t)
    from hall _ inv_new
  induction calls with
  | nil => exact fun t h => h
  | cons call calls ih => exact fun t h => ih _ (step_inv h call)

/-- What a queue of a kind and a cap owes for what went through it. -/
structure Accounts (kind : QueueKind) (byteCap : Nat) (t : Traffic) : Prop where
  bytes : t.queue.bytes = (t.queue.frames.map fun f => f.len).sum
  capped : t.queue.bytes ≤ byteCap
  unsaturated : t.queue.saturated = false
  spares : t.queue.spares.length ≤ spareBuffers
  /-- The frames stored are those that went, each given out or dropped, and then those held. -/
  conserved : Conserved t.accepted t.popped t.dropped t.queue.frames
  ordered : (t.popped ++ t.queue.frames).Sublist t.accepted
  counted : t.accepted.length = t.popped.length + t.dropped + t.queue.frames.length
  newest : kind = .video → t.queue.frames.length ≤ 1 ∧ ∀ f ∈ t.queue.frames, t.accepted.getLast? = some f
  backlog : kind = .audio → ∀ f h d, t.queue.frames.getLast? = some f → f.audio = some h → interval h = some d →
    t.queue.frames.length * d ≤ audioBacklogNs ∨ t.queue.frames.length = 1

/-- **The hand-off queue accounts for every frame.** After any calls on a queue of either kind
and any cap: its bytes are those of its frames and within the cap, and no subtraction has
saturated; the spares are bounded; the frames it stored are those it gave out or dropped, in
order, and those it holds, with every drop reported; a video queue holds one frame at most,
the newest; and an audio queue holds no backlog past 100 ms by the latest frame's duration. -/
theorem queue_accounts (kind : QueueKind) (byteCap : Nat) (calls : List Call) :
    Accounts interval kind byteCap (run interval kind byteCap calls) := by
  have hinv := run_inv interval kind byteCap calls
  generalize run interval kind byteCap calls = t at hinv
  refine ⟨hinv.sound.bytes, hinv.capped, hinv.sound.exact, hinv.sound.spares, hinv.conserved, hinv.conserved.sublist,
    hinv.conserved.length_eq, fun hk => ⟨hinv.single hk, fun f hf => ?_⟩, fun hk f h d hlast hf hd => ?_⟩
  · obtain ⟨g, hg⟩ : ∃ g, t.queue.frames = [g] := by
      refine List.length_eq_one_iff.mp (Nat.le_antisymm (hinv.single hk) ?_)
      exact List.length_pos_of_mem hf
    rw [hg] at hf
    cases List.mem_singleton.mp hf
    have hconserved := hinv.conserved
    rw [hg] at hconserved
    exact hconserved.newest
  · by_cases hlong : 1 < t.queue.frames.length
    · exact .inl (hinv.inTime hk f h d hlast hf hd hlong)
    · have hpos : 0 < t.queue.frames.length := List.length_pos_of_mem (List.mem_of_getLast? hlast)
      exact .inr (Nat.le_antisymm (Nat.not_lt.mp hlong) hpos)

end

end OmtClient.Receiver.Handoff
