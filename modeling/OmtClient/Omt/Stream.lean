import OmtClient.Omt.Channel

/-!
# The channel reads the stream

Whatever the segmentation of the byte stream and the mix of calls, a channel
publishes the frames of the stream read at once (`omtFraming.parse`). The
invariant is that what was received is the frames published followed by the
bytes the channel keeps of the frame it is in.

A frame whose extended header is refused leaves no header visible. A frame whose
fixed header is refused leaves the channel's frame as it was: when the frame
before it was not taken, its header stays visible.

Results:
1. `pass_spec`: what one pass of the read loop can do.
2. `line_inv`: the invariant over every run.
3. `line_reads_stream`: the channel against the stream read at once.
4. `refused_header_stays_visible`: the run that shows the earlier header.
-/

namespace OmtClient.Omt

open OmtClient.Lib

/-- The bytes the channel keeps of the frame it is in. -/
def Channel.kept (c : Channel) : Bytes :=
  match c.pending.header with
  | none => c.pending.fixed
  | some _ => c.pending.fixed ++ c.frame.buffer.take c.pending.bodyLen

/-- A channel between two reads: its frame is incomplete, and the body slice of
the next read lies inside the frame buffer. -/
structure Channel.Ready (c : Channel) : Prop where
  head : c.pending.header = none → c.pending.fixed.length < headerSize ∧ c.pending.bodyLen = 0
  body : ∀ h, c.pending.header = some h → c.pending.fixed.length = headerSize ∧
    parseFrameHeader c.pending.fixed = .ok h ∧ c.pending.bodyLen < h.dataLength ∧
    h.dataLength ≤ c.frame.buffer.length

/-- The read completes a fixed header that is refused, for what it says or for
want of memory. -/
def Channel.RefusesHeader (c : Channel) (x : Io) : Prop :=
  ∃ bytes, x.read = .data bytes ∧ c.pending.header = none ∧
    (c.pending.fixed ++ bytes).length = headerSize ∧
    ((∃ e, parseFrameHeader (c.pending.fixed ++ bytes) = .error e) ∨
      ∃ h, parseFrameHeader (c.pending.fixed ++ bytes) = .ok h ∧
        c.frame.buffer.length < h.dataLength ∧ x.alloc = false)

/-- What one pass of the read loop can do with a channel. -/
inductive PassSpec (c : Channel) (x : Io) : Progress Channel Recv → Prop
  | going {c' : Channel} : c'.Ready → c'.kept = c.kept ++ x.read.bytes →
      c'.connected = c.connected → ¬ c.RefusesHeader x → PassSpec c x (.running c')
  | frame {c' : Channel} {f : Published} :
      frontFrame (c.kept ++ x.read.bytes) = .item f [] → c'.frame.shown = some f →
      c'.pending = {} → c'.connected = c.connected → ¬ c.RefusesHeader x →
      PassSpec c x (.done c' .ok)
  | waits {text : String} : x.read.bytes = [] → ¬ c.RefusesHeader x →
      PassSpec c x (.done c (.wouldBlock text))
  | timedOut : x.read.bytes = [] → ¬ c.RefusesHeader x → PassSpec c x (.done c .timedOut)
  | header {c' : Channel} {e : ProtoError} :
      frontFrame (c.kept ++ x.read.bytes) = .reject e → c'.frame = c.frame →
      c.RefusesHeader x → PassSpec c x (.done c' (.error (.header e)))
  | noMemory {c' : Channel} : frontFrame (c.kept ++ x.read.bytes) = .more →
      c'.frame = c.frame → c.RefusesHeader x → PassSpec c x (.done c' (.error .noMemory))
  | extended {c' : Channel} {e : ProtoError} :
      frontFrame (c.kept ++ x.read.bytes) = .reject e → c'.frame.header = none →
      ¬ c.RefusesHeader x → PassSpec c x (.done c' (.error (.extended e)))
  | outside {r : Reason} : x.read.bytes = [] → (r = .disconnected ∨ ∃ text, r = .os text) →
      ¬ c.RefusesHeader x → PassSpec c x (.done c (.error r))

namespace StreamLemmas

variable {c : Channel} {x : Io}

theorem kept_none (h : c.pending.header = none) : c.kept = c.pending.fixed := by
  simp [Channel.kept, h]

theorem kept_some {h : FrameHeader} (hh : c.pending.header = some h) :
    c.kept = c.pending.fixed ++ c.frame.buffer.take c.pending.bodyLen := by
  simp [Channel.kept, hh]

/-- A parsed header followed by too little of its body. -/
theorem frontFrame_more {fixed body : Bytes} {h : FrameHeader} (hlen : fixed.length = headerSize)
    (hparse : parseFrameHeader fixed = .ok h) (hbody : body.length < h.dataLength) :
    frontFrame (fixed ++ body) = .more := by
  have hnot : ¬ (fixed ++ body).length < headerSize := by rw [List.length_append]; omega
  rw [frontFrame, if_neg hnot, ← hlen, List.take_left, List.drop_left, hparse]
  simp only [hbody, if_true]

/-- A parsed header followed by exactly its body. -/
theorem frontFrame_whole {fixed body : Bytes} {h : FrameHeader} (hlen : fixed.length = headerSize)
    (hparse : parseFrameHeader fixed = .ok h) (hbody : body.length = h.dataLength) :
    frontFrame (fixed ++ body) =
      match frameOf h body with
      | .error e => .reject e
      | .ok f => .item f [] := by
  have hnot : ¬ (fixed ++ body).length < headerSize := by rw [List.length_append]; omega
  rw [frontFrame, if_neg hnot, ← hlen, List.take_left, List.drop_left, hparse]
  simp only [hbody, Nat.lt_irrefl, if_false]
  rcases hframe : frameOf h body with e | f
  · simp only [← hbody, List.take_length, hframe]
  · simp only [← hbody, List.take_length, List.drop_length, hframe]

theorem frontFrame_bad {fixed : Bytes} {e : ProtoError} (hlen : fixed.length = headerSize)
    (hparse : parseFrameHeader fixed = .error e) : frontFrame fixed = .reject e := by
  have hnot : ¬ fixed.length < headerSize := by omega
  rw [frontFrame, if_neg hnot, ← hlen, List.take_length, hparse]

theorem ready_more (hr : c.Ready) : frontFrame c.kept = .more := by
  cases hh : c.pending.header with
  | none =>
    rw [kept_none hh, frontFrame, if_pos (hr.head hh).1]
  | some h =>
    obtain ⟨hlen, hparse, hbody, hbuf⟩ := hr.body h hh
    rw [kept_some hh]
    refine frontFrame_more hlen hparse ?_
    rw [List.length_take]
    omega

/-- Publishing agrees with the frame read at once. -/
theorem complete_spec (f : Frame) (h : FrameHeader) :
    (∃ p, frameOf h (f.buffer.take h.dataLength) = .ok p ∧ (f.complete h).2 = .ok ∧
      (f.complete h).1.shown = some p) ∨
    (∃ e, frameOf h (f.buffer.take h.dataLength) = .error e ∧
      (f.complete h).2 = .error (.extended e) ∧ (f.complete h).1.header = none) := by
  cases ht : h.frameType with
  | metadata =>
    exact .inl ⟨⟨h, none, none, f.buffer.take h.dataLength⟩, by simp [frameOf, ht],
      by simp [Frame.complete, ht], by simp [Frame.complete, ht, Frame.shown, Frame.payload]⟩
  | video =>
    cases hp : parseVideoHeader h (f.buffer.take h.dataLength) with
    | error e =>
      exact .inr ⟨e, by simp [frameOf, ht, hp], by simp [Frame.complete, ht, Frame.payload, hp],
        by simp [Frame.complete, ht, Frame.payload, hp]⟩
    | ok v =>
      exact .inl ⟨⟨h, some v, none, f.buffer.take h.dataLength⟩, by simp [frameOf, ht, hp],
        by simp [Frame.complete, ht, Frame.payload, hp],
        by simp [Frame.complete, ht, Frame.payload, hp, Frame.shown]⟩
  | audio =>
    cases hp : parseAudioHeader h (f.buffer.take h.dataLength) with
    | error e =>
      exact .inr ⟨e, by simp [frameOf, ht, hp], by simp [Frame.complete, ht, Frame.payload, hp],
        by simp [Frame.complete, ht, Frame.payload, hp]⟩
    | ok a =>
      exact .inl ⟨⟨h, none, some a, f.buffer.take h.dataLength⟩, by simp [frameOf, ht, hp],
        by simp [Frame.complete, ht, Frame.payload, hp],
        by simp [Frame.complete, ht, Frame.payload, hp, Frame.shown]⟩

/-- A channel `c'` whose body has just grown to `bodyLen` bytes goes on or
publishes, as the whole of what it keeps says. -/
theorem settle_spec {c' : Channel} {h : FrameHeader} (hh : c'.pending.header = some h)
    (hlen : c'.pending.fixed.length = headerSize) (hparse : parseFrameHeader c'.pending.fixed = .ok h)
    (hbody : c'.pending.bodyLen ≤ h.dataLength) (hbuf : h.dataLength ≤ c'.frame.buffer.length)
    (hkept : c'.kept = c.kept ++ x.read.bytes) (hconn : c'.connected = c.connected)
    (href : ¬ c.RefusesHeader x) : PassSpec c x (c'.settle h) := by
  unfold Channel.settle
  by_cases hdone : c'.pending.bodyLen = h.dataLength
  · rw [if_pos hdone]
    have hbody' : (c'.frame.buffer.take h.dataLength).length = h.dataLength := by
      rw [List.length_take]; omega
    have hwhole := frontFrame_whole hlen hparse hbody'
    rw [← hdone, ← kept_some hh, hkept, hdone] at hwhole
    rcases complete_spec c'.frame h with ⟨p, hp, hok, hshown⟩ | ⟨e, hp, herr, hnone⟩
    · rw [hp] at hwhole
      simp only [hok]
      exact .frame hwhole hshown rfl hconn href
    · rw [hp] at hwhole
      simp only [herr]
      exact .extended hwhole hnone href
  · rw [if_neg hdone]
    refine .going ⟨?_, ?_⟩ hkept hconn href
    · intro hn
      exact nomatch hn.symm.trans hh
    · intro h' hh'
      cases hh'.symm.trans hh
      exact ⟨hlen, hparse, by omega, hbuf⟩

/-- A read that gave nothing yet waits, times out, or meets an error of the
socket. -/
theorem idle_spec (hr : c.Ready) (hb : x.read.bytes = []) (hq : ¬ c.RefusesHeader x)
    (deadlineMs : Nat) (wait : Bool) : PassSpec c x (c.idle deadlineMs wait x) := by
  simp only [Channel.idle]
  generalize (if (c.pending.started && wait) = true then max deadlineMs c.pending.budgetMs
    else deadlineMs) = until_
  split
  · exact .timedOut hb hq
  · split
    · exact .waits hb hq
    · split
      · next e _ => exact .outside hb (.inr ⟨e, rfl⟩) hq
      · split
        · exact .waits hb hq
        · exact .going hr (by rw [hb, List.append_nil]) rfl hq

end StreamLemmas

open StreamLemmas

theorem pass_spec {c : Channel} {x : Io} (hr : c.Ready) (hfit : x.read.fits c.targetLen = true)
    (deadlineMs : Nat) (wait : Bool) : PassSpec c x (c.pass deadlineMs wait x) := by
  have hquiet : (∀ bytes, x.read ≠ .data bytes) → ¬ c.RefusesHeader x := by
    rintro hno ⟨bytes, hdata, _⟩
    exact hno bytes hdata
  unfold Channel.pass
  cases hread : x.read with
  | eof => exact .outside (by rw [hread]; rfl) (.inl rfl) (hquiet (by simp [hread]))
  | failed e => exact .outside (by rw [hread]; rfl) (.inr ⟨e, rfl⟩) (hquiet (by simp [hread]))
  | interrupted =>
    exact .going hr (by simp [hread, Read.bytes]) rfl (hquiet (by simp [hread]))
  | wouldBlock =>
    exact idle_spec hr (by rw [hread]; rfl) (hquiet (by simp [hread])) deadlineMs wait
  | data bytes =>
    have hb : x.read.bytes = bytes := by rw [hread]; rfl
    simp only [hread, Read.fits, Bool.and_eq_true, decide_eq_true_eq] at hfit
    simp only [Channel.arrive]
    cases hh : c.pending.header with
    | none =>
      obtain ⟨hlen, hbody0⟩ := hr.head hh
      have htarget : c.targetLen = headerSize - c.pending.fixed.length := by
        simp [Channel.targetLen, hh]
      have hle : (c.pending.fixed ++ bytes).length ≤ headerSize := by
        rw [List.length_append]; omega
      simp only []
      split
      · next hshort =>
        have hq : ¬ c.RefusesHeader x := by
          rintro ⟨bytes', hdata, _, hfull, _⟩
          rw [hread] at hdata
          cases hdata
          omega
        refine .going ⟨fun _ => ⟨hshort, hbody0⟩, fun h hh' => ?_⟩ ?_ rfl hq
        · cases hh'
        · simp [Channel.kept, hh, hb]
      · next hfull =>
        have hfull' : (c.pending.fixed ++ bytes).length = headerSize := by omega
        simp only [Channel.startBody]
        cases hparse : parseFrameHeader (c.pending.fixed ++ bytes) with
        | error e =>
          refine .header ?_ rfl ⟨bytes, hread, hh, hfull', .inl ⟨e, hparse⟩⟩
          rw [kept_none hh, hb]
          exact frontFrame_bad hfull' hparse
        | ok h =>
          simp only []
          split
          · next hmem =>
            refine .noMemory ?_ rfl ⟨bytes, hread, hh, hfull', .inr ⟨h, hparse, hmem.1, hmem.2⟩⟩
            rw [kept_none hh, hb, ← List.append_nil (c.pending.fixed ++ bytes)]
            exact frontFrame_more hfull' hparse (by simp only [List.length_nil]; omega)
          · next hmem =>
            have hq : ¬ c.RefusesHeader x := by
              rintro ⟨bytes', hdata, _, _, ⟨e, he⟩ | ⟨h', he, hbig, halloc⟩⟩
              · rw [hread] at hdata
                cases hdata
                cases hparse.symm.trans he
              · rw [hread] at hdata
                cases hdata
                cases hparse.symm.trans he
                exact hmem ⟨hbig, halloc⟩
            refine settle_spec rfl hfull' hparse ?_ ?_ ?_ rfl hq
            · simp only [hbody0]; omega
            · simp only [List.length_append, List.length_replicate]; omega
            · simp [Channel.kept, hh, hb, hbody0]
    | some h =>
      obtain ⟨hlen, hparse, hlt, hbuf⟩ := hr.body h hh
      have htarget : c.targetLen = h.dataLength - c.pending.bodyLen := by
        simp [Channel.targetLen, hh]
      have hroom : c.pending.bodyLen + bytes.length ≤ c.frame.buffer.length := by omega
      have hq : ¬ c.RefusesHeader x := by
        rintro ⟨_, _, hnone, _⟩
        cases hnone.symm.trans hh
      refine settle_spec rfl hlen hparse ?_ ?_ ?_ rfl hq
      · simp only []; omega
      · simp only [length_overwrite hroom]; exact hbuf
      · rw [kept_some hh, hb, List.append_assoc, ← take_overwrite hroom]
        rfl

/-! ## The invariant over runs -/

/-- The refusal a result stands for, if it is one. -/
def Recv.refusal : Recv → Option ProtoError
  | .error (.header e) => some e
  | .error (.extended e) => some e
  | _ => none

/-- What holds of a line in every run. While the channel is connected, what was
received is the frames published and then the bytes kept; once it is closed, the
frames published are those of what was received. -/
structure Line.Inv (s : Line) : Prop where
  called : s.call.isSome → s.channel.connected = true ∧ s.fresh = false
  whole : s.fresh = true → s.channel.pending = {}
  live : s.channel.connected = true → s.ended = none ∧ s.channel.Ready ∧
    omtFraming.Read s.received s.published s.channel.kept
  dead : s.channel.connected = false → s.fresh = false ∧ ∃ r, s.ended = some r ∧
    omtFraming.parse s.received = ⟨s.published, r.refusal⟩

namespace StreamLemmas

theorem kept_fresh {c : Channel} (h : c.pending = {}) : c.kept = [] := by
  simp [Channel.kept, h]

theorem ready_of_fresh {c : Channel} (h : c.pending = {}) : c.Ready :=
  ⟨fun _ => by rw [h]; exact ⟨Nat.zero_lt_succ 15, rfl⟩,
    fun h' hh => by rw [h] at hh; exact nomatch hh⟩

/-- Reading ends where the bytes kept hold no further frame. -/
theorem parse_of_more {s : Line} {kept : Bytes}
    (hread : omtFraming.Read s.received s.published kept) (hmore : frontFrame kept = .more) :
    omtFraming.parse s.received = ⟨s.published, none⟩ := by
  rw [hread.parse_eq, Framing.parse_more (F := omtFraming) hmore, List.append_nil]

theorem parse_of_reject {s : Line} {kept : Bytes} {e : ProtoError}
    (hread : omtFraming.Read s.received s.published kept) (hrej : frontFrame kept = .reject e) :
    omtFraming.parse s.received = ⟨s.published, some e⟩ := by
  rw [hread.parse_eq, Framing.parse_reject (F := omtFraming) hrej, List.append_nil]

/-- A call that ends with anything but a frame or a would-block closes the
channel. -/
theorem inv_of_closed {s : Line} {c : Channel} {r : Recv} (hclose : c.finish r = c.close)
    (hfresh : (s.returned c r).fresh = false)
    (hended : (s.returned c r).ended = some r) (hpub : (s.returned c r).published = s.published)
    (hparse : omtFraming.parse s.received = ⟨s.published, r.refusal⟩) : (s.returned c r).Inv := by
  refine ⟨fun h => (nomatch h), fun h => (nomatch hfresh.symm.trans h), fun h => ?_,
    fun _ => ⟨hfresh, r, hended, ?_⟩⟩
  · have hfalse : (s.returned c r).channel.connected = false := by
      simp only [Line.returned, hclose, Channel.close]
    exact nomatch hfalse.symm.trans h
  · rw [hpub]
    exact hparse

end StreamLemmas

theorem Line.start_inv (frame : Frame) : (Line.start frame).Inv where
  called := fun h => nomatch h
  whole := fun h => nomatch h
  live := fun _ => ⟨rfl, ready_of_fresh rfl, .nil []⟩
  dead := fun h => nomatch h

theorem Line.step_inv {s s' : Line} {e : Event} (hi : s.Inv) (h : s.step e = .running s') :
    s'.Inv := by
  cases e with
  | call deadlineMs wait =>
    simp only [Line.step] at h
    split at h
    · exact nomatch h
    · split at h
      · next hconn =>
        cases h
        exact ⟨fun _ => ⟨hconn, rfl⟩, fun h => (nomatch h), hi.live,
          fun hd => ⟨rfl, (hi.dead hd).2⟩⟩
      · cases h
        exact ⟨fun hc => ⟨(hi.called hc).1, rfl⟩, fun h => (nomatch h), hi.live,
          fun hd => ⟨rfl, (hi.dead hd).2⟩⟩
  | take replacement =>
    simp only [Line.step, Bool.and_eq_true] at h
    split at h
    · next hcan =>
      cases h
      have hpend := hi.whole hcan.2
      refine ⟨fun hc => ⟨(hi.called hc).1, rfl⟩, fun h => (nomatch h), fun hconn => ?_,
        fun hd => ⟨rfl, (hi.dead hd).2⟩⟩
      obtain ⟨hend, _, hread⟩ := hi.live hconn
      refine ⟨hend, ready_of_fresh hpend, ?_⟩
      rw [kept_fresh hpend] at hread
      rw [kept_fresh (c := s.channel.takeFrame replacement) hpend]
      exact hread
    · exact nomatch h
  | io x =>
    simp only [Line.step] at h
    split at h
    · exact nomatch h
    · next deadlineMs wait hcall =>
      split at h
      · next hfit =>
        obtain ⟨hconn, hfresh⟩ := hi.called (by rw [hcall]; rfl)
        obtain ⟨hend, hready, hread⟩ := hi.live hconn
        have hread' := hread.append x.read.bytes
        have hspec := pass_spec hready hfit deadlineMs wait
        split at h
        · next c hc =>
          rw [hc] at hspec
          cases h
          cases hspec with
          | going hready' hkept hconn' _ =>
            refine ⟨fun _ => ⟨hconn'.trans hconn, hfresh⟩,
              fun hf => (nomatch hfresh.symm.trans hf), fun _ => ⟨hend, hready', ?_⟩, fun hd => ?_⟩
            · simp only [hkept]
              exact hread'
            · exact nomatch (hconn'.trans hconn).symm.trans hd
        · next c r hc =>
          rw [hc] at hspec
          cases h
          cases hspec with
          | frame hitem hshown hpend hconn' _ =>
            refine ⟨fun h => (nomatch h), fun _ => hpend, fun _ => ⟨hend, ready_of_fresh hpend, ?_⟩,
              fun hd => (nomatch (hconn'.trans hconn).symm.trans hd)⟩
            simp only [Line.returned, Channel.finish, if_true, hshown, kept_fresh hpend]
            exact hread'.snoc hitem
          | waits hb _ =>
            refine ⟨fun h => (nomatch h), fun h => (nomatch h), fun _ => ⟨hend, hready, ?_⟩,
              fun hd => (nomatch hconn.symm.trans hd)⟩
            rw [hb, List.append_nil] at hread'
            simpa [Line.returned, hb, Channel.finish] using hread'
          | timedOut hb _ =>
            exact inv_of_closed rfl rfl rfl rfl
              (parse_of_more (by simpa [hb] using hread) (ready_more hready))
          | header hrej _ _ => exact inv_of_closed rfl rfl rfl rfl (parse_of_reject hread' hrej)
          | noMemory hmore _ _ => exact inv_of_closed rfl rfl rfl rfl (parse_of_more hread' hmore)
          | extended hrej _ _ => exact inv_of_closed rfl rfl rfl rfl (parse_of_reject hread' hrej)
          | outside hb hr _ =>
            have hparse := parse_of_more hread (ready_more hready)
            rcases hr with rfl | ⟨text, rfl⟩
            · exact inv_of_closed rfl rfl rfl rfl (by simpa [hb, Recv.refusal] using hparse)
            · exact inv_of_closed rfl rfl rfl rfl (by simpa [hb, Recv.refusal] using hparse)
      · exact nomatch h

theorem line_inv {frame : Frame} {es : List Event} {s : Line}
    (h : drive Line.step (Line.start frame) es = .running s) : s.Inv :=
  drive_invariant (fun _ _ _ => Line.step_inv) (Line.start_inv frame) h

/-! ## The header left visible -/

/-- The channel was closed over a frame it refused. -/
def Line.Refused (s : Line) : Prop :=
  (∃ e, s.ended = some (.error (.header e))) ∨ s.ended = some (.error .noMemory) ∨
    ∃ e, s.ended = some (.error (.extended e))

/-- A refused frame leaves no header visible. -/
def Line.Hidden (s : Line) : Prop := s.Refused → s.channel.frame.header = none

/-- A fixed header is refused only while the channel shows no frame. -/
def HeaderClear (s : Line) (e : Event) : Prop :=
  ∀ x, e = .io x → s.channel.RefusesHeader x → s.channel.frame.header = none

namespace StreamLemmas

theorem hidden_of_live {s : Line} (h : s.ended = none) : s.Hidden := by
  rintro (⟨e, he⟩ | he | ⟨e, he⟩)
  all_goals exact nomatch h.symm.trans he

theorem headerClear_of_quiet {s : Line} {x : Io} (h : ¬ s.channel.RefusesHeader x) :
    HeaderClear s (.io x) := by
  rintro y hy href
  cases hy
  exact absurd href h

/-- A refused fixed header leaves visible exactly what was visible before. -/
theorem hidden_of_refused {s s' : Line} {x : Io} (href : s.channel.RefusesHeader x)
    (hrefused : s'.Refused) (hframe : s'.channel.frame = s.channel.frame) :
    s'.Hidden ↔ HeaderClear s (.io x) := by
  constructor
  · rintro hhid y hy _
    exact hframe ▸ hhid hrefused
  · intro hclear _
    rw [hframe]
    exact hclear x rfl href

theorem hidden_of_other {s' : Line} {r : Recv} (hend : s'.ended = some r)
    (h : r = .timedOut ∨ r = .error .disconnected ∨ ∃ text, r = .error (.os text)) : s'.Hidden := by
  rintro (⟨e, he⟩ | he | ⟨e, he⟩)
  all_goals
    cases hend.symm.trans he
    rcases h with h | h | ⟨_, h⟩ <;> exact nomatch h

end StreamLemmas

theorem Line.step_hidden {s s' : Line} {e : Event} (hi : s.Inv) (h : s.step e = .running s') :
    s'.Hidden ↔ s.Hidden ∧ HeaderClear s e := by
  cases e with
  | call deadlineMs wait =>
    have hclear : HeaderClear s (.call deadlineMs wait) := fun x hx => nomatch hx
    simp only [Line.step] at h
    split at h
    · exact nomatch h
    · split at h
      · cases h; exact ⟨fun hh => ⟨hh, hclear⟩, And.left⟩
      · cases h; exact ⟨fun hh => ⟨hh, hclear⟩, And.left⟩
  | take replacement =>
    have hclear : HeaderClear s (.take replacement) := fun x hx => nomatch hx
    simp only [Line.step, Bool.and_eq_true] at h
    split at h
    · next hcan =>
      cases h
      -- a frame is fresh only while the channel is connected, and nothing has ended it
      cases hconn : s.channel.connected with
      | true =>
        have hend := (hi.live hconn).1
        exact ⟨fun _ => ⟨hidden_of_live hend, hclear⟩, fun _ => hidden_of_live hend⟩
      | false => exact nomatch (hi.dead hconn).1.symm.trans hcan.2
    · exact nomatch h
  | io x =>
    simp only [Line.step] at h
    split at h
    · exact nomatch h
    · next deadlineMs wait hcall =>
      split at h
      · next hfit =>
        obtain ⟨hend, hready, _⟩ := hi.live (hi.called (by rw [hcall]; rfl)).1
        have hlive : s.Hidden := hidden_of_live hend
        have hspec := pass_spec hready hfit deadlineMs wait
        have hquiet {t : Line} (ht : t.Hidden) (hq : ¬ s.channel.RefusesHeader x) :
            t.Hidden ↔ s.Hidden ∧ HeaderClear s (.io x) :=
          ⟨fun _ => ⟨hlive, headerClear_of_quiet hq⟩, fun _ => ht⟩
        split at h
        · next c hc =>
          rw [hc] at hspec
          cases h
          cases hspec with
          | going _ _ _ hq => exact hquiet (hidden_of_live hend) hq
        · next c r hc =>
          rw [hc] at hspec
          cases h
          cases hspec with
          | frame _ _ _ _ hq => exact hquiet (hidden_of_live hend) hq
          | waits _ hq => exact hquiet (hidden_of_live hend) hq
          | timedOut _ hq => exact hquiet (hidden_of_other rfl (.inl rfl)) hq
          | outside _ hr hq =>
            rcases hr with rfl | ⟨text, rfl⟩
            · exact hquiet (hidden_of_other rfl (.inr (.inl rfl))) hq
            · exact hquiet (hidden_of_other rfl (.inr (.inr ⟨text, rfl⟩))) hq
          | extended _ hnone hq => exact hquiet (fun _ => hnone) hq
          | header _ hframe href =>
            rw [hidden_of_refused href (.inl ⟨_, rfl⟩) hframe, and_iff_right hlive]
          | noMemory _ hframe href =>
            rw [hidden_of_refused href (.inr (.inl rfl)) hframe, and_iff_right hlive]
      · exact nomatch h

namespace StreamLemmas

/-- A closed channel stays closed and publishes nothing more. -/
theorem closed_step {s s' : Line} {e : Event} (hi : s.Inv) (hd : s.channel.connected = false)
    (h : s.step e = .running s') :
    s'.channel.connected = false ∧ s'.published = s.published := by
  have hcall : s.call = none := by
    cases hc : s.call with
    | none => rfl
    | some c => exact nomatch hd.symm.trans (hi.called (by rw [hc]; rfl)).1
  cases e with
  | call deadlineMs wait =>
    simp only [Line.step, hcall, hd] at h
    cases h
    exact ⟨hd, rfl⟩
  | take replacement =>
    simp only [Line.step, (hi.dead hd).1, Bool.and_false] at h
    exact nomatch h
  | io x =>
    simp only [Line.step, hcall] at h
    exact nomatch h

theorem closed_run {s t : Line} {es : List Event} (hi : s.Inv) (hd : s.channel.connected = false)
    (h : drive Line.step s es = .running t) :
    t.channel.connected = false ∧ t.published = s.published := by
  have key : t.Inv ∧ t.channel.connected = false ∧ t.published = s.published :=
    drive_invariant
      (I := fun u => u.Inv ∧ u.channel.connected = false ∧ u.published = s.published)
      (fun _ _ _ hI hstep => ⟨Line.step_inv hI.1 hstep, (closed_step hI.1 hI.2.1 hstep).1,
        (closed_step hI.1 hI.2.1 hstep).2.trans hI.2.2⟩) ⟨hi, hd, rfl⟩ h
  exact key.2

theorem connected_of_not_ended {s : Line} (hi : s.Inv) :
    s.channel.connected = s.ended.isNone := by
  cases hc : s.channel.connected with
  | true => rw [(hi.live hc).1]; rfl
  | false =>
    obtain ⟨_, r, hr, _⟩ := hi.dead hc
    rw [hr]; rfl

theorem parse_received {s : Line} (hi : s.Inv) :
    omtFraming.parse s.received = ⟨s.published, s.ended.bind Recv.refusal⟩ := by
  cases hc : s.channel.connected with
  | true =>
    obtain ⟨hend, hready, hread⟩ := hi.live hc
    rw [hend]
    exact parse_of_more hread (ready_more hready)
  | false =>
    obtain ⟨_, r, hr, hparse⟩ := hi.dead hc
    rw [hr]
    exact hparse

/-- The body slice of the next read lies inside the frame buffer. -/
theorem body_inside {s : Line} (hi : s.Inv) {h : FrameHeader}
    (hcall : s.call.isSome) (hh : s.channel.pending.header = some h) :
    s.channel.pending.bodyLen < h.dataLength ∧ h.dataLength ≤ s.channel.frame.buffer.length := by
  obtain ⟨_, hready, _⟩ := hi.live (hi.called hcall).1
  exact (hready.body h hh).2.2

end StreamLemmas

/-- A line against its stream `received ++ later`, in every state of every run.

The frames published are those of what arrived read at once, and so is the
refusal that ended it; they are the first frames of the whole stream, and a
refusal ends the whole stream at the same place. The slice of every body read is
inside the frame buffer. A line that ended is closed for good. A refused frame
leaves no header visible exactly when no fixed header was refused over a frame
that was not taken. -/
theorem line_reads_stream (frame : Frame) (es : List Event) (s : Line) (later : Bytes)
    (h : drive Line.step (Line.start frame) es = .running s) :
    omtFraming.parse s.received = ⟨s.published, s.ended.bind Recv.refusal⟩ ∧
    s.published <+: (omtFraming.parse (s.received ++ later)).items ∧
    ((s.ended.bind Recv.refusal).isSome →
      omtFraming.parse (s.received ++ later) = ⟨s.published, s.ended.bind Recv.refusal⟩) ∧
    (s.call.isSome → ∀ hdr, s.channel.pending.header = some hdr →
      s.channel.pending.bodyLen < hdr.dataLength ∧
        hdr.dataLength ≤ s.channel.frame.buffer.length) ∧
    (s.ended.isSome → s.channel.connected = false ∧
      ∀ fs t, drive Line.step s fs = .running t →
        t.channel.connected = false ∧ t.published = s.published) ∧
    (s.Hidden ↔ AllSteps Line.step HeaderClear (Line.start frame) es) := by
  have hi : s.Inv := line_inv h
  have hparse := parse_received hi
  obtain ⟨hitems, hsame⟩ := omtFraming.parse_append s.received later
  rw [hparse] at hitems hsame
  refine ⟨hparse, hitems, hsame, fun hcall hdr hh => body_inside hi hcall hh, fun hend => ?_, ?_⟩
  · have hd : s.channel.connected = false := by
      rw [connected_of_not_ended hi]
      cases hs : s.ended with
      | none => rw [hs] at hend; exact nomatch hend
      | some r => rfl
    exact ⟨hd, fun fs t ht => closed_run hi hd ht⟩
  · have hiff := drive_iff_allSteps (fun _ _ _ => Line.step_inv)
      (fun _ _ _ => Line.step_hidden) (Line.start_inv frame) h
    rw [hiff, and_iff_right (hidden_of_live rfl)]

/-- A metadata frame with no body. -/
def emptyMetadata : Bytes := [1, 1] ++ List.replicate 14 0

/-- The start of a frame of no known version. -/
def zeroHeader : Bytes := List.replicate 16 0

/-- The metadata frame is taken; then a header that is refused arrives. -/
def refusedAfterTake : List Event :=
  [.receiveReady, .io { read := .data emptyMetadata }, .take [], .receiveReady,
    .io { read := .data zeroHeader }]

theorem line_reads_refusedAfterTake : ∃ s : Line,
    drive Line.step (Line.start {}) refusedAfterTake = .running s ∧ s.Refused ∧
    omtFraming.parse s.received = ⟨s.published, s.ended.bind Recv.refusal⟩ ∧
    AllSteps Line.step HeaderClear (Line.start {}) refusedAfterTake := by
  refine ⟨_, rfl, .inl ⟨_, rfl⟩, ?_, ?_⟩
  · exact (line_reads_stream {} refusedAfterTake _ [] rfl).1
  · exact (line_reads_stream {} refusedAfterTake _ [] rfl).2.2.2.2.2.mp fun _ => rfl

/-- The metadata frame is published and left in the channel, as the receive
loop leaves a frame of another kind; then a header that is refused arrives. -/
def refusedOverMetadata : List Event :=
  [.receiveReady, .io { read := .data emptyMetadata }, .receiveReady,
    .io { read := .data zeroHeader }]

/-- The refused frame leaves the header of the metadata frame visible. -/
theorem refused_header_stays_visible : ∃ s : Line,
    drive Line.step (Line.start {}) refusedOverMetadata = .running s ∧ s.Refused ∧
    s.channel.frame.header = some ⟨.metadata, 0, 0, 0⟩ ∧ ¬ s.Hidden := by
  refine ⟨_, rfl, .inl ⟨_, rfl⟩, rfl, fun hhid => ?_⟩
  exact nomatch hhid (.inl ⟨_, rfl⟩)

end OmtClient.Omt
