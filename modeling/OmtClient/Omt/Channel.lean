import OmtClient.Lib.Drive
import OmtClient.Lib.Framing
import OmtClient.Omt.Protocol

/-!
# The receiver's channel

`crates/omt-receiver/src/channel.rs`: one OMT connection, read frame by frame.
A read resumes where the last one stopped, so the three entry points (`receive`,
`receive_until`, `receive_ready`) share a frame read in part: its fixed header,
then its body in the frame buffer. `take_frame` swaps the buffer out.

`Channel.pass` is one turn of the loop in `receive_inner`, that is one read of
the socket; everything it gets from outside is an `Io`. `Line` is a channel in
the hands of a receive thread: calls, the passes inside them, and `take_frame`
after a call that returned a frame. Its histories are the bytes that arrived and
the frames that were published.

The trace timestamps of a frame are left out: nothing here reads them.
-/

namespace OmtClient.Omt

open OmtClient.Lib

/-! ## Frames -/

/-- A received frame. The buffer keeps its high-water size; `len` is how much of
it this frame fills. -/
structure Frame where
  header : Option FrameHeader := none
  video : Option VideoHeader := none
  audio : Option AudioHeader := none
  buffer : Bytes := []
  len : Nat := 0
  deriving DecidableEq, Repr

def Frame.payload (f : Frame) : Bytes := f.buffer.take f.len

/-- What a caller sees of a published frame. -/
structure Published where
  header : FrameHeader
  video : Option VideoHeader
  audio : Option AudioHeader
  payload : Bytes
  deriving DecidableEq, Repr

/-- The frame a header and a whole body make, or why it is refused. -/
def frameOf (h : FrameHeader) (body : Bytes) : Except ProtoError Published :=
  match h.frameType with
  | .video =>
    match parseVideoHeader h body with
    | .ok v => .ok ⟨h, some v, none, body⟩
    | .error e => .error e
  | .audio =>
    match parseAudioHeader h body with
    | .ok a => .ok ⟨h, none, some a, body⟩
    | .error e => .error e
  | .metadata => .ok ⟨h, none, none, body⟩

/-- What the front of the stream holds, read at once. -/
def frontFrame (b : Bytes) : Item Published ProtoError :=
  if b.length < headerSize then .more
  else
    match parseFrameHeader (b.take headerSize) with
    | .error e => .reject e
    | .ok h =>
      if (b.drop headerSize).length < h.dataLength then .more
      else
        match frameOf h ((b.drop headerSize).take h.dataLength) with
        | .error e => .reject e
        | .ok f => .item f ((b.drop headerSize).drop h.dataLength)

/-- The OMT stream as a sequence of frames. -/
def omtFraming : Framing Published ProtoError where
  one := frontFrame
  shrinks := by
    intro b rest a h
    simp only [frontFrame] at h
    split at h
    · exact nomatch h
    · split at h
      · exact nomatch h
      · split at h
        · exact nomatch h
        · split at h
          · exact nomatch h
          · cases h
            simp only [headerSize, List.length_drop] at *
            omega
  item_append := by
    intro b rest a c h
    simp only [frontFrame] at h ⊢
    split at h
    · exact nomatch h
    · next hlen =>
      have hle : headerSize ≤ b.length := Nat.not_lt.mp hlen
      rw [if_neg (by rw [List.length_append]; omega), List.take_append_of_le_length hle,
        List.drop_append_of_le_length hle]
      split at h
      · exact nomatch h
      · next hdr _ =>
        split at h
        · exact nomatch h
        · next hbody =>
          have hle' : hdr.dataLength ≤ (b.drop headerSize).length := Nat.not_lt.mp hbody
          rw [if_neg (by rw [List.length_append]; omega), List.take_append_of_le_length hle',
            List.drop_append_of_le_length hle']
          split at h
          · exact nomatch h
          · cases h
            rfl
  reject_append := by
    intro b e c h
    simp only [frontFrame] at h ⊢
    split at h
    · exact nomatch h
    · next hlen =>
      have hle : headerSize ≤ b.length := Nat.not_lt.mp hlen
      rw [if_neg (by rw [List.length_append]; omega), List.take_append_of_le_length hle,
        List.drop_append_of_le_length hle]
      split at h
      · cases h
        rfl
      · next hdr _ =>
        split at h
        · exact nomatch h
        · next hbody =>
          have hle' : hdr.dataLength ≤ (b.drop headerSize).length := Nat.not_lt.mp hbody
          rw [if_neg (by rw [List.length_append]; omega), List.take_append_of_le_length hle']
          split at h
          · cases h
            rfl
          · exact nomatch h

/-! ## The channel -/

/-- How long a frame that has started arriving may take to finish. -/
def bodyBudgetMs : Nat := 6000

/-- A frame read so far (`Partial`): the bytes of the fixed header, the parsed
header once they are all there, how much of the body is in the frame buffer, and
when the frame must be complete. -/
structure Pending where
  fixed : Bytes := []
  header : Option FrameHeader := none
  bodyLen : Nat := 0
  budgetMs : Nat := 0
  deriving DecidableEq, Repr

def Pending.started (p : Pending) : Bool := 0 < p.fixed.length

structure Channel where
  connected : Bool
  frame : Frame
  pending : Pending
  deriving DecidableEq, Repr

def Channel.close (c : Channel) : Channel := { c with connected := false, pending := {} }

/-- Why a call returned `Recv::Error`. -/
inductive Reason
  | closed
  | disconnected
  | header (e : ProtoError)
  | noMemory
  | extended (e : ProtoError)
  | os (text : String)
  deriving DecidableEq, Repr

/-- What a call returned. -/
inductive Recv
  | ok
  | wouldBlock (text : String)
  | timedOut
  | error (reason : Reason)
  deriving DecidableEq, Repr

/-- The error that explains a result other than a frame. -/
def Recv.text : Recv → Option String
  | .ok => none
  | .wouldBlock text => some text
  | .timedOut => some "OMT frame was truncated by a timeout"
  | .error .closed => some "OMT socket closed"
  | .error .disconnected => some "OMT source disconnected"
  | .error (.header e) => some e.text
  | .error .noMemory => some "unable to allocate the bounded OMT frame"
  | .error (.extended e) => some e.text
  | .error (.os text) => some text

/-- What reading the socket gave. -/
inductive Read
  | data (bytes : Bytes)
  | eof
  | interrupted
  | wouldBlock
  | failed (text : String)
  deriving DecidableEq, Repr

/-- What one pass of the read loop gets from outside: the read, the clock each
time it is asked, the result of waiting for the socket, and whether an
allocation succeeds. -/
structure Io where
  read : Read
  now : Nat := 0
  nowLeft : Nat := 0
  poll : Except String Nat := .ok 1
  nowPolled : Nat := 0
  alloc : Bool := true

/-- The size of the slice the next read is given: the rest of the fixed header,
or `buffer[body_len..data_length]`. -/
def Channel.targetLen (c : Channel) : Nat :=
  match c.pending.header with
  | none => headerSize - c.pending.fixed.length
  | some h => h.dataLength - c.pending.bodyLen

/-- `complete`: validates a fully read frame's extended header and publishes it. -/
def Frame.complete (f : Frame) (h : FrameHeader) : Frame × Recv :=
  let f := { f with len := h.dataLength, video := none, audio := none, header := none }
  match h.frameType with
  | .video =>
    match parseVideoHeader h f.payload with
    | .ok v => ({ f with video := some v, header := some h }, .ok)
    | .error e => (f, .error (.extended e))
  | .audio =>
    match parseAudioHeader h f.payload with
    | .ok a => ({ f with audio := some a, header := some h }, .ok)
    | .error e => (f, .error (.extended e))
  | .metadata => ({ f with header := some h }, .ok)

/-- Publishes the frame once its body is whole. -/
def Channel.settle (c : Channel) (h : FrameHeader) : Progress Channel Recv :=
  if c.pending.bodyLen = h.dataLength then
    let (frame, r) := c.frame.complete h
    .done { c with frame, pending := {} } r
  else .running c

/-- The fixed header is whole: it is parsed and the buffer grown for its body. -/
def Channel.startBody (c : Channel) (alloc : Bool) : Progress Channel Recv :=
  match parseFrameHeader c.pending.fixed with
  | .error e => .done c (.error (.header e))
  | .ok h =>
    if c.frame.buffer.length < h.dataLength ∧ alloc = false then .done c (.error .noMemory)
    else
      let buffer := c.frame.buffer ++ List.replicate (h.dataLength - c.frame.buffer.length) 0
      { c with
        frame := { c.frame with buffer }
        pending := { c.pending with header := some h } : Channel }.settle h

/-- A read gave `bytes`. -/
def Channel.arrive (c : Channel) (bytes : Bytes) (now : Nat) (alloc : Bool) :
    Progress Channel Recv :=
  let budgetMs := if c.pending.started then c.pending.budgetMs else now + bodyBudgetMs
  match c.pending.header with
  | none =>
    let fixed := c.pending.fixed ++ bytes
    let c' := { c with pending := { c.pending with budgetMs, fixed } }
    if fixed.length < headerSize then .running c' else c'.startBody alloc
  | some h =>
    { c with
      frame := { c.frame with buffer := overwrite c.frame.buffer c.pending.bodyLen bytes }
      pending := { c.pending with
        budgetMs, bodyLen := c.pending.bodyLen + bytes.length } : Channel }.settle h

/-- A read gave nothing yet. -/
def Channel.idle (c : Channel) (deadlineMs : Nat) (wait : Bool) (io : Io) :
    Progress Channel Recv :=
  let started := c.pending.started
  if started ∧ c.pending.budgetMs ≤ io.now then .done c .timedOut
  else
    let until_ := if started && wait then max deadlineMs c.pending.budgetMs else deadlineMs
    if until_ - io.nowLeft = 0 then .done c (.wouldBlock "OMT socket deadline expired")
    else
      match io.poll with
      | .error e => .done c (.error (.os e))
      | .ok n =>
        if n = 0 ∧ 0 < until_ - io.nowPolled then .done c (.wouldBlock "OMT read interrupted")
        else .running c

/-- One turn of the loop in `receive_inner`. -/
def Channel.pass (c : Channel) (deadlineMs : Nat) (wait : Bool) (io : Io) :
    Progress Channel Recv :=
  match io.read with
  | .eof => .done c (.error .disconnected)
  | .data bytes => c.arrive bytes io.now io.alloc
  | .interrupted => .running c
  | .wouldBlock => c.idle deadlineMs wait io
  | .failed e => .done c (.error (.os e))

/-- `finish`: anything but a frame or a would-block closes the channel. -/
def Channel.finish (c : Channel) : Recv → Channel
  | .ok => c
  | .wouldBlock _ => c
  | .timedOut => c.close
  | .error _ => c.close

/-- `take_frame`. -/
def Channel.takeFrame (c : Channel) (replacement : Bytes) : Channel :=
  { c with frame := { buffer := replacement } }

/-! ## A channel in the hands of a receive thread -/

/-- What happens on a line: a call of one of the entry points, one pass of the
loop inside it, or `take_frame`. -/
inductive Event
  | call (deadlineMs : Nat) (wait : Bool)
  | io (x : Io)
  | take (replacement : Bytes)

def Event.receive (deadlineMs : Nat) : Event := .call deadlineMs true
def Event.receiveUntil (deadlineMs : Nat) : Event := .call deadlineMs false
def Event.receiveReady : Event := .call 0 false

/-- A channel, the call it is in, and whether that call just returned a frame.
`received`, `published` and `ended` are history: the bytes read, the frames
published, and the result that closed the channel. -/
structure Line where
  channel : Channel
  call : Option (Nat × Bool)
  fresh : Bool
  received : Bytes
  published : List Published
  ended : Option Recv

/-- A line just connected, over a frame left from before. -/
def Line.start (frame : Frame) : Line :=
  { channel := { connected := true, frame, pending := {} }
    call := none, fresh := false, received := [], published := [], ended := none }

/-- The frame a channel shows. -/
def Frame.shown (f : Frame) : Option Published :=
  f.header.map fun h => ⟨h, f.video, f.audio, f.payload⟩

/-- The bytes a read gave. -/
def Read.bytes : Read → Bytes
  | .data bytes => bytes
  | _ => []

/-- A read gives at least one byte and no more than its slice holds. -/
def Read.fits (r : Read) (targetLen : Nat) : Bool :=
  match r with
  | .data bytes => 0 < bytes.length && bytes.length ≤ targetLen
  | _ => true

/-- A call returns `r` with the channel as the loop left it. -/
def Line.returned (s : Line) (c : Channel) (r : Recv) : Line :=
  { s with
    channel := c.finish r
    call := none
    fresh := r == .ok
    published := if r = .ok then s.published ++ c.frame.shown.toList else s.published
    ended := match r with
      | .timedOut => some r
      | .error _ => some r
      | _ => s.ended }

/-- One event; an event that cannot happen in this state ends the run. -/
def Line.step (s : Line) : Event → Progress Line Unit
  | .call deadlineMs wait =>
    if s.call.isSome then .done s ()
    else if s.channel.connected then
      .running { s with call := some (deadlineMs, wait), fresh := false }
    else .running { s with fresh := false }
  | .io x =>
    match s.call with
    | none => .done s ()
    | some (deadlineMs, wait) =>
      if x.read.fits s.channel.targetLen then
        let s := { s with received := s.received ++ x.read.bytes }
        match s.channel.pass deadlineMs wait x with
        | .running c => .running { s with channel := c }
        | .done c r => .running (s.returned c r)
      else .done s ()
  | .take replacement =>
    if s.call.isNone && s.fresh then
      .running { s with channel := s.channel.takeFrame replacement, fresh := false }
    else .done s ()

end OmtClient.Omt
