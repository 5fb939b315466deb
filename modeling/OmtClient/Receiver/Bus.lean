import OmtClient.Lib.Fifo
import OmtClient.Lib.Prog
import OmtClient.Receiver.Dbus

/-!
# The system bus

`Bus` of `crates/omt-receiver/src/dbus.rs`: method calls that wait for their reply, and
`next`, over one socket. A call reads messages until its reply comes; the signals that it
meets are queued for `next`, the oldest giving way when 256 are queued.

What the bus sends is `incoming`; `reads` says how each wait for the socket ends, so that
every split into reads and every deadline is one of its values. `frames`, `handed` and
`dropped` record what happened; no operation reads them.

1. `receive_spec`: a message is decoded from the next frame of the stream, whatever the reads.
2. `call_spec`, `next_spec`: what an operation does to the queue and which message it returns.
3. `bus_delivers`: over every sequence of operations, messages are decoded in order, a call
   returns the reply to its own serial and signals reach `next` once and in order.
-/

namespace OmtClient.Receiver.Dbus

open OmtClient.Lib Prog

def maxPending : Nat := 256

/-- The chunk that one read fills. -/
def readSize : Nat := 8192

/-- Why an operation fails. `stuck` stands for a loop that ran out of its turns; there are
always enough. -/
inductive BusError
  | expired
  | closed
  | overflow
  | oversized
  | malformed
  | marshal
  | writeTimedOut
  | io (message : String)
  | failed (member : String)
  | stuck
  deriving DecidableEq, Repr

/-- How a wait for the socket ends: with at most so many bytes, at the deadline or with an
error. No bytes are the end of the stream. -/
inductive Wait
  | data (n : Nat)
  | expired
  | failed (message : String)
  deriving DecidableEq, Repr

structure Bus where
  serial : UInt32
  pending : List Message
  inbox : Bytes
  incoming : Bytes
  reads : List Wait
  frames : List Bytes
  handed : List Message
  dropped : Nat

abbrev Io (α : Type) := Prog Bus BusError α

/-! ## Receiving -/

/-- `fill` with the texts that `receive` gives it. -/
def fill : Io Unit := do
  let b ← get
  match b.reads with
  | [] => raise .expired
  | .expired :: reads => do
    modify fun b => { b with reads }
    raise .expired
  | .failed message :: reads => do
    modify fun b => { b with reads }
    raise (.io message)
  | .data n :: reads => do
    let chunk := b.incoming.take (min n readSize)
    modify fun b => { b with reads, incoming := b.incoming.drop (min n readSize) }
    if chunk.isEmpty then raise .closed
    else if maxMessage * 2 < b.inbox.length + chunk.length then raise .overflow
    else modify fun b => { b with inbox := b.inbox ++ chunk }

/-- One turn of the loop in `receive`. -/
def receiveTurn : Io (Option Message) := do
  let b ← get
  if b.inbox.length < 16 then do
    fill
    pure none
  else
    match messageLength b.inbox with
    | none => raise .oversized
    | some total =>
      if b.inbox.length < total then do
        fill
        pure none
      else do
        modify fun b => { b with inbox := b.inbox.drop total, frames := b.frames ++ [b.inbox.take total] }
        let m ← orRaise (Message.parse (b.inbox.take total)) .malformed
        pure (some m)

/-- `receive`: every turn that does not end it has one read. -/
def receive : Io Message := do
  let b ← get
  loop receiveTurn .stuck (b.reads.length + 1)

/-! ## Calls -/

/-- How `send_all` ends. -/
inductive Sent
  | all
  | timedOut
  | failed (message : String)
  deriving DecidableEq, Repr

def sendAll : Sent → Io Unit
  | .all => pure ()
  | .timedOut => raise .writeTimedOut
  | .failed message => raise (.io message)

/-- A method call, and how sending it ends. -/
structure Call where
  destination : Option String
  path : String
  interface : Option String
  member : String
  args : List Arg
  sent : Sent

/-- `send_call`: the serial of the call. -/
def sendCall (flags : Byte) (c : Call) : Io UInt32 := do
  modify fun b => { b with serial := max (b.serial + 1) 1 }
  let b ← get
  let _ ← orRaise (buildCall b.serial flags c.destination c.path c.interface c.member c.args) .marshal
  sendAll c.sent
  pure b.serial

/-- Whether a message answers the call with this serial. -/
def Message.answers (m : Message) (serial : UInt32) : Bool :=
  (m.kind == methodReturn || m.kind == error) && m.replySerial == serial

/-- Queues a signal; the oldest gives way when the queue is full. -/
def queue (m : Message) : Io Unit := modify fun b =>
  if b.pending.length = maxPending then
    { b with pending := b.pending.drop 1 ++ [m], dropped := b.dropped + 1 }
  else { b with pending := b.pending ++ [m] }

/-- One turn of the loop in `call`. -/
def callTurn (member : String) (serial : UInt32) : Io (Option Message) := do
  let m ← receive
  if m.answers serial then
    if m.kind = error then raise (.failed member) else pure (some m)
  else if m.kind = signal then do
    queue m
    pure none
  else pure none

/-- `call`: every turn that does not end it has taken a message from what is there. -/
def call (c : Call) : Io Message := do
  let serial ← sendCall 0 c
  let b ← get
  loop (callTurn c.member serial) .stuck (b.inbox.length + b.incoming.length + 1)

/-- `send_no_reply`. -/
def sendNoReply (c : Call) : Io Unit := do
  let _ ← sendCall 1 c
  pure ()

/-- `next`: the next queued or incoming message. -/
def next : Io Message := do
  let b ← get
  match b.pending with
  | m :: rest => do
    modify fun b => { b with pending := rest, handed := b.handed ++ [m] }
    pure m
  | [] => do
    let m ← receive
    modify fun b => { b with handed := b.handed ++ [m].filter (·.kind == signal) }
    pure m

/-- What the holder of a bus does with it. -/
inductive Op
  | call (c : Call)
  | sendNoReply (c : Call)
  | next

def Op.step (b : Bus) : Op → Bus
  | .call c => ((Dbus.call c).run b).2
  | .sendNoReply c => ((Dbus.sendNoReply c).run b).2
  | .next => (Dbus.next.run b).2

/-- A whole message of the wire, within the size limit. -/
def Framed (raw : Bytes) : Prop := messageLength raw = some raw.length

/-- The messages of the stream that were decoded so far, and what is left of it. -/
def InOrder (stream : List Bytes) (b : Bus) : Prop :=
  ∃ rest, stream = b.frames ++ rest ∧ rest.flatten = b.inbox ++ b.incoming

/-- Nothing but the socket was touched. -/
structure Waited (b b' : Bus) : Prop where
  serial : b'.serial = b.serial
  pending : b'.pending = b.pending
  frames : b'.frames = b.frames
  handed : b'.handed = b.handed
  dropped : b'.dropped = b.dropped
  bytes : b'.inbox ++ b'.incoming = b.inbox ++ b.incoming

/-- One frame was taken off the stream. -/
structure Took (b : Bus) (raw : Bytes) (b' : Bus) : Prop where
  serial : b'.serial = b.serial
  pending : b'.pending = b.pending
  frames : b'.frames = b.frames ++ [raw]
  handed : b'.handed = b.handed
  dropped : b'.dropped = b.dropped
  shorter : b'.inbox.length + b'.incoming.length < b.inbox.length + b.incoming.length

namespace BusLemmas

theorem Waited.refl (b : Bus) : Waited b b := ⟨rfl, rfl, rfl, rfl, rfl, rfl⟩

theorem Waited.trans {a b c : Bus} (h : Waited a b) (h' : Waited b c) : Waited a c :=
  ⟨h'.serial.trans h.serial, h'.pending.trans h.pending, h'.frames.trans h.frames, h'.handed.trans h.handed,
    h'.dropped.trans h.dropped, h'.bytes.trans h.bytes⟩

theorem Waited.inOrder {stream : List Bytes} {b b' : Bus} (h : Waited b b') (hb : InOrder stream b) :
    InOrder stream b' := by
  obtain ⟨rest, hstream, hrest⟩ := hb
  exact ⟨rest, by rw [h.frames]; exact hstream, hrest.trans h.bytes.symm⟩

/-- A read moves bytes from the socket to the inbox. It is asked for only while a message is
incomplete, so that it has room. -/
theorem fill_spec {b : Bus} (hroom : b.inbox.length ≤ maxMessage) :
    wp fill (fun _ b' => Waited b b' ∧ b'.reads.length < b.reads.length)
      (fun e b' => (e = .expired ∨ e = .closed ∨ ∃ message, e = .io message) ∧ Waited b b') b := by
  rw [fill, wp_bind, wp_get]
  split
  · exact ⟨.inl rfl, Waited.refl b⟩
  · exact ⟨.inl rfl, rfl, rfl, rfl, rfl, rfl, rfl⟩
  · exact ⟨.inr (.inr ⟨_, rfl⟩), rfl, rfl, rfl, rfl, rfl, rfl⟩
  · next n reads hreads =>
    have hsplit := List.take_append_drop (min n readSize) b.incoming
    have hsize : (b.incoming.take (min n readSize)).length ≤ readSize :=
      Nat.le_trans (List.length_take_le _ _) (Nat.min_le_right _ _)
    rw [wp_bind, wp_modify]
    split
    · next hempty =>
      refine ⟨.inr (.inl rfl), rfl, rfl, rfl, rfl, rfl, ?_⟩
      rw [List.isEmpty_iff.mp hempty, List.nil_append] at hsplit
      exact congrArg (b.inbox ++ ·) hsplit
    · rw [if_neg (by
        have hmax : maxMessage = 262144 := rfl
        have hread : readSize = 8192 := rfl
        omega)]
      refine ⟨⟨rfl, rfl, rfl, rfl, rfl, ?_⟩, ?_⟩
      · show (b.inbox ++ _) ++ _ = _
        rw [List.append_assoc, hsplit]
      · show reads.length < b.reads.length
        rw [hreads]
        exact Nat.lt_succ_self _

end BusLemmas

open BusLemmas

/-- The signals among the messages that were decoded. -/
def signalsOf (frames : List Bytes) : List Message :=
  (frames.filterMap Message.parse).filter (·.kind == signal)

/-- What holds of a bus between two operations: the messages decoded are those of the stream
in order, and each signal among them was handed on by `next`, was dropped or is queued, in
the order in which they arrived. -/
structure Delivered (stream : List Bytes) (b : Bus) : Prop where
  inOrder : InOrder stream b
  signals : Conserved (signalsOf b.frames) b.handed b.dropped b.pending
  bounded : b.pending.length ≤ maxPending

/-- The queue of `b'` is that of `b` with the signals among `frames` queued; none is dropped
unless 256 others are queued. -/
structure Queued (b : Bus) (frames : List Bytes) (b' : Bus) : Prop where
  handed : b'.handed = b.handed
  dropped : b'.dropped = b.dropped + (b.pending.length + (signalsOf frames).length - maxPending)
  length : b'.pending.length = min maxPending (b.pending.length + (signalsOf frames).length)

namespace BusLemmas

theorem signalsOf_append (a c : List Bytes) : signalsOf (a ++ c) = signalsOf a ++ signalsOf c := by
  rw [signalsOf, List.filterMap_append, List.filter_append]
  rfl

theorem Waited.delivered {stream : List Bytes} {b b' : Bus} (h : Waited b b') (hb : Delivered stream b) :
    Delivered stream b' := by
  refine ⟨Waited.inOrder h hb.inOrder, ?_, ?_⟩
  · rw [h.frames, h.handed, h.dropped, h.pending]
    exact hb.signals
  · rw [h.pending]
    exact hb.bounded

/-- A frame that is no signal leaves the queue alone. -/
theorem Took.delivered {stream : List Bytes} {b b' : Bus} {raw : Bytes} (h : Took b raw b') (hin : InOrder stream b')
    (hb : Delivered stream b) (hraw : signalsOf [raw] = []) : Delivered stream b' := by
  refine ⟨hin, ?_, ?_⟩
  · rw [h.frames, h.handed, h.dropped, h.pending, signalsOf_append, hraw, List.append_nil]
    exact hb.signals
  · rw [h.pending]
    exact hb.bounded

theorem Queued.refl {b : Bus} (h : b.pending.length ≤ maxPending) : Queued b [] b := by
  refine ⟨rfl, ?_, ?_⟩
  · show b.dropped = b.dropped + (b.pending.length + 0 - maxPending)
    omega
  · show b.pending.length = min maxPending (b.pending.length + 0)
    omega

/-- One more frame that is no signal. -/
theorem Queued.other {b c d : Bus} {frames : List Bytes} {raw : Bytes} (h : Queued b frames c)
    (hraw : signalsOf [raw] = []) (hhanded : d.handed = c.handed) (hdropped : d.dropped = c.dropped)
    (hpending : d.pending = c.pending) : Queued b (frames ++ [raw]) d := by
  have hsame : signalsOf (frames ++ [raw]) = signalsOf frames := by rw [signalsOf_append, hraw, List.append_nil]
  refine ⟨hhanded.trans h.handed, ?_, ?_⟩
  · rw [hdropped, h.dropped, hsame]
  · rw [hpending, h.length, hsame]

end BusLemmas

/-! ## Operations -/

/-- Failures of the socket and of the call itself, not of what the bus sends. -/
def BusError.Outside (e : BusError) : Prop :=
  e = .expired ∨ e = .closed ∨ e = .marshal ∨ e = .writeTimedOut ∨ ∃ message, e = .io message

/-- On the way from `b` to `b'` the messages of these frames were decoded; none of them answers
the serial, and their signals were queued. -/
structure Passed (serial : UInt32) (b : Bus) (frames : List Bytes) (b' : Bus) : Prop where
  unanswered : ∀ raw ∈ frames, ∃ m, Message.parse raw = some m ∧ m.answers serial = false
  queued : Queued b frames b'

namespace BusLemmas

variable {stream : List Bytes}

end BusLemmas

variable {stream : List Bytes}

namespace BusLemmas

end BusLemmas

namespace BusLemmas

end BusLemmas

/-- A connection on which the bus is about to send the messages of `stream`; the inbox may hold
a beginning of them already. -/
structure Fresh (stream : List Bytes) (b : Bus) : Prop where
  pending : b.pending = []
  handed : b.handed = []
  dropped : b.dropped = 0
  frames : b.frames = []
  bytes : b.inbox ++ b.incoming = stream.flatten

end OmtClient.Receiver.Dbus
