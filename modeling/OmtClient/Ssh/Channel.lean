import OmtClient.Lib.Prog
import OmtClient.Ssh.Wire

/-!
# A session channel

`Channel` of `crates/omt-deploy/src/ssh/channel.rs`: opening, the messages of the server, requests
and data, with flow control in both directions.

The channel runs over what the transport, the clock and the operator give it, which are lists in
its state: what each wait for a packet ends with, whether the transport takes each packet it is
handed, and whether each look at the clock finds the time over and each look at the cancel flag
finds it raised. A list that runs out goes on with a timeout, a packet that is taken, a time that
is over and a flag that is not raised. The counters are checked: a sum or a difference that its
type does not hold is a panic.
-/

namespace OmtClient.Ssh.Channel

open OmtClient.Lib Prog Wire

def localWindow : Nat := 2 * 1024 * 1024
def localMaxPacket : Nat := 32768

namespace Msg

def channelOpen : Byte := 90
def openConfirmation : Byte := 91
def openFailure : Byte := 92
def windowAdjust : Byte := 93
def data : Byte := 94
def extendedData : Byte := 95
def eof : Byte := 96
def close : Byte := 97
def request : Byte := 98
def success : Byte := 99
def failure : Byte := 100

end Msg

/-! ## The state -/

/-- What a wait for a packet ends with. -/
inductive Arrival
  | timeout
  | failed (text : String)
  | packet (payload : Bytes)
  deriving DecidableEq, Repr

/-- What happens on a channel: a packet of the server is dispatched, the server is found to overrun
the window, or a packet is handed to the transport, which takes it or not, while the server's
largest packet is `largest`. -/
inductive Event
  | got (payload : Bytes)
  | overran
  | handed (packet : Bytes) (taken : Bool) (largest : UInt32)
  deriving DecidableEq, Repr

/-- Why an operation of the channel ends. -/
inductive Error
  | transport (text : String)
  | malformed
  | unexpected (kind : Byte)
  | overran
  | tooMuch
  | notOpened
  | refused
  | noAnswer (kind : String)
  | noExitStatus
  | closed
  | windowTimeout
  | cancelled
  | panic
  | stuck
  deriving DecidableEq, Repr

def Error.text : Error → String
  | .transport text => text
  | .malformed => "the SSH server sent a malformed channel message"
  | .unexpected kind => "unexpected SSH message " ++ toString kind.toNat
  | .overran => "the SSH server overran the channel window"
  | .tooMuch => "remote command output exceeded 4 MiB"
  | .notOpened => "the SSH server did not open a channel"
  | .refused => "the SSH server refused to open a session channel"
  | .noAnswer kind => "the SSH server did not answer the " ++ kind ++ " request"
  | .noExitStatus => "shell upload timed out waiting for exit status"
  | .closed => "the remote side closed the channel"
  | .windowTimeout => "upload timed out waiting for the SSH window"
  | .cancelled => "operation cancelled"
  | .panic => "attempt to compute with overflow"
  | .stuck => "stuck"

/-- A channel, what is to come from outside, and what has happened. -/
structure State where
  localId : UInt32
  remoteId : UInt32
  remoteWindow : Nat
  remoteMaxPacket : UInt32
  /-- Received bytes not yet returned to the window. -/
  consumed : Nat
  opened : Bool
  openFailed : Bool
  eofReceived : Bool
  closeReceived : Bool
  closeSent : Bool
  eofSent : Bool
  reply : Option Bool
  exit : Option Nat
  out : Bytes
  err : Bytes
  keepOut : Bool
  keepErr : Bool
  limit : Nat
  arrivals : List Arrival
  takes : List (Except String Unit)
  late : List Bool
  cancels : List Bool
  log : List Event

abbrev Chan := Prog State Error

/-- A channel before its first message. -/
def State.start (localId : UInt32) (keepOut keepErr : Bool) (limit : Nat) (arrivals : List Arrival)
    (takes : List (Except String Unit)) (late cancels : List Bool) : State :=
  { localId, remoteId := 0, remoteWindow := 0, remoteMaxPacket := 0, consumed := 0, opened := false
    openFailed := false, eofReceived := false, closeReceived := false, closeSent := false, eofSent := false
    reply := none, exit := none, out := [], err := [], keepOut, keepErr, limit, arrivals, takes, late, cancels
    log := [] }

/-! ## Checked arithmetic -/

/-- A sum below `bound`. -/
def addAt (bound a b : Nat) : Chan Nat := orRaise (if a + b < bound then some (a + b) else none) .panic

/-- A difference that is not negative. -/
def subAt (a b : Nat) : Chan Nat := orRaise (if b ≤ a then some (a - b) else none) .panic

/-! ## What comes from outside -/

/-- `t.send`. -/
def send (packet : Bytes) : Chan Unit := do
  let c ← get
  match c.takes with
  | .error text :: rest => do
    modify fun c => { c with takes := rest, log := c.log ++ [.handed packet false c.remoteMaxPacket] }
    raise (.transport text)
  | .ok () :: rest => modify fun c => { c with takes := rest, log := c.log ++ [.handed packet true c.remoteMaxPacket] }
  | [] => modify fun c => { c with log := c.log ++ [.handed packet true c.remoteMaxPacket] }

/-- `now_ms() >= deadline`. -/
def isLate : Chan Bool := do
  let c ← get
  modify fun c => { c with late := c.late.drop 1 }
  pure (c.late.headD true)

/-- `sys::check_cancel`. -/
def checkCancel : Chan Unit := do
  let c ← get
  modify fun c => { c with cancels := c.cancels.drop 1 }
  if c.cancels.headD false then raise .cancelled else pure ()

/-! ## The messages of the server -/

/-- `send_window_adjust`. -/
def sendWindowAdjust : Chan Unit := do
  let c ← get
  if c.consumed < localWindow / 2 ∨ c.closeSent = true then pure ()
  else do
    modify fun c => { c with consumed := 0 }
    send (Msg.windowAdjust :: (putU32 c.remoteId ++ putU32 (UInt32.ofNat c.consumed)))

/-- What is collected of the data, when asked, up to the limit. -/
def collect (toErr : Option Bool) (data : Bytes) : Chan Unit := do
  let c ← get
  match toErr with
  | none => pure ()
  | some isErr =>
    if (if isErr then c.keepErr else c.keepOut) = true then
      if c.limit < (if isErr then c.err else c.out).length + data.length then raise .tooMuch
      else modify fun c => if isErr then { c with err := c.err ++ data } else { c with out := c.out ++ data }
    else pure ()

/-- `sink`. -/
def sink (toErr : Option Bool) (data : Bytes) : Chan Unit := do
  let c ← get
  let room ← subAt localWindow c.consumed
  if room < data.length then do
    modify fun c => { c with log := c.log ++ [.overran] }
    raise .overran
  else do
    let consumed ← addAt (2 ^ 32) c.consumed (lengthU32 data.length).toNat
    modify fun c => { c with consumed }
    collect toErr data
    sendWindowAdjust

/-- `send_close`. -/
def sendClose : Chan Unit := do
  let c ← get
  if c.closeSent = true ∨ c.opened = false then pure ()
  else do
    modify fun c => { c with closeSent := true }
    send (Msg.close :: putU32 c.remoteId)

/-- The answer to a channel that the server asks for. -/
def openRefusal (sender : UInt32) : Bytes :=
  Msg.openFailure :: (putU32 sender ++ putU32 1 ++ putString [] ++ putString [])

/-- The exit status, if that is what is requested. -/
def exitStatus (name body : Bytes) : Chan Unit :=
  if name = utf8 "exit-status" then do
    let (status, _) ← orRaise (u32 body) .malformed
    modify fun c => { c with exit := some (if status.toNat < 2 ^ 31 then status.toNat else 1) }
  else pure ()

/-- What a channel message says behind its recipient. -/
def handle (kind : Byte) (body : Bytes) : Chan Unit :=
  if kind = Msg.openConfirmation then do
    let (remoteId, r) ← orRaise (u32 body) .malformed
    modify fun c => { c with remoteId }
    let (window, r) ← orRaise (u32 r) .malformed
    modify fun c => { c with remoteWindow := window.toNat }
    let (remoteMaxPacket, _) ← orRaise (u32 r) .malformed
    modify fun c => { c with remoteMaxPacket, opened := true }
  else if kind = Msg.openFailure then modify fun c => { c with openFailed := true }
  else if kind = Msg.windowAdjust then do
    let (add, _) ← orRaise (u32 body) .malformed
    let c ← get
    let sum ← addAt (2 ^ 64) c.remoteWindow add.toNat
    modify fun c => { c with remoteWindow := min sum (2 ^ 32 - 1) }
  else if kind = Msg.data then do
    let (data, _) ← orRaise (string body) .malformed
    sink (some false) data
  else if kind = Msg.extendedData then do
    let (code, r) ← orRaise (u32 body) .malformed
    let (data, _) ← orRaise (string r) .malformed
    sink (if code = 1 then some true else none) data
  else if kind = Msg.eof then modify fun c => { c with eofReceived := true }
  else if kind = Msg.close then do
    modify fun c => { c with closeReceived := true }
    sendClose
  else if kind = Msg.request then do
    let (name, r) ← orRaise (string body) .malformed
    let (wantReply, r) ← orRaise (boolean r) .malformed
    exitStatus name r
    let c ← get
    if wantReply = true then send (Msg.failure :: putU32 c.remoteId) else pure ()
  else if kind = Msg.success then modify fun c => { c with reply := some true }
  else if kind = Msg.failure then modify fun c => { c with reply := some false }
  else raise .malformed

/-- `dispatch_payload`. -/
def dispatch (payload : Bytes) : Chan Unit := do
  modify fun c => { c with log := c.log ++ [.got payload] }
  let c ← get
  let kind := payload.headD 0
  if kind = Msg.channelOpen then
    match (string (payload.drop 1)).bind fun (_, r) => u32 r with
    | some (sender, _) => send (openRefusal sender)
    | none => raise (.unexpected kind)
  else if kind < Msg.channelOpen ∨ Msg.failure < kind then raise (.unexpected kind)
  else do
    let (recipient, r) ← orRaise (u32 (payload.drop 1)) .malformed
    -- a channel already closed
    if recipient ≠ c.localId then pure () else handle kind r

/-- `poll`: whether a packet came. -/
def poll : Chan Bool := do
  let c ← get
  match c.arrivals with
  | [] => pure false
  | a :: rest => do
    modify fun c => { c with arrivals := rest }
    match a with
    | .timeout => pure false
    | .failed text => raise (.transport text)
    | .packet payload => do
      dispatch payload
      pure true

/-! ## The operations of the client -/

/-- `wait_until`. -/
def waitUntil (done : State → Bool) (e : Error) : Chan Unit := do
  let c ← get
  loop (do
    let c ← get
    if done c = true then pure (some ())
    else do
      let expired ← isLate
      if expired = true then raise e
      else do
        let _ ← poll
        pure none) .stuck (c.late.length + 1)

/-- `Channel::open`, once the channel is made. -/
def openChannel : Chan Unit := do
  let c ← get
  send (Msg.channelOpen :: (putString (utf8 "session") ++ putU32 c.localId ++ putU32 (UInt32.ofNat localWindow) ++
    putU32 (UInt32.ofNat localMaxPacket)))
  waitUntil (fun c => c.opened || c.openFailed) .notOpened
  let c ← get
  if c.openFailed = true then raise .refused else pure ()

/-- `request`: whether the server accepted. -/
def request (kind : String) (wantReply : Bool) (extra : Bytes) : Chan Bool := do
  let c ← get
  modify fun c => { c with reply := none }
  send (Msg.request :: (putU32 c.remoteId ++ putString (utf8 kind) ++ putBool wantReply ++ extra))
  if wantReply = true then do
    waitUntil (fun c => c.reply.isSome || c.closeReceived) (.noAnswer kind)
    let c ← get
    pure (c.reply == some true)
  else pure true

/-- A CHANNEL_DATA message. -/
def dataPacket (remoteId : UInt32) (data : Bytes) : Bytes := Msg.data :: (putU32 remoteId ++ putString data)

/-- The room that the server's window and packet size leave. -/
def State.room (c : State) : Nat := min (min c.remoteWindow c.remoteMaxPacket.toNat) localMaxPacket

/-- The loop of `write`, in a number of turns. -/
def writeLoop : Nat → Bytes → Chan Unit
  | _, [] => pure ()
  | 0, _ => raise .stuck
  | turns + 1, b :: bs => do
    checkCancel
    let c ← get
    if c.closeReceived = true ∨ c.eofSent = true then raise .closed
    else if c.room = 0 then do
      let expired ← isLate
      if expired = true then raise .windowTimeout
      else do
        let _ ← poll
        writeLoop turns (b :: bs)
    else do
      let n := min (b :: bs).length c.room
      send (dataPacket c.remoteId ((b :: bs).take n))
      let window ← subAt c.remoteWindow n
      modify fun c => { c with remoteWindow := window }
      writeLoop turns ((b :: bs).drop n)

/-- `write`. -/
def write (data : Bytes) : Chan Unit := do
  let c ← get
  writeLoop (data.length + c.late.length + 1) data

/-- `eof`. -/
def eof : Chan Unit := do
  let c ← get
  if c.eofSent = true ∨ c.closeSent = true then pure ()
  else do
    modify fun c => { c with eofSent := true }
    send (Msg.eof :: putU32 c.remoteId)

/-- `close`. -/
def close : Chan Unit := do
  let _ ← attempt sendClose
  pure ()

/-- A use of a channel by the code above it. -/
inductive Op
  | open_
  | request (kind : String) (wantReply : Bool) (extra : Bytes)
  | write (data : Bytes)
  | poll
  | eof
  | close
  | awaitClose

def op : Op → Chan Unit
  | .open_ => openChannel
  | .request kind wantReply extra => do
    let _ ← Channel.request kind wantReply extra
    pure ()
  | .write data => Channel.write data
  | .poll => do
    let _ ← Channel.poll
    pure ()
  | .eof => Channel.eof
  | .close => Channel.close
  | .awaitClose => waitUntil State.closeReceived .noExitStatus

/-- The uses of a channel and how they end, each made whether or not the one before it failed. -/
def ops : List Op → Chan (List (Except Error Unit))
  | [] => pure []
  | o :: os => do
    let result ← attempt (op o)
    let results ← ops os
    pure (result :: results)

end OmtClient.Ssh.Channel
