import OmtClient.Lib.Prog
import OmtClient.Receiver.Detail
import OmtClient.Receiver.Handoff
import OmtClient.Receiver.Present

/-!
# The playback sessions

`session` and `audio_session` of `crates/omt-receiver/src/play.rs`: the loops that take frames from a channel through
the hand-off queue to the display or the audio device, and `drain`, which both of them receive with.

Whatever a session asks, the clock, the stop flag, the socket, the display, the device, is answered by a `World` that
may answer anything at each of its questions. `history` is no field of the source: it records what was done, in order.
A loop is cut after `patience` turns, so that what is said about a cut run is said about every moment of a run.

1. `session_truthful`: what a video session tells about itself is what it did, and it gives up after three reconnects
   without a frame.
2. `audio_gaps`: an audio session hands on its frames in order, and forgets its timeline wherever one is missing.
-/

namespace OmtClient.Receiver.Play

open OmtClient.Lib OmtClient.Omt Prog Handoff

def mediaGraceMs : Nat := 5000
def mediaStallMs : Nat := 15000
def connectorPollMs : Nat := 500
def receiveSliceMs : Nat := 500
def connectTimeoutMs : Nat := 3000
def recoverAttempts : Nat := 3
def recoverBackoffMs : Nat := 250
def recoverTimeoutMs : Nat := 1000
def audioFeedMs : Nat := 20

/-- What is outside of the sessions, each answer by the number of questions before it. The channel is asked for a
frame until a deadline, and with `true` finishes a frame that has begun even past it. -/
structure World where
  now : Nat → Nat
  stopped : Nat → Bool
  isConnected : Nat → Bool
  resolve : Nat → Bool
  openOutput : Nat → Option String
  connect : (deadlineMs : Nat) → Nat → Option String
  spawn : Nat → Bool
  receive : (deadlineMs : Nat) → (wait : Bool) → Nat → Recv × Held
  reserves : Nat → Bool
  present : Held → Nat → Present
  presentationDetail : (interlaced : Bool) → Nat → String
  underruns : Nat → Nat
  wanted : Nat → Bool
  playing : Nat → Bool
  room : Nat → Bool
  write : Held → Nat → Option String
  keepAlive : Nat → Option String

/-- What a session does. -/
inductive Deed
  | push (frame : Held) (reserves : Bool)
  | received
  | wait (ms : Nat)
  | connect (ok : Bool)
  | present (frame : Held) (outcome : Present)
  | forgetTimeline
  | write (frame : Held) (ok : Bool)
  | alive (nowMs : Nat)
  | report (r : Report)

/-- What the two sessions have in common, and the variables of one of them. -/
structure Session (L : Type) where
  asked : Nat
  connected : Bool
  queue : Queue
  dropped : Nat
  stallAt : Nat
  history : List Deed
  locals : L

/-- Why a loop is left: it is cut, or there is an error. -/
inductive Stop
  | cut
  | error (text : String)

abbrev Act (L : Type) := Prog (Session L) Stop

/-! ## The details -/

/-- `describe_running`. -/
def describeRunning (base : String) (reconnects skipped dropped : Nat) : String :=
  (if 0 < reconnects ∧ 0 < skipped then
      base ++ " " ++ toString reconnects ++ " video reconnect(s) and " ++ toString skipped ++ " skipped frame(s) in this session."
    else if 0 < reconnects then base ++ " " ++ toString reconnects ++ " video reconnect(s) in this session."
    else if 0 < skipped then base ++ " " ++ toString skipped ++ " skipped frame(s) in this session."
    else base) ++
  (if 0 < dropped then
      " " ++ toString dropped ++ " frame(s) replaced by a newer one before display in this session."
    else "")

/-- What the running detail names. -/
structure Key where
  base : String
  reconnects : Nat
  skipped : Nat
  dropped : Nat
  underruns : Nat
  deriving DecidableEq, Repr

/-- The detail of a running session, as it is built. -/
def Key.text (k : Key) : String :=
  describeRunning k.base k.reconnects k.skipped k.dropped ++
    if 0 < k.underruns then " " ++ toString k.underruns ++ " audio underrun(s) in this session." else ""

structure RunningDetail where
  key : Option Key := none
  text : String := ""

/-- `get_with_audio`: the text is rebuilt only when something it names changes. -/
def RunningDetail.getWithAudio (r : RunningDetail) (k : Key) : RunningDetail :=
  if r.key = some k then r else ⟨some k, k.text⟩

/-- `describe_audio`. -/
def describeAudio (underruns : Nat) : String :=
  if underruns = 0 then "Playing OMT video and audio."
  else "Playing OMT video and audio. " ++ toString underruns ++
    " audio underrun(s) in this session; the sender's audio is arriving later than the display consumes it."

section

variable {L : Type} (interval : AudioHeader → Option Nat) (w : World) (patience : Nat)

/-! ## Receiving -/

def ask {α : Type} (question : World → Nat → α) : Act L α := do
  let s ← get
  modify fun s => { s with asked := s.asked + 1 }
  pure (question w s.asked)

def note (deed : Deed) : Act L Unit := modify fun s => { s with history := s.history ++ [deed] }

/-- A call of the channel. Anything but a frame or a would-block closes it. -/
def receive (deadlineMs : Nat) (wait : Bool) : Act L (Recv × Held) := do
  let s ← get
  if s.connected = false then pure (.error .closed, {})
  else do
    let (r, frame) ← ask w fun w => w.receive deadlineMs wait
    match r with
    | .ok | .wouldBlock _ => pure (r, frame)
    | .timedOut | .error _ => do
      modify fun s => { s with connected := false }
      pure (r, frame)

/-- `accept_frame`. -/
def acceptFrame (kind : FrameType) (frame : Held) : Act L Bool :=
  if frame.header.map (·.frameType) ≠ some kind then pure false
  else do
    let reserves ← ask w World.reserves
    modify fun s =>
      let (dropped, queue) := s.queue.takeSpare.2.push interval frame reserves
      { s with queue, dropped := s.dropped + dropped, history := s.history ++ [.push frame reserves] }
    pure true

/-- `drain_ready`. -/
def drainReady (kind : FrameType) : Nat → Bool → Act L Bool
  | 0, _ => raise .cut
  | n + 1, received => do
    let (r, frame) ← receive w 0 false
    match r with
    | .ok => do
      let accepted ← acceptFrame interval w kind frame
      drainReady kind n (received || accepted)
    | .wouldBlock _ => pure received
    | .timedOut | .error _ => raise (.error (r.text.getD "OMT receive failed"))

/-- `drain`. -/
def drain (kind : FrameType) (waitUntil : Nat) (takeReady punctual : Bool) : Act L Bool := do
  let received ← drainReady interval w kind patience false
  let now ← ask w World.now
  let s ← get
  if waitUntil - now = 0 ∨ (takeReady = true ∧ s.queue.frames ≠ []) then pure received
  else do
    let (r, frame) ← receive w waitUntil !punctual
    match r with
    | .ok => do
      let accepted ← acceptFrame interval w kind frame
      drainReady interval w kind patience (received || accepted)
    | .wouldBlock _ => pure received
    | .timedOut | .error _ => raise (.error (r.text.getD "OMT receive failed"))

/-! ## The video session -/

structure Video where
  lastFrame : Nat
  nextConnectorCheck : Nat
  reconnects : Nat
  skipped : Nat
  attempts : Nat
  running : RunningDetail

/-- `wait_with_heartbeat`. -/
def waitWithHeartbeat (totalMs : Nat) (connector : Connector) : Act L Unit := do
  let now ← ask w World.now
  let deadline := now + totalMs
  loop (do
    let stopped ← ask w World.stopped
    let now ← ask w World.now
    if stopped = true ∨ deadline ≤ now then pure (some ())
    else do
      note (.report (.heartbeat connector))
      pure none) .cut patience
  note (.wait totalMs)

/-- A sign of life: the waits for the next one begin anew. -/
def alive : Act Video Unit := do
  let now ← ask w World.now
  let now' ← ask w World.now
  modify fun s => { s with
    stallAt := now' + mediaStallMs
    history := s.history ++ [.alive now']
    locals := { s.locals with lastFrame := now + mediaGraceMs } }

/-- Whether the display is still there, asked every half second. -/
def checkConnector : Act Video Bool := do
  let now ← ask w World.now
  let s ← get
  if s.locals.nextConnectorCheck ≤ now then do
    let now ← ask w World.now
    modify fun s => { s with locals := { s.locals with nextConnectorCheck := now + connectorPollMs } }
    ask w World.isConnected
  else pure true

/-- What a turn does with the queue. -/
def showNext (connector : Connector) : Act Video (Option (Option String)) := do
  let s ← get
  match s.queue.pop with
  | some (frame, queue) => do
    let interlaced := frame.video.any fun v => v.flags &&& 1 != 0
    let outcome ← ask w fun w => w.present frame
    modify fun s => { s with
      queue := queue.recycle frame.vec
      history := s.history ++ [.present frame outcome]
      locals := { s.locals with skipped := if outcome = .skipped then s.locals.skipped + 1 else s.locals.skipped } }
    match outcome with
    | .presented | .skipped => do
      let base ← ask w fun w => w.presentationDetail interlaced
      let underruns ← ask w World.underruns
      modify fun s => { s with
        locals := { s.locals with
          running := s.locals.running.getWithAudio ⟨base, s.locals.reconnects, s.locals.skipped, s.dropped, underruns⟩ } }
      let s ← get
      note (.report (.video .running s.locals.running.text connector))
      pure none
    | .unsupported detail => do
      note (.report (.video .unsupportedFormat detail connector))
      pure none
    | .failed detail => pure (some (some detail))
  | none => do
    let now ← ask w World.now
    let s ← get
    if s.stallAt ≤ now then
      pure (some (some ("No video frames for " ++ toString (mediaStallMs / 1000) ++ " seconds on a connected socket.")))
    else do
      let now ← ask w World.now
      if s.locals.lastFrame ≤ now then note (.report (.video .retrying "Waiting for video frames." connector)) else pure ()
      pure none

/-- What a session says when it gives up. -/
def gaveUp (error : String) (attempts : Nat) : String :=
  error ++ "; " ++ toString attempts ++ " in-session video reconnects did not hold."

/-- What a turn does when receiving failed. -/
def recover (connector : Connector) (error : String) : Act Video (Option (Option String)) := do
  note (.report (.heartbeat connector))
  let s ← get
  if s.connected = true then showNext w connector
  else if recoverAttempts ≤ s.locals.attempts then pure (some (some (gaveUp error s.locals.attempts)))
  else do
    note (.report (.video .retrying (sanitizeDetail error) connector))
    waitWithHeartbeat w patience (recoverBackoffMs * s.locals.attempts) connector
    let stopped ← ask w World.stopped
    if stopped = true then pure (some none)
    else do
      let now ← ask w World.now
      let refused ← ask w fun w => w.connect (now + recoverTimeoutMs)
      modify fun s => { s with
        connected := refused.isNone
        history := s.history ++ [.connect refused.isNone]
        locals := { s.locals with
          attempts := s.locals.attempts + 1
          reconnects := if refused.isNone then s.locals.reconnects + 1 else s.locals.reconnects } }
      match refused with
      | some e => do
        let s ← get
        if recoverAttempts ≤ s.locals.attempts then pure (some (some (gaveUp e s.locals.attempts))) else pure none
      | none => do
        alive w
        pure none

/-- A turn of the loop in `session`: the failure that ends it, if any, unless it goes on. -/
def turn (connector : Connector) : Act Video (Option (Option String)) := do
  let stopped ← ask w World.stopped
  if stopped = true then pure (some none)
  else do
    let plugged ← checkConnector w
    if plugged = false then pure (some (some "HDMI display disconnected."))
    else do
      let now ← ask w World.now
      let result ← attempt (drain interval w patience .video (now + receiveSliceMs) true false)
      match result with
      | .ok received => do
        if received = true then do
          modify fun s => { s with history := s.history ++ [.received], locals := { s.locals with attempts := 0 } }
          alive w
        else pure ()
        showNext w connector
      | .error (.error e) => recover w patience connector e
      | .error .cut => raise .cut

/-- `AudioWorker::start`. -/
def startWorker (connector : Connector) : Act L Unit := do
  let spawned ← ask w World.spawn
  if spawned = true then pure ()
  else note (.report (.audio .failed "Audio unavailable: unable to create bounded-stack worker." connector))

/-- `session`. -/
def session (connector : Connector) : Act Video Unit := do
  let resolved ← ask w World.resolve
  if resolved = false then raise (.error "OMT target was not discovered.")
  else do
    match ← ask w World.openOutput with
    | some e => raise (.error e)
    | none => do
      let now ← ask w World.now
      match ← ask w fun w => w.connect (now + connectTimeoutMs) with
      | some e => raise (.error e)
      | none => do
        modify fun s => { s with connected := true }
        startWorker w connector
        note (.report (.video .starting "Waiting for OMT media." connector))
        alive w
        let now ← ask w World.now
        modify fun s => { s with locals := { s.locals with nextConnectorCheck := now } }
        let failure ← loop (turn interval w patience connector) .cut patience
        note (.report (.audio .stopped "" connector))
        match failure with
        | some e => raise (.error e)
        | none => pure ()

/-- A session before its first step. -/
def Session.video : Session Video := ⟨0, false, .new .video videoByteCap, 0, 0, [], ⟨0, 0, 0, 0, 0, {}⟩⟩

/-! ## The audio session -/

structure Audio where
  reported : Nat
  detail : String

/-- The frames that the device has room for: whether one was written, or the error that ends the session. -/
def writeFrames : Nat → Bool → Act Audio Bool
  | 0, _ => raise .cut
  | n + 1, written => do
    let room ← ask w World.room
    if room = false then pure written
    else do
      let s ← get
      match s.queue.pop with
      | none => pure written
      | some (frame, queue) => do
        let failed ← ask w fun w => w.write frame
        modify fun s => { s with
          queue := queue.recycle frame.vec
          history := s.history ++ [.write frame failed.isNone] }
        match failed with
        | some e => raise (.error e)
        | none => writeFrames n true

/-- The audio that arrives while the device has enough to play. -/
def feed : Act Audio Unit := do
  let now ← ask w World.now
  let playing ← ask w World.playing
  let s ← get
  let waitUntil := now + if s.queue.frames = [] ∧ playing = false then receiveSliceMs else audioFeedMs
  let result ← attempt (drain interval w patience .audio waitUntil false true)
  match result with
  | .ok true => do
    let now ← ask w World.now
    modify fun s => { s with stallAt := now + mediaStallMs }
  | .ok false => pure ()
  | .error (.error e) => do
    let s ← get
    if s.connected = false then raise (.error e) else pure ()
  | .error .cut => raise .cut

def forgetGap (shed : Nat) : Act Audio Unit := do
  let s ← get
  if s.dropped ≠ shed then note .forgetTimeline else pure ()

def tellAudio (connector : Connector) (written : Bool) : Act Audio Unit := do
  let underruns ← ask w World.underruns
  modify fun s => { s with
    locals := if underruns ≠ s.locals.reported then ⟨underruns, describeAudio underruns⟩ else s.locals }
  let s ← get
  if written = true then note (.report (.audio .running s.locals.detail connector)) else pure ()

/-- A turn of the loop in `audio_session`. -/
def audioTurn (connector : Connector) : Act Audio (Option Unit) := do
  let wanted ← ask w World.wanted
  if wanted = false then pure (some ())
  else do
    let s ← get
    feed interval w patience
    forgetGap s.dropped
    let written ← writeFrames w patience false
    let failed ← ask w World.keepAlive
    match failed with
    | some e => raise (.error e)
    | none => do
      tellAudio w connector written
      let s ← get
      let now ← ask w World.now
      if s.queue.frames = [] ∧ s.stallAt ≤ now then
        raise (.error ("no audio frames for " ++ toString (mediaStallMs / 1000) ++ " seconds on a connected socket"))
      else pure none

/-- `audio_session`; it always ends with an error. -/
def audioSession (connector : Connector) : Act Audio Unit := do
  let now ← ask w World.now
  let refused ← ask w fun w => w.connect (now + connectTimeoutMs)
  match refused with
  | some e => raise (.error e)
  | none => do
    let now ← ask w World.now
    modify fun s => { s with connected := true, stallAt := now + mediaStallMs, locals := ⟨0, describeAudio 0⟩ }
    loop (audioTurn interval w patience connector) .cut patience
    raise (.error "")

/-- An audio session before its first step. -/
def Session.audio : Session Audio := ⟨0, false, .new .audio audioByteCap, 0, 0, [], ⟨0, ""⟩⟩

/-! ## What a history says -/

/-- The calls of the hand-off queue that are part of a deed. -/
def Deed.calls : Deed → List Call
  | .push frame reserves => [.takeSpare, .push frame reserves]
  | .present frame _ | .write frame _ => [.pop, .recycle frame.vec]
  | _ => []

/-- What went through the queue. -/
def traffic (kind : QueueKind) (byteCap : Nat) (h : List Deed) : Traffic :=
  Handoff.run interval kind byteCap (h.flatMap Deed.calls)

def Deed.handed : Deed → Option Held
  | .present frame _ | .write frame _ => some frame
  | _ => none

def Deed.isReconnect : Deed → Bool
  | .connect ok => ok
  | _ => false

def Deed.isSkip : Deed → Bool
  | .present _ .skipped => true
  | _ => false

/-- The attempts to reconnect since a frame was received. -/
def attempts (h : List Deed) : Nat :=
  h.foldl (fun n d => match d with
    | .received => 0
    | .connect _ => n + 1
    | _ => n) 0

/-- The last sign of life. -/
def lastAlive (h : List Deed) : Option Nat :=
  h.foldl (fun o d => match d with
    | .alive nowMs => some nowMs
    | _ => o) none

/-- At every moment of a history, what came next was right after what had come before. -/
def Each (right : List Deed → Deed → Prop) (h : List Deed) : Prop := ∀ p d rest, h = p ++ d :: rest → right p d

/-- What a video session may do after what it did. -/
def Allowed (connector : Connector) (h : List Deed) : Deed → Prop
  | .report (.video .running text c) =>
    c = connector ∧ ∃ base underruns, text = Key.text ⟨base, h.countP Deed.isReconnect, h.countP Deed.isSkip,
      (traffic interval .video videoByteCap h).dropped, underruns⟩
  | .connect _ => attempts h < recoverAttempts ∧ ∃ q, h = q ++ [.wait (recoverBackoffMs * attempts q)]
  | .present frame _ => (traffic interval .video videoByteCap h).accepted.getLast? = some frame
  | _ => True

/-- Why a video session ends after what it did. -/
inductive Ending (h : List Deed) : String → Prop
  | unplugged (n : Nat) (hgone : w.isConnected n = false) : Ending h "HDMI display disconnected."
  | lost (error : String) (hmany : attempts h = recoverAttempts) : Ending h (gaveUp error recoverAttempts)
  | stalled (nowMs n : Nat) (hlast : lastAlive h = some nowMs) (hlate : nowMs + mediaStallMs ≤ w.now n) :
    Ending h ("No video frames for " ++ toString (mediaStallMs / 1000) ++ " seconds on a connected socket.")
  | undisplayed (frame : Held) (detail : String) (hlast : h.getLast? = some (.present frame (.failed detail))) : Ending h detail

/-- Why a video session ends that has not begun: the target is not there, the display cannot be opened, or the sender
cannot be reached. -/
inductive Unbegun : String → Prop
  | undiscovered (n : Nat) (hnone : w.resolve n = false) : Unbegun "OMT target was not discovered."
  | unopened (n : Nat) (error : String) (hopen : w.openOutput n = some error) : Unbegun error
  | unreached (deadlineMs n : Nat) (error : String) (hconnect : w.connect deadlineMs n = some error) : Unbegun error

/-- What an audio session may do after what it did: it writes the frame after those that it wrote or dropped, and has
forgotten its timeline since it wrote the last one if and only if it has dropped one since then. -/
def Continues (h : List Deed) : Deed → Prop
  | .write frame _ =>
    (traffic interval .audio audioByteCap h).accepted[(h.filterMap Deed.handed).length +
      (traffic interval .audio audioByteCap h).dropped]? = some frame ∧
    ∀ q f ok m, h = q ++ .write f ok :: m → m.filterMap Deed.handed = [] →
      (Deed.forgetTimeline ∈ m ↔ (traffic interval .audio audioByteCap (q ++ [.write f ok])).dropped <
        (traffic interval .audio audioByteCap h).dropped)
  | _ => True

end

namespace PlayLemmas

/-! ## Questions -/

section

variable {L α : Type} {interval : AudioHeader → Option Nat} {w : World} {patience : Nat} {s : Session L}

@[simp] theorem wp_ask {question : World → Nat → α} {Q : α → Session L → Prop} {E : Stop → Session L → Prop} :
    wp (ask w question) Q E s ↔ Q (question w s.asked) { s with asked := s.asked + 1 } := by
  simp only [ask, wp_bind, wp_get, wp_modify, wp_pure]

@[simp] theorem wp_note {deed : Deed} {Q : Unit → Session L → Prop} {E : Stop → Session L → Prop} :
    wp (note deed) Q E s ↔ Q () { s with history := s.history ++ [deed] } := Iff.rfl

variable {β : Type} {Q : β → Session L → Prop} {E : Stop → Session L → Prop}

theorem wp_ask_bind {question : World → Nat → α} {f : α → Act L β} :
    wp (ask w question >>= f) Q E s ↔ wp (f (question w s.asked)) Q E { s with asked := s.asked + 1 } :=
  (wp_bind).trans wp_ask

theorem wp_get_bind {f : Session L → Act L β} : wp (get >>= f) Q E s ↔ wp (f s) Q E s := (wp_bind).trans wp_get

theorem wp_modify_bind {g : Session L → Session L} {f : Unit → Act L β} : wp (modify g >>= f) Q E s ↔ wp (f ()) Q E (g s) :=
  (wp_bind).trans wp_modify

theorem wp_note_bind {deed : Deed} {f : Unit → Act L β} :
    wp (note deed >>= f) Q E s ↔ wp (f ()) Q E { s with history := s.history ++ [deed] } :=
  (wp_bind).trans wp_note

/-- What never fails may stand where a failure would matter. -/
theorem wp_never {m : Act L α} {Q : α → Session L → Prop} {E : Stop → Session L → Prop} (h : wp m Q (fun _ _ => False) s) : wp m Q E s :=
  wp_mono h (fun _ _ hq => hq) fun _ _ hno => hno.elim

/-- A loop may be cut. -/
theorem wp_loop_cut {body : Act L (Option α)} (I : Session L → Prop) {Q : α → Session L → Prop} {E : Stop → Session L → Prop}
    (hbody : ∀ s, I s → wp body (fun o s' => match o with
      | some a => Q a s'
      | none => I s') E s)
    (hcut : ∀ s, I s → E .cut s) {n : Nat} {s : Session L} (hs : I s) : wp (loop body .cut n) Q E s := by
  induction n generalizing s with
  | zero => exact hcut s hs
  | succ n ih =>
    refine wp_seq (hbody s hs) fun o s' h => ?_
    cases o with
    | some a => exact h
    | none => exact ih h

/-! ## Receiving -/

/-- What receiving does to a session, `I` lets happen. -/
structure Fed (interval : AudioHeader → Option Nat) (I : Session L → Prop) : Prop where
  asked : ∀ s n, I s → I { s with asked := n }
  down : ∀ s, I s → I { s with connected := false }
  push : ∀ s frame reserves, I s → I { s with
    queue := (s.queue.takeSpare.2.push interval frame reserves).2
    dropped := s.dropped + (s.queue.takeSpare.2.push interval frame reserves).1
    history := s.history ++ [.push frame reserves] }

/-- What is left when receiving ends with an error: nothing is connected. -/
def Down (I : Session L → Prop) (e : Stop) (s : Session L) : Prop := I s ∧ (e = .cut ∨ s.connected = false)

variable {I : Session L → Prop}

theorem receive_keeps (hI : Fed interval I) {deadlineMs : Nat} {wait : Bool} (hs : I s) :
    wp (receive w deadlineMs wait) (fun r s' => I s' ∧ (r.1 = .ok ∨ (∃ text, r.1 = .wouldBlock text) ∨ s'.connected = false))
      (fun _ _ => False) s := by
  simp only [receive, wp_bind, wp_get, wp_ite, wp_pure, wp_ask]
  refine ⟨fun hdown => ⟨hs, .inr (.inr hdown)⟩, fun _ => ?_⟩
  have hasked := hI.asked s (s.asked + 1) hs
  split
  next h => exact ⟨hasked, .inl h⟩
  next text h => exact ⟨hasked, .inr (.inl ⟨text, h⟩)⟩
  next => exact ⟨hI.down _ hasked, .inr (.inr rfl)⟩
  next => exact ⟨hI.down _ hasked, .inr (.inr rfl)⟩

theorem acceptFrame_keeps (hI : Fed interval I) {kind : FrameType} {frame : Held} (hs : I s) :
    wp (acceptFrame interval w kind frame) (fun _ => I) (fun _ _ => False) s := by
  simp only [acceptFrame, wp_ite, wp_bind, wp_pure, wp_ask, wp_modify]
  exact ⟨fun _ => hs, fun _ => hI.push _ frame _ (hI.asked s _ hs)⟩

theorem drainReady_keeps (hI : Fed interval I) {kind : FrameType} {n : Nat} {received : Bool} (hs : I s) :
    wp (drainReady interval w kind n received) (fun _ => I) (Down I) s := by
  induction n generalizing s received with
  | zero => exact ⟨hs, .inl rfl⟩
  | succ n ih =>
    rw [drainReady]
    refine wp_seq (wp_never (receive_keeps hI hs)) ?_
    rintro ⟨r, frame⟩ s' ⟨hs', hr⟩
    cases r with
    | ok =>
      refine wp_seq (wp_never (acceptFrame_keeps hI hs')) ?_
      exact fun accepted s'' h => ih h
    | wouldBlock text => exact hs'
    | timedOut => exact ⟨hs', .inr (hr.resolve_left nofun |>.resolve_left nofun)⟩
    | error reason => exact ⟨hs', .inr (hr.resolve_left nofun |>.resolve_left nofun)⟩

theorem drain_keeps (hI : Fed interval I) {kind : FrameType} {waitUntil : Nat} {takeReady punctual : Bool} (hs : I s) :
    wp (drain interval w patience kind waitUntil takeReady punctual) (fun _ => I) (Down I) s := by
  rw [drain]
  refine wp_seq (drainReady_keeps hI hs) fun received s₁ hs₁ => ?_
  refine (wp_ask_bind).mpr ((wp_get_bind).mpr ((wp_ite).mpr ⟨fun _ => ?_, fun _ => ?_⟩))
  · exact hI.asked _ _ hs₁
  · refine wp_seq (wp_never (receive_keeps hI (hI.asked _ _ hs₁))) ?_
    rintro ⟨r, frame⟩ s' ⟨hs', hr⟩
    cases r with
    | ok =>
      refine wp_seq (wp_never (acceptFrame_keeps hI hs')) ?_
      exact fun accepted s'' h => drainReady_keeps hI h
    | wouldBlock text => exact hs'
    | timedOut => exact ⟨hs', .inr (hr.resolve_left nofun |>.resolve_left nofun)⟩
    | error reason => exact ⟨hs', .inr (hr.resolve_left nofun |>.resolve_left nofun)⟩

end

/-! ## Histories -/

section

variable {interval : AudioHeader → Option Nat} {kind : QueueKind} {cap : Nat} {h : List Deed} {d : Deed}
  {right : List Deed → Deed → Prop}

theorem each_nil : Each right [] := fun p d rest h => by
  cases p with
  | nil => cases h
  | cons => cases h

theorem each_append (hall : Each right h) (hd : right h d) : Each right (h ++ [d]) := by
  intro p d' rest heq
  rcases List.eq_nil_or_concat rest with rfl | ⟨rest, last, rfl⟩
  · obtain ⟨rfl, hlast⟩ := List.append_inj' heq rfl
    cases hlast
    exact hd
  · rw [List.concat_eq_append, ← List.cons_append, ← List.append_assoc] at heq
    exact hall p d' rest (List.append_inj' heq rfl).1

theorem traffic_append :
    traffic interval kind cap (h ++ [d]) = d.calls.foldl (Traffic.step interval) (traffic interval kind cap h) := by
  rw [traffic, traffic, Handoff.run, Handoff.run, List.flatMap_append, List.flatMap_singleton, List.foldl_append]

theorem attempts_append : attempts (h ++ [d]) = match d with
    | .received => 0
    | .connect _ => attempts h + 1
    | _ => attempts h := by
  rw [attempts, List.foldl_append]
  cases d <;> rfl

theorem lastAlive_append : lastAlive (h ++ [d]) = match d with
    | .alive nowMs => some nowMs
    | _ => lastAlive h := by
  rw [lastAlive, List.foldl_append]
  cases d <;> rfl

/-- The queue of a session is what its deeds have made of it. -/
structure Tally (interval : AudioHeader → Option Nat) (kind : QueueKind) (cap : Nat) (queue : Queue)
    (dropped : Nat) (h : List Deed) : Prop where
  queue : queue = (traffic interval kind cap h).queue
  dropped : dropped = (traffic interval kind cap h).dropped
  handed : (traffic interval kind cap h).popped = h.filterMap Deed.handed

variable {queue queue' : Queue} {dropped : Nat} {frame : Held}

/-- A deed without calls. -/
theorem Tally.other (ht : Tally interval kind cap queue dropped h) (hcalls : d.calls = []) (hhanded : d.handed = none) :
    Tally interval kind cap queue dropped (h ++ [d]) := by
  have htraffic : traffic interval kind cap (h ++ [d]) = traffic interval kind cap h := by
    rw [traffic_append, hcalls]
    rfl
  refine ⟨by rw [htraffic, ht.queue], by rw [htraffic, ht.dropped], ?_⟩
  rw [htraffic, ht.handed, List.filterMap_append, List.filterMap_cons_none hhanded, List.filterMap_nil, List.append_nil]

theorem Tally.push (ht : Tally interval kind cap queue dropped h) (reserves : Bool) :
    Tally interval kind cap (queue.takeSpare.2.push interval frame reserves).2
      (dropped + (queue.takeSpare.2.push interval frame reserves).1) (h ++ [.push frame reserves]) := by
  refine ⟨?_, ?_, ?_⟩
  · rw [traffic_append, ht.queue]
    rfl
  · rw [traffic_append, ht.queue, ht.dropped]
    rfl
  · rw [traffic_append, List.filterMap_append]
    exact ht.handed.trans (List.append_nil _).symm

/-- A deed that takes a frame from the queue. -/
theorem Tally.pop (ht : Tally interval kind cap queue dropped h) (hpop : queue.pop = some (frame, queue'))
    (hcalls : d.calls = [.pop, .recycle frame.vec]) (hhanded : d.handed = some frame) :
    Tally interval kind cap (queue'.recycle frame.vec) dropped (h ++ [d]) := by
  have hstep : (traffic interval kind cap h).step interval .pop =
      { traffic interval kind cap h with
        queue := queue', popped := (traffic interval kind cap h).popped ++ [frame] } := by
    rw [Traffic.step, ← ht.queue, hpop]
  have htraffic : traffic interval kind cap (h ++ [d]) =
      { traffic interval kind cap h with
        queue := queue'.recycle frame.vec, popped := (traffic interval kind cap h).popped ++ [frame] } := by
    rw [traffic_append, hcalls, List.foldl_cons, hstep]
    rfl
  refine ⟨by rw [htraffic], by rw [htraffic, ht.dropped], ?_⟩
  rw [htraffic, List.filterMap_append, List.filterMap_cons_some hhanded, List.filterMap_nil]
  exact congrArg (· ++ [frame]) ht.handed

theorem Tally.conserved (ht : Tally interval kind cap queue dropped h) :
    Conserved (traffic interval kind cap h).accepted (h.filterMap Deed.handed) dropped queue.frames := by
  have hconserved := (run_inv interval kind cap (h.flatMap Deed.calls)).conserved
  rw [← ht.handed, ht.queue, ht.dropped]
  exact hconserved

/-- The frame that is taken is the one after those that were handed on or dropped. -/
theorem Tally.next (ht : Tally interval kind cap queue dropped h) (hpop : queue.pop = some (frame, queue')) :
    (traffic interval kind cap h).accepted[(h.filterMap Deed.handed).length + dropped]? = some frame := by
  have hinv : Handoff.Inv interval kind cap (traffic interval kind cap h) := run_inv interval kind cap _
  have hframes : queue.frames = frame :: queue'.frames := (HandoffLemmas.pop_spec (ht.queue ▸ hinv.sound) hpop).2.2.1
  have hconserved := ht.conserved
  rw [hframes] at hconserved
  exact hconserved.next

/-- The frame that is taken is the only one. -/
theorem Tally.newest (ht : Tally interval .video cap queue dropped h) (hpop : queue.pop = some (frame, queue')) :
    (traffic interval .video cap h).accepted.getLast? = some frame := by
  have hinv : Handoff.Inv interval .video cap (traffic interval .video cap h) := run_inv interval .video cap _
  have hframes : (traffic interval .video cap h).queue.frames = frame :: queue'.frames :=
    (HandoffLemmas.pop_spec hinv.sound (ht.queue ▸ hpop)).2.2.1
  have hsingle := hinv.single rfl
  have hconserved := hinv.conserved
  rw [hframes, List.length_cons] at hsingle
  rw [hframes, List.length_eq_zero_iff.mp (by omega : queue'.frames.length = 0)] at hconserved
  exact hconserved.newest

end


/-! ## The video session -/

section

variable {interval : AudioHeader → Option Nat} {w : World} {patience : Nat} {connector : Connector}
  {s : Session Video} {queue : Queue} {dropped stallAt : Nat} {h : List Deed} {v : Video}

/-- The variables of a video session say what it did. -/
structure Account (interval : AudioHeader → Option Nat) (connector : Connector) (queue : Queue)
    (dropped stallAt : Nat) (h : List Deed) (v : Video) : Prop where
  allowed : Each (Allowed interval connector) h
  tally : Tally interval .video videoByteCap queue dropped h
  reconnects : v.reconnects = h.countP Deed.isReconnect
  skipped : v.skipped = h.countP Deed.isSkip
  attempts : v.attempts = attempts h
  few : Play.attempts h ≤ recoverAttempts
  cache : ∀ k, v.running.key = some k → v.running.text = k.text
  alive : ∃ nowMs, lastAlive h = some nowMs ∧ stallAt = nowMs + mediaStallMs

def Inv (interval : AudioHeader → Option Nat) (connector : Connector) (s : Session Video) : Prop :=
  Account interval connector s.queue s.dropped s.stallAt s.history s.locals

theorem countP_snoc {d : Deed} (p : Deed → Bool) : (h ++ [d]).countP p = h.countP p + if p d = true then 1 else 0 := by
  rw [List.countP_append, List.countP_singleton]

/-- A deed that is neither about the queue nor counted. -/
theorem Account.quiet (ha : Account interval connector queue dropped stallAt h v) {d : Deed}
    (hright : Allowed interval connector h d) (hcalls : d.calls = []) (hhanded : d.handed = none)
    (hreconnect : d.isReconnect = false) (hskip : d.isSkip = false) (hattempts : Play.attempts (h ++ [d]) = Play.attempts h)
    (halive : lastAlive (h ++ [d]) = lastAlive h) : Account interval connector queue dropped stallAt (h ++ [d]) v where
  allowed := each_append ha.allowed hright
  tally := ha.tally.other hcalls hhanded
  reconnects := by rw [countP_snoc, hreconnect]; exact ha.reconnects
  skipped := by rw [countP_snoc, hskip]; exact ha.skipped
  attempts := ha.attempts.trans hattempts.symm
  few := Nat.le_trans (Nat.le_of_eq hattempts) ha.few
  cache := ha.cache
  alive := by rw [halive]; exact ha.alive

theorem Account.report (ha : Account interval connector queue dropped stallAt h v) {r : Report}
    (hright : Allowed interval connector h (.report r)) :
    Account interval connector queue dropped stallAt (h ++ [.report r]) v :=
  ha.quiet hright rfl rfl rfl rfl attempts_append lastAlive_append

theorem Account.wait (ha : Account interval connector queue dropped stallAt h v) (ms : Nat) :
    Account interval connector queue dropped stallAt (h ++ [.wait ms]) v :=
  ha.quiet trivial rfl rfl rfl rfl attempts_append lastAlive_append

theorem Account.push (ha : Account interval connector queue dropped stallAt h v) (frame : Held) (reserves : Bool) :
    Account interval connector (queue.takeSpare.2.push interval frame reserves).2
      (dropped + (queue.takeSpare.2.push interval frame reserves).1) stallAt (h ++ [.push frame reserves]) v where
  allowed := each_append ha.allowed trivial
  tally := ha.tally.push reserves
  reconnects := by rw [countP_snoc]; exact ha.reconnects
  skipped := by rw [countP_snoc]; exact ha.skipped
  attempts := by rw [attempts_append]; exact ha.attempts
  few := by rw [attempts_append]; exact ha.few
  cache := ha.cache
  alive := by rw [lastAlive_append]; exact ha.alive

theorem Account.received (ha : Account interval connector queue dropped stallAt h v) :
    Account interval connector queue dropped stallAt (h ++ [.received]) { v with attempts := 0 } where
  allowed := each_append ha.allowed trivial
  tally := ha.tally.other rfl rfl
  reconnects := by rw [countP_snoc]; exact ha.reconnects
  skipped := by rw [countP_snoc]; exact ha.skipped
  attempts := by rw [attempts_append]
  few := by rw [attempts_append]; exact Nat.zero_le _
  cache := ha.cache
  alive := by rw [lastAlive_append]; exact ha.alive

theorem Account.refresh (ha : Account interval connector queue dropped stallAt h v) (nowMs lastFrame : Nat) :
    Account interval connector queue dropped (nowMs + mediaStallMs) (h ++ [.alive nowMs])
      { v with lastFrame } where
  allowed := each_append ha.allowed trivial
  tally := ha.tally.other rfl rfl
  reconnects := by rw [countP_snoc]; exact ha.reconnects
  skipped := by rw [countP_snoc]; exact ha.skipped
  attempts := by rw [attempts_append]; exact ha.attempts
  few := by rw [attempts_append]; exact ha.few
  cache := ha.cache
  alive := ⟨nowMs, by rw [lastAlive_append], rfl⟩

theorem Account.connect (ha : Account interval connector queue dropped stallAt h v) (hfew : v.attempts < recoverAttempts)
    (hwait : ∃ q, h = q ++ [.wait (recoverBackoffMs * Play.attempts q)]) (ok : Bool) :
    Account interval connector queue dropped stallAt (h ++ [.connect ok])
      { v with attempts := v.attempts + 1, reconnects := if ok = true then v.reconnects + 1 else v.reconnects } where
  allowed := each_append ha.allowed ⟨ha.attempts ▸ hfew, hwait⟩
  tally := ha.tally.other rfl rfl
  reconnects := by
    rw [countP_snoc, ← ha.reconnects]
    cases ok <;> rfl
  skipped := by rw [countP_snoc]; exact ha.skipped
  attempts := by rw [attempts_append, ha.attempts]
  few := by
    rw [attempts_append, ← ha.attempts]
    exact hfew
  cache := ha.cache
  alive := by rw [lastAlive_append]; exact ha.alive

theorem Account.present (ha : Account interval connector queue dropped stallAt h v) {frame : Held} {queue' : Queue}
    (hpop : queue.pop = some (frame, queue')) (outcome : Present) :
    Account interval connector (queue'.recycle frame.vec) dropped stallAt (h ++ [.present frame outcome])
      { v with skipped := if outcome = .skipped then v.skipped + 1 else v.skipped } where
  allowed := each_append ha.allowed (ha.tally.newest hpop)
  tally := ha.tally.pop hpop rfl rfl
  reconnects := by rw [countP_snoc]; exact ha.reconnects
  skipped := by
    rw [countP_snoc, ← ha.skipped]
    cases outcome <;> rfl
  attempts := by rw [attempts_append]; exact ha.attempts
  few := by rw [attempts_append]; exact ha.few
  cache := ha.cache
  alive := by rw [lastAlive_append]; exact ha.alive

/-- Another running detail. -/
theorem Account.rerun (ha : Account interval connector queue dropped stallAt h v) {running : RunningDetail}
    (hcache : ∀ k, running.key = some k → running.text = k.text) :
    Account interval connector queue dropped stallAt h { v with running } :=
  ⟨ha.allowed, ha.tally, ha.reconnects, ha.skipped, ha.attempts, ha.few, hcache, ha.alive⟩

/-- The running detail is the one that is asked for, whether or not it is built anew. -/
theorem getWithAudio_spec {r : RunningDetail} (hcache : ∀ k, r.key = some k → r.text = k.text) (k : Key) :
    (r.getWithAudio k).text = k.text ∧ ∀ k', (r.getWithAudio k).key = some k' → (r.getWithAudio k).text = k'.text := by
  unfold RunningDetail.getWithAudio
  split
  next h => exact ⟨hcache k h, hcache⟩
  next => exact ⟨rfl, fun k' h => (Option.some.inj h) ▸ rfl⟩

theorem fed_video : Fed interval (Inv interval connector) where
  asked _ _ h := h
  down _ h := h
  push _ frame reserves h := Account.push h frame reserves

theorem tally_new : Tally interval .video videoByteCap (.new .video videoByteCap) 0 [] := ⟨rfl, rfl, rfl⟩

/-- When the loop begins. -/
theorem account_begin (worker : List Report) (hworker : worker.length ≤ 1)
    (haudio : ∀ r ∈ worker, ∃ state detail c, r = .audio state detail c) (nowMs lastFrame nextCheck : Nat) :
    Account interval connector (.new .video videoByteCap) 0 (nowMs + mediaStallMs)
      (worker.map Deed.report ++ [.report (.video .starting "Waiting for OMT media." connector)] ++ [.alive nowMs])
      ⟨lastFrame, nextCheck, 0, 0, 0, {}⟩ := by
  match worker, hworker with
  | [], _ =>
    exact ⟨each_append (each_append each_nil trivial) trivial, (tally_new.other rfl rfl).other rfl rfl, rfl, rfl, rfl,
      Nat.zero_le _, fun _ h => (nomatch h), nowMs, rfl, rfl⟩
  | [r], _ =>
    obtain ⟨state, detail, c, rfl⟩ := haudio r (List.mem_singleton_self r)
    exact ⟨each_append (each_append (each_append each_nil trivial) trivial) trivial,
      ((tally_new.other rfl rfl).other rfl rfl).other rfl rfl, rfl, rfl, rfl, Nat.zero_le _, fun _ h => (nomatch h), nowMs, rfl, rfl⟩

/-- What a turn leaves. -/
def Goes (interval : AudioHeader → Option Nat) (w : World) (connector : Connector)
    (o : Option (Option String)) (s : Session Video) : Prop :=
  Inv interval connector s ∧ match o with
    | none => True
    | some none => ∃ n, w.stopped n = true
    | some (some text) => Ending w s.history text

theorem showNext_goes (h : Inv interval connector s) :
    wp (showNext w connector) (Goes interval w connector) (fun _ _ => False) s := by
  rw [showNext]
  refine (wp_get_bind).mpr ?_
  cases hpop : s.queue.pop with
  | none =>
    simp only [wp_bind, wp_ask, wp_get, wp_ite, wp_note, wp_pure]
    refine ⟨fun hlate => ⟨h, ?_⟩, fun _ => ⟨fun _ => ⟨Account.report h trivial, trivial⟩, fun _ => ⟨h, trivial⟩⟩⟩
    obtain ⟨nowMs, hlast, hstall⟩ := Account.alive h
    exact .stalled nowMs _ hlast (hstall ▸ hlate)
  | some p =>
    obtain ⟨frame, queue⟩ := p
    dsimp only
    refine (wp_ask_bind).mpr ((wp_modify_bind).mpr ?_)
    have hpresent := Account.present h hpop (w.present frame s.asked)
    have hshow : ∀ s' : Session Video, Inv interval connector s' →
        wp (do
          let base ← ask w fun w => w.presentationDetail (frame.video.any fun v => v.flags &&& 1 != 0)
          let underruns ← ask w World.underruns
          modify fun s => { s with
            locals := { s.locals with
              running := s.locals.running.getWithAudio ⟨base, s.locals.reconnects, s.locals.skipped, s.dropped, underruns⟩ } }
          let s ← get
          note (.report (.video .running s.locals.running.text connector))
          pure (none : Option (Option String))) (Goes interval w connector) (fun _ _ => False) s' := by
      intro s' hs'
      simp only [wp_bind, wp_ask, wp_get, wp_modify, wp_note, wp_pure]
      obtain ⟨htext, hcache⟩ := getWithAudio_spec hs'.cache
        ⟨w.presentationDetail (frame.video.any fun v => v.flags &&& 1 != 0) s'.asked, s'.locals.reconnects, s'.locals.skipped,
          s'.dropped, w.underruns (s'.asked + 1)⟩
      refine ⟨(Account.rerun hs' hcache).report ?_, trivial⟩
      refine ⟨rfl, w.presentationDetail (frame.video.any fun v => v.flags &&& 1 != 0) s'.asked, w.underruns (s'.asked + 1), ?_⟩
      rw [htext, hs'.reconnects, hs'.skipped, hs'.tally.dropped]
    cases houtcome : w.present frame s.asked with
    | presented =>
      rw [houtcome] at hpresent
      exact hshow _ hpresent
    | skipped =>
      rw [houtcome] at hpresent
      exact hshow _ hpresent
    | unsupported detail =>
      rw [houtcome] at hpresent
      exact ⟨Account.report hpresent trivial, trivial⟩
    | failed detail =>
      rw [houtcome] at hpresent
      exact ⟨hpresent, .undisplayed frame detail List.getLast?_concat⟩

/-- A wait changes nothing but what is reported. -/
theorem wait_keeps (totalMs : Nat) (h : Inv interval connector s) :
    wp (waitWithHeartbeat w patience totalMs connector)
      (fun _ s' => Inv interval connector s' ∧ s'.locals = s.locals ∧
        ∃ q, s'.history = q ++ [.wait totalMs] ∧ attempts q = attempts s.history)
      (fun e s' => Inv interval connector s' ∧ e = .cut) s := by
  rw [waitWithHeartbeat]
  refine (wp_ask_bind).mpr (wp_seq (wp_loop_cut (fun s' => Inv interval connector s' ∧ s'.locals = s.locals ∧
    attempts s'.history = attempts s.history) (Q := fun _ s' => Inv interval connector s' ∧ s'.locals = s.locals ∧
    attempts s'.history = attempts s.history) ?_ ?_ ⟨h, rfl, rfl⟩) ?_)
  · rintro s' ⟨hs', hlocals, hattempts⟩
    simp only [wp_bind, wp_ask, wp_ite, wp_note, wp_pure]
    refine ⟨fun _ => ⟨hs', hlocals, hattempts⟩, fun _ => ⟨Account.report hs' trivial, hlocals, ?_⟩⟩
    rw [attempts_append]
    exact hattempts
  · exact fun s' hs' => ⟨hs'.1, rfl⟩
  · rintro - s' ⟨hs', hlocals, hattempts⟩
    exact ⟨Account.wait hs' totalMs, hlocals, _, rfl, hattempts⟩

theorem alive_keeps (h : Inv interval connector s) :
    wp (alive w) (fun _ => Inv interval connector) (fun _ _ => False) s := by
  simp only [alive, wp_bind, wp_ask, wp_modify]
  exact Account.refresh h _ _

theorem recover_goes (h : Inv interval connector s) (error : String) :
    wp (recover w patience connector error) (Goes interval w connector)
      (fun e s' => Inv interval connector s' ∧ e = .cut) s := by
  have hmany : ∀ (s : Session Video) (error : String), Inv interval connector s → recoverAttempts ≤ s.locals.attempts →
      Goes interval w connector (some (some (gaveUp error s.locals.attempts))) s := by
    intro s error hs hle
    have heq : s.locals.attempts = recoverAttempts := Nat.le_antisymm (hs.attempts ▸ hs.few) hle
    refine ⟨hs, ?_⟩
    rw [heq]
    exact .lost error (hs.attempts.symm.trans heq)
  have hbeat := Account.report (r := .heartbeat connector) h trivial
  rw [recover]
  refine (wp_note_bind).mpr ((wp_get_bind).mpr ((wp_ite).mpr ⟨fun _ => ?_, fun _ => (wp_ite).mpr ⟨fun hle => ?_, fun hle => ?_⟩⟩))
  · exact wp_never (showNext_goes hbeat)
  · exact hmany _ error hbeat hle
  · have hretrying := hbeat.report (r := .video .retrying (sanitizeDetail error) connector) trivial
    refine (wp_note_bind).mpr (wp_seq (wait_keeps _ hretrying) ?_)
    rintro - s₁ ⟨hs₁, hlocals, q, hq, hattempts⟩
    have hfew : s₁.locals.attempts < recoverAttempts := by
      rw [hlocals]
      exact Nat.not_le.mp hle
    have hwait : ∃ q, s₁.history = q ++ [.wait (recoverBackoffMs * attempts q)] := by
      refine ⟨q, ?_⟩
      rw [hq, hattempts, attempts_append, attempts_append, ← h.attempts]
    refine (wp_ask_bind).mpr ((wp_ite).mpr ⟨fun hstop => ⟨hs₁, _, hstop⟩, fun _ => ?_⟩)
    refine (wp_ask_bind).mpr ((wp_ask_bind).mpr ((wp_modify_bind).mpr ?_))
    have hconnect := Account.connect hs₁ hfew hwait (w.connect (w.now (s₁.asked + 1) + recoverTimeoutMs) (s₁.asked + 1 + 1)).isNone
    cases hrefused : w.connect (w.now (s₁.asked + 1) + recoverTimeoutMs) (s₁.asked + 1 + 1) with
    | some e =>
      rw [hrefused] at hconnect
      refine (wp_get_bind).mpr ((wp_ite).mpr ⟨fun hle => ?_, fun _ => ⟨hconnect, trivial⟩⟩)
      exact hmany _ e hconnect hle
    | none =>
      rw [hrefused] at hconnect
      refine wp_seq (wp_never (alive_keeps hconnect)) ?_
      exact fun _ s' hs' => ⟨hs', trivial⟩

theorem turn_goes (h : Inv interval connector s) :
    wp (turn interval w patience connector) (Goes interval w connector)
      (fun e s' => Inv interval connector s' ∧ e = .cut) s := by
  rw [turn]
  refine (wp_ask_bind).mpr ((wp_ite).mpr ⟨fun hstop => ⟨h, _, hstop⟩, fun _ => ?_⟩)
  refine wp_seq (Q := fun plugged s' => Inv interval connector s' ∧ (plugged = false → ∃ n, w.isConnected n = false)) ?_ ?_
  · simp only [checkConnector, wp_bind, wp_ask, wp_get, wp_ite, wp_modify, wp_pure]
    refine ⟨fun _ => ⟨?_, fun hgone => ⟨_, hgone⟩⟩, fun _ => ⟨h, fun hno => Bool.noConfusion hno⟩⟩
    exact ⟨h.allowed, h.tally, h.reconnects, h.skipped, h.attempts, h.few, h.cache, h.alive⟩
  rintro plugged s₁ ⟨hs₁, hgone⟩
  refine (wp_ite).mpr ⟨fun hno => ?_, fun _ => ?_⟩
  · obtain ⟨n, hn⟩ := hgone hno
    exact ⟨hs₁, .unplugged n hn⟩
  refine (wp_ask_bind).mpr ((wp_bind).mpr ((wp_attempt).mpr (wp_mono (drain_keeps fed_video hs₁) ?_ ?_)))
  · intro received s₂ hs₂
    have hnext : ∀ s', Inv interval connector s' → wp (showNext w connector) (Goes interval w connector)
        (fun e s' => Inv interval connector s' ∧ e = .cut) s' :=
      fun s' hs' => wp_never (showNext_goes hs')
    cases received with
    | true =>
      refine (wp_modify_bind).mpr (wp_seq (wp_never (alive_keeps (Account.received hs₂))) ?_)
      exact fun _ s' hs' => hnext s' hs'
    | false => exact hnext s₂ hs₂
  · rintro e s₂ ⟨hs₂, -⟩
    cases e with
    | cut => exact ⟨hs₂, rfl⟩
    | error text => exact recover_goes hs₂ text

/-- The loop of a session, and what follows it. -/
theorem loop_told (h : Inv interval connector s) :
    wp (do
      let failure ← loop (turn interval w patience connector) .cut patience
      note (.report (.audio .stopped "" connector))
      match failure with
      | some e => raise (.error e)
      | none => pure ())
      (fun _ s => Inv interval connector s ∧ ∃ n, w.stopped n = true)
      (fun e s => Inv interval connector s ∧ ∀ text, e = .error text →
        ∃ h, s.history = h ++ [.report (.audio .stopped "" connector)] ∧ Ending w h text) s := by
  refine wp_seq (wp_loop_cut (Inv interval connector) (Q := fun failure s' => Goes interval w connector (some failure) s')
    ?_ ?_ h) ?_
  · intro s' hs'
    refine wp_mono (turn_goes hs') ?_ ?_
    · intro o s'' ho
      cases o with
      | none => exact ho.1
      | some failure => exact ho
    · rintro e s'' ⟨hs'', rfl⟩
      exact ⟨hs'', fun text heq => nomatch heq⟩
  · exact fun s' hs' => ⟨hs', fun text heq => nomatch heq⟩
  · rintro failure s' ⟨hs', hwhy⟩
    have hlast := Account.report (r := .audio .stopped "" connector) hs' trivial
    refine (wp_note_bind).mpr ?_
    cases failure with
    | none => exact ⟨hlast, hwhy⟩
    | some text =>
      refine ⟨hlast, fun text' heq => ?_⟩
      cases heq
      exact ⟨s'.history, rfl, hwhy⟩

end


/-! ## The audio session -/

section

variable {interval : AudioHeader → Option Nat} {w : World} {patience : Nat} {connector : Connector}
  {s : Session Audio} {queue queue' : Queue} {dropped n : Nat} {h : List Deed} {d : Deed} {frame : Held}

/-- Since the last frame that was written, the timeline was forgotten if and only if more are dropped than `n` tells. -/
def Balanced (interval : AudioHeader → Option Nat) (n : Nat) (h : List Deed) : Prop :=
  ∀ q f ok m, h = q ++ .write f ok :: m → m.filterMap Deed.handed = [] →
    (traffic interval .audio audioByteCap (q ++ [.write f ok])).dropped ≤ n ∧
    (Deed.forgetTimeline ∈ m ↔ (traffic interval .audio audioByteCap (q ++ [.write f ok])).dropped < n)

/-- The last deed of a history is the last frame that was written, or it came after it. -/
theorem snoc_cases {q m : List Deed} {f : Held} {ok : Bool} (heq : h ++ [d] = q ++ .write f ok :: m) :
    (m = [] ∧ h = q ∧ d = .write f ok) ∨ ∃ m', m = m' ++ [d] ∧ h = q ++ .write f ok :: m' := by
  rcases List.eq_nil_or_concat m with rfl | ⟨m', last, rfl⟩
  · obtain ⟨hq, hlast⟩ := List.append_inj' heq rfl
    cases hlast
    exact .inl ⟨rfl, hq, rfl⟩
  · rw [List.concat_eq_append, ← List.cons_append, ← List.append_assoc] at heq
    obtain ⟨hq, hlast⟩ := List.append_inj' heq rfl
    cases hlast
    exact .inr ⟨m', List.concat_eq_append, hq⟩

theorem Balanced.other (hb : Balanced interval n h) (hhanded : d.handed = none) (hforget : d ≠ .forgetTimeline) :
    Balanced interval n (h ++ [d]) := by
  intro q f ok m heq hnone
  rcases snoc_cases heq with ⟨-, -, rfl⟩ | ⟨m', rfl, hm'⟩
  · cases hhanded
  · rw [List.filterMap_append] at hnone
    have hbefore := hb q f ok m' hm' (List.append_eq_nil_iff.mp hnone).1
    rw [List.mem_append, List.mem_singleton, or_iff_left hforget.symm]
    exact hbefore

theorem Balanced.forget (hb : Balanced interval n h) {k : Nat} (hlt : n < k) :
    Balanced interval k (h ++ [.forgetTimeline]) := by
  intro q f ok m heq hnone
  rcases snoc_cases heq with ⟨-, -, hd⟩ | ⟨m', rfl, hm'⟩
  · cases hd
  · rw [List.filterMap_append] at hnone
    have hle := (hb q f ok m' hm' (List.append_eq_nil_iff.mp hnone).1).1
    exact ⟨by omega, fun _ => by omega, fun _ => List.mem_append_right _ (List.mem_singleton_self _)⟩

theorem balanced_write {f : Held} {ok : Bool} (hn : (traffic interval .audio audioByteCap (h ++ [.write f ok])).dropped = n) :
    Balanced interval n (h ++ [.write f ok]) := by
  intro q f' ok' m heq hnone
  rcases snoc_cases heq with ⟨rfl, rfl, hd⟩ | ⟨m', rfl, -⟩
  · cases hd
    exact ⟨Nat.le_of_eq hn, fun hin => absurd hin List.not_mem_nil, fun hlt => absurd hn (Nat.ne_of_lt hlt)⟩
  · rw [List.filterMap_append] at hnone
    cases (List.append_eq_nil_iff.mp hnone).2

/-- What an audio session did, with a timeline that is up to date with the first `n` frames that were dropped. -/
structure Flow (interval : AudioHeader → Option Nat) (n : Nat) (queue : Queue) (dropped : Nat)
    (h : List Deed) : Prop where
  continues : Each (Continues interval) h
  tally : Tally interval .audio audioByteCap queue dropped h
  balanced : Balanced interval n h
  few : n ≤ dropped

/-- What is left of a session while it receives. -/
def Late (interval : AudioHeader → Option Nat) (n : Nat) (s : Session Audio) : Prop :=
  Flow interval n s.queue s.dropped s.history

/-- What is left of a session between its turns. -/
def Level (interval : AudioHeader → Option Nat) (s : Session Audio) : Prop :=
  Flow interval s.dropped s.queue s.dropped s.history

/-- What is left of a session that ends. -/
def Ends (interval : AudioHeader → Option Nat) (s : Session Audio) : Prop :=
  ∃ n, Late interval n s

theorem fed_audio : Fed interval (Late interval n) where
  asked _ _ h := h
  down _ h := h
  push _ _ reserves h := ⟨each_append h.continues trivial, Tally.push h.tally reserves, Balanced.other h.balanced rfl nofun,
    Nat.le_trans h.few (Nat.le_add_right _ _)⟩

theorem feed_flows (h : Level interval s) :
    wp (feed interval w patience) (fun _ => Late interval s.dropped) (fun _ => Ends interval) s := by
  rw [feed]
  refine (wp_ask_bind).mpr ((wp_ask_bind).mpr ((wp_get_bind).mpr ((wp_bind).mpr ?_)))
  refine (wp_attempt).mpr (wp_mono (drain_keeps (I := Late interval s.dropped) fed_audio h) ?_ ?_)
  · rintro received s' hs'
    cases received with
    | true => exact hs'
    | false => exact hs'
  · rintro e s' ⟨hs', -⟩
    cases e with
    | cut => exact ⟨_, hs'⟩
    | error text =>
      refine (wp_get_bind).mpr ((wp_ite).mpr ⟨fun _ => ⟨_, hs'⟩, fun _ => hs'⟩)

theorem forgetGap_levels (h : Late interval n s) :
    wp (forgetGap n) (fun _ => Level interval) (fun _ _ => False) s := by
  refine (wp_get_bind).mpr ((wp_ite).mpr ⟨fun hne => ?_, fun heq => ?_⟩)
  · have hlt : n < s.dropped := Nat.lt_of_le_of_ne h.few (Ne.symm hne)
    exact ⟨each_append h.continues trivial, Tally.other h.tally rfl rfl, Balanced.forget h.balanced hlt, Nat.le_refl _⟩
  · obtain rfl := not_not.mp heq
    exact h

theorem writeFrames_levels {turns : Nat} {written : Bool} (h : Level interval s) :
    wp (writeFrames w turns written) (fun _ => Level interval) (fun _ => Ends interval) s := by
  induction turns generalizing s written with
  | zero => exact ⟨_, h⟩
  | succ turns ih =>
    rw [writeFrames]
    refine (wp_ask_bind).mpr ((wp_ite).mpr ⟨fun _ => h, fun _ => (wp_get_bind).mpr ?_⟩)
    cases hpop : s.queue.pop with
    | none => exact h
    | some p =>
      obtain ⟨frame, queue⟩ := p
      dsimp only
      refine (wp_ask_bind).mpr ((wp_modify_bind).mpr ?_)
      have hright : ∀ ok, Continues interval s.history (.write frame ok) := by
        intro ok
        refine ⟨h.tally.dropped ▸ h.tally.next hpop, fun q f ok m heq hnone => ?_⟩
        rw [← h.tally.dropped]
        exact (h.balanced q f ok m heq hnone).2
      have hwritten : ∀ ok, Level interval { s with
          asked := s.asked + 1 + 1
          queue := queue.recycle frame.vec
          history := s.history ++ [.write frame ok] } := by
        intro ok
        have htally := h.tally.pop (d := .write frame ok) hpop rfl rfl
        exact ⟨each_append h.continues (hright ok), htally, balanced_write htally.dropped.symm, Nat.le_refl _⟩
      cases hfailed : w.write frame (s.asked + 1) with
      | some e => exact ⟨_, hwritten false⟩
      | none => exact ih (hwritten true)

theorem tellAudio_levels {written : Bool} (h : Level interval s) :
    wp (tellAudio w connector written) (fun _ => Level interval) (fun _ _ => False) s := by
  rw [tellAudio]
  refine (wp_ask_bind).mpr ((wp_modify_bind).mpr ((wp_get_bind).mpr ((wp_ite).mpr ⟨fun _ => ?_, fun _ => ?_⟩)))
  · exact ⟨each_append h.continues trivial, Tally.other h.tally rfl rfl, Balanced.other h.balanced rfl nofun, Nat.le_refl _⟩
  · exact h

theorem audioTurn_levels (h : Level interval s) :
    wp (audioTurn interval w patience connector) (fun _ => Level interval) (fun _ => Ends interval) s := by
  rw [audioTurn]
  refine (wp_ask_bind).mpr ((wp_ite).mpr ⟨fun _ => h, fun _ => (wp_get_bind).mpr ?_⟩)
  refine wp_seq (feed_flows h) fun _ s₁ hs₁ => ?_
  refine wp_seq (wp_never (forgetGap_levels hs₁)) fun _ s₂ hs₂ => ?_
  refine wp_seq (writeFrames_levels hs₂) fun written s₃ hs₃ => (wp_ask_bind).mpr ?_
  split
  next => exact ⟨_, hs₃⟩
  next =>
    refine wp_seq (wp_never (tellAudio_levels hs₃)) fun _ s₄ hs₄ => ?_
    exact (wp_get_bind).mpr ((wp_ask_bind).mpr ((wp_ite).mpr ⟨fun _ => ⟨_, hs₄⟩, fun _ => hs₄⟩))

end

end PlayLemmas


section

variable (interval : AudioHeader → Option Nat) (w : World) (patience : Nat)

open PlayLemmas

/-- What a video session tells, and what becomes of its frames. -/
structure Told (connector : Connector) (s : Session Video) : Prop where
  moments : Each (Allowed interval connector) s.history
  queue : s.queue = (traffic interval .video videoByteCap s.history).queue
  /-- The frames that were stored are those that were shown or replaced, in order, and the one that is held. -/
  conserved : Conserved (traffic interval .video videoByteCap s.history).accepted (s.history.filterMap Deed.handed) s.dropped
    s.queue.frames

/-- **A video session tells what it did.** At every moment of every run: a running detail names the reconnects, the
skipped frames and the dropped frames that there have been; a frame that is shown is the newest that was stored; a
reconnect is one of at most three since a frame was received, after a wait that is longer each time. A session that
ends well has been stopped. One that fails before it begins has done nothing and says why; any other that fails says
why and that there is no audio any more. -/
theorem session_truthful (connector : Connector) :
    wp (session interval w patience connector)
      (fun _ s => Told interval connector s ∧ ∃ n, w.stopped n = true)
      (fun e s => Told interval connector s ∧ ∀ text, e = .error text →
        (s.history = [] ∧ Unbegun w text) ∨
          ∃ h, s.history = h ++ [.report (.audio .stopped "" connector)] ∧ Ending w h text) Session.video := by
  have hend : ∀ {s : Session Video}, Inv interval connector s → Told interval connector s := fun h =>
    ⟨h.allowed, h.tally.queue, h.tally.conserved⟩
  have hnone : ∀ n, Told interval connector { Session.video with asked := n } := fun n =>
    ⟨each_nil, rfl, Conserved.empty⟩
  rw [session]
  refine (wp_ask_bind).mpr ((wp_ite).mpr ⟨fun hlost => ⟨hnone _, fun text heq => .inl ⟨rfl, ?_⟩⟩, fun _ => ?_⟩)
  · cases heq
    exact .undiscovered _ hlost
  refine (wp_ask_bind).mpr ?_
  split
  next e hopen =>
    refine ⟨hnone _, fun text heq => .inl ⟨rfl, ?_⟩⟩
    cases heq
    exact .unopened _ e hopen
  refine (wp_ask_bind).mpr ((wp_ask_bind).mpr ?_)
  split
  next e hconnect =>
    refine ⟨hnone _, fun text heq => .inl ⟨rfl, ?_⟩⟩
    cases heq
    exact .unreached _ _ e hconnect
  refine (wp_modify_bind).mpr (wp_seq (Q := fun _ s => ∃ worker : List Report, worker.length ≤ 1 ∧
    (∀ r ∈ worker, ∃ state detail c, r = .audio state detail c) ∧
    s.queue = .new .video videoByteCap ∧ s.dropped = 0 ∧ s.history = worker.map Deed.report ∧ s.locals = ⟨0, 0, 0, 0, 0, {}⟩) ?_ ?_)
  · simp only [startWorker, wp_bind, wp_ask, wp_ite, wp_pure, wp_note]
    refine ⟨fun _ => ⟨[], Nat.zero_le _, fun r hr => absurd hr List.not_mem_nil, rfl, rfl, rfl, rfl⟩, fun _ => ⟨[_], Nat.le_refl _, fun r hr => ?_,
      rfl, rfl, rfl, rfl⟩⟩
    exact ⟨_, _, _, List.mem_singleton.mp hr⟩
  rintro - ⟨asked, connected, queue, dropped, stallAt, history, locals⟩ ⟨worker, hshort, haudio, rfl, rfl, rfl, rfl⟩
  refine (wp_note_bind).mpr ?_
  rw [alive]
  refine (wp_bind).mpr ((wp_ask_bind).mpr ((wp_ask_bind).mpr ((wp_modify).mpr ?_)))
  refine (wp_ask_bind).mpr ((wp_modify_bind).mpr ?_)
  refine wp_mono (loop_told (account_begin worker hshort haudio _ _ _)) ?_ ?_
  · exact fun _ s hs => ⟨hend hs.1, hs.2⟩
  · exact fun e s hs => ⟨hend hs.1, fun text heq => .inr (hs.2 text heq)⟩

/-- **No gap goes unnoticed.** At every moment of every audio session, the frame that is written is the one after those
that were written or dropped, and the device has forgotten its timeline since the frame before if and only if frames
between them were dropped. -/
theorem audio_gaps (connector : Connector) :
    wp (audioSession interval w patience connector) (fun _ _ => False)
      (fun _ s => Each (Continues interval) s.history ∧
        Conserved (traffic interval .audio audioByteCap s.history).accepted (s.history.filterMap Deed.handed) s.dropped
          s.queue.frames) Session.audio := by
  have hnew : Level interval Session.audio :=
    ⟨each_nil, ⟨rfl, rfl, rfl⟩, fun q f ok m heq => absurd heq (by simp [Session.audio]), Nat.le_refl _⟩
  have hend : ∀ {s : Session Audio}, Ends interval s → Each (Continues interval) s.history ∧
      Conserved (traffic interval .audio audioByteCap s.history).accepted (s.history.filterMap Deed.handed) s.dropped
        s.queue.frames := fun ⟨_, h⟩ => ⟨h.continues, h.tally.conserved⟩
  rw [audioSession]
  refine (wp_ask_bind).mpr ((wp_ask_bind).mpr ?_)
  split
  next => exact hend ⟨_, hnew⟩
  next =>
    refine (wp_ask_bind).mpr ((wp_modify_bind).mpr ?_)
    refine wp_seq (wp_loop_cut (Level interval) (Q := fun _ => Level interval) ?_ ?_ hnew) ?_
    · intro s hs
      refine wp_mono (audioTurn_levels hs) ?_ fun _ _ => hend
      intro o s' hs'
      cases o with
      | none => exact hs'
      | some => exact hs'
    · exact fun s hs => hend ⟨_, hs⟩
    · exact fun _ s hs => hend ⟨_, hs⟩

end

end OmtClient.Receiver.Play
