import OmtClient.Web.Http

/-!
# Connections

The state machine of one connection in `crates/omt-web/src/http.rs`: `process_input`,
`dispatch`, `after_write` and the loop of `drive`. A connection reads a stream of bytes
in pieces of at most 16384, as many at a time as TLS hands it, and writes its responses
in pieces; the deadlines, the poll set and the TLS handshake are left out, and a
connection may be lost at any step. The handler is a state machine of its own. The log
is what the connection has answered.

1. `processInput_spec`: what is answered to the input so far.
2. `step_spec`: what a step of the loop preserves.
3. `connection_answers`: however the stream is cut into reads, what is answered is what
   one pass over the whole stream answers; leftover bytes are the start of the next
   request, and the input limit is never met.
-/

namespace OmtClient.Web.Http

open OmtClient.Lib

/-- `reason`. -/
def reason (status : Nat) : String :=
  match status with
  | 100 => "Continue"
  | 200 => "OK"
  | 202 => "Accepted"
  | 303 => "See Other"
  | 400 => "Bad Request"
  | 404 => "Not Found"
  | 405 => "Method Not Allowed"
  | 408 => "Request Timeout"
  | 411 => "Length Required"
  | 413 => "Payload Too Large"
  | 414 => "URI Too Long"
  | 429 => "Too Many Requests"
  | 431 => "Request Header Fields Too Large"
  | 500 => "Internal Server Error"
  | 501 => "Not Implemented"
  | 503 => "Service Unavailable"
  | 505 => "HTTP Version Not Supported"
  | _ => "Unknown"

structure Response where
  status : Nat
  /-- "name: value\r\n" lines. -/
  headers : Bytes
  body : Bytes
  /-- Send headers only. -/
  head : Bool
  failed : Bool
  deriving DecidableEq, Repr

inductive State
  | handshake
  | read
  | write
  | shutdown
  /-- Dropped, by the peer or after a shutdown. -/
  | closed
  deriving DecidableEq, Repr

structure Conn where
  state : State
  input : Bytes
  inputLimit : Nat
  out : Bytes
  outPos : Nat
  head : Option Head
  closeAfter : Bool
  sentContinue : Bool
  peer : Bytes
  deriving DecidableEq, Repr

/-- An answer: the interim one, a refusal by the server itself, or a request with its
bytes and the handler's response. -/
inductive Answer
  | interim
  | refused (status : Nat)
  | handled (raw : Bytes) (request : Request) (response : Response)
  deriving DecidableEq, Repr

/-- A connection with the bytes that it has not read yet, the handler's state and what
was answered. -/
structure Link (σ : Type) where
  conn : Conn
  unread : Bytes
  app : σ
  log : List Answer
  deriving DecidableEq, Repr

/-- What the operating system does at a step: it takes or gives up to `n` bytes, has
none, or reports that the connection is gone. -/
inductive Io
  | advance (n : Nat)
  | want
  | lost
  deriving DecidableEq, Repr

def chunkMax : Nat := 16384

/-- A connection as `accept_one` makes it. -/
def Conn.new (maxBody : Nat) (peer : Bytes) : Conn where
  state := .handshake
  input := []
  inputLimit := maxHeaderBytes + maxBody + 16384
  out := []
  outPos := 0
  head := none
  closeAfter := false
  sentContinue := false
  peer := peer

/-- `queue`: serialises a response into the output buffer. -/
def Conn.queue (c : Conn) (date : Bytes) (res : Response) : Conn :=
  let res := if res.failed then { res with status := 500, headers := [], body := [] } else res
  { c with
    state := .write
    outPos := 0
    out := utf8 "HTTP/1.1 " ++ numeral 10 res.status ++ utf8 " " ++ utf8 (reason res.status) ++ utf8 "\r\n" ++
      res.headers ++ utf8 "content-length: " ++ numeral 10 res.body.length ++ utf8 "\r\ndate: " ++ date ++
      utf8 "\r\n" ++ (if c.closeAfter then utf8 "connection: close\r\n" else []) ++ utf8 "\r\n" ++
      (if res.head then [] else res.body) }

/-- `after_write`. -/
def Conn.afterWrite (c : Conn) : Conn :=
  if c.closeAfter then { c with state := .shutdown }
  else
    let input := match c.head with
      | some head => c.input.drop (min (head.headLen + head.contentLength) c.input.length)
      | none => c.input
    { c with input, head := none, sentContinue := false, state := .read }

section

variable {σ : Type} (handle : σ → Request → Response → σ × Response) (maxBody : Nat) (date : Bytes)

/-- `refuse`: no handler involved, and the connection closes. -/
def Link.refuse (l : Link σ) (status : Nat) : Link σ :=
  { l with
    conn := { l.conn with closeAfter := true }.queue date ⟨status, [], [], false, false⟩
    log := l.log ++ [.refused status] }

/-- `dispatch`. -/
def Link.dispatch (l : Link σ) (head : Head) : Link σ :=
  let req := Request.new head l.conn.input l.conn.peer
  let (app, res) := handle l.app req ⟨200, [], [], decide (head.method = utf8 "HEAD"), false⟩
  { l with
    app
    conn := { l.conn with closeAfter := !head.keepAlive }.queue date res
    log := l.log ++ [.handled (l.conn.input.take (head.headLen + head.contentLength)) req res] }

/-- The end of `process_input`: a request whose body has arrived is dispatched. -/
def Link.finish (l : Link σ) (head : Head) : Link σ :=
  if l.conn.input.length - head.headLen < head.contentLength then l else l.dispatch handle date head

/-- Whether the interim response is due. -/
def Link.expects (l : Link σ) (head : Head) : Bool :=
  let expect := (Request.new head l.conn.input l.conn.peer).header (utf8 "expect")
  0 < head.contentLength && !l.conn.sentContinue &&
    expect.any (fun v => v.length < 32 && eqIgnoreAsciiCase v (utf8 "100-continue")) &&
    l.conn.input.length < head.headLen + head.contentLength

/-- `process_input`. -/
def Link.processInput (l : Link σ) : Link σ :=
  match l.conn.head with
  | some head => l.finish handle date head
  | none =>
    match parseHead l.conn.input with
    | .incomplete => l
    | .refuse status => l.refuse date status
    | .complete head =>
      if maxBody < head.contentLength then
        { l with conn := { l.conn with head := some head } }.refuse date 413
      else if l.expects head then
        { l with
          conn := { l.conn with head := some head, sentContinue := true }
          log := l.log ++ [Answer.interim] }.finish handle date head
      else { l with conn := { l.conn with head := some head } }.finish handle date head

/-- One turn of the loop of `drive`. -/
def Link.step (l : Link σ) : Io → Link σ
  | .want => l
  | .lost => { l with conn := { l.conn with state := .closed } }
  | .advance n =>
    match l.conn.state with
    | .handshake => { l with conn := { l.conn with state := .read } }
    | .read =>
      let chunk := l.unread.take (min n chunkMax)
      if chunk = [] then l
      else
        let l := { l with unread := l.unread.drop chunk.length }
        if l.conn.inputLimit < l.conn.input.length + chunk.length then l.refuse date 413
        else
          { l with conn := { l.conn with input := l.conn.input ++ chunk } }.processInput handle maxBody date
    | .write =>
      if l.conn.outPos = l.conn.out.length then
        let l := { l with conn := l.conn.afterWrite }
        if l.conn.state = .read ∧ l.conn.input ≠ [] then l.processInput handle maxBody date else l
      else
        { l with conn := { l.conn with outPos := min (l.conn.outPos + min n (2 ^ 20)) l.conn.out.length } }
    | .shutdown => { l with conn := { l.conn with state := .closed } }
    | .closed => l

/-- A connection over a stream of bytes, through any steps of the operating system. -/
def Link.run (peer : Bytes) (app : σ) (stream : Bytes) (ios : List Io) : Link σ :=
  ios.foldl (Link.step handle maxBody date) ⟨Conn.new maxBody peer, stream, app, []⟩

end

/-- All that arrived was processed: the connection waits for more, or is shutting down. -/
def Link.Settled {σ : Type} (l : Link σ) : Prop :=
  (l.conn.state = .read ∧ l.unread = []) ∨ l.conn.state = .shutdown

instance {σ : Type} (l : Link σ) : Decidable l.Settled := by
  unfold Link.Settled
  infer_instance

/-- The final answers of a log. -/
def finals (log : List Answer) : List Answer := log.filter fun a => a != Answer.interim

/-- The bytes of the requests that were handled. -/
def rawBytes (log : List Answer) : Bytes :=
  log.flatMap fun a => match a with
    | .handled raw _ _ => raw
    | _ => []

/-! ## One pass over a stream -/

section

variable {σ : Type} (handle : σ → Request → Response → σ × Response) (maxBody : Nat) (peer : Bytes)

/-- What is answered to a whole stream: its requests one after the other, up to one that
is refused, asks to close, or is not there in full. -/
def serve (app : σ) (data : Bytes) : List Answer :=
  match _hparse : parseHead data with
  | .incomplete => []
  | .refuse status => [.refused status]
  | .complete head =>
    if maxBody < head.contentLength then [.refused 413]
    else if data.length < head.headLen + head.contentLength then []
    else
      let req := Request.new head data peer
      let (app', res) := handle app req ⟨200, [], [], decide (head.method = utf8 "HEAD"), false⟩
      .handled (data.take (head.headLen + head.contentLength)) req res ::
        if head.keepAlive then serve app' (data.drop (head.headLen + head.contentLength)) else []
termination_by data.length
decreasing_by
  have hbounds := parseHead_complete _hparse
  rw [List.length_drop]
  omega

variable {handle maxBody peer}

namespace ConnectionLemmas

variable {app : σ} {data : Bytes} {head : Head}

theorem serve_incomplete (h : parseHead data = .incomplete) : serve handle maxBody peer app data = [] := by
  rw [serve]
  split
  · rfl
  · next hparse => cases h.symm.trans hparse
  · next hparse => cases h.symm.trans hparse

theorem serve_refuse {status : Nat} (h : parseHead data = .refuse status) :
    serve handle maxBody peer app data = [.refused status] := by
  rw [serve]
  split
  · next hparse => cases h.symm.trans hparse
  · next hparse =>
    cases h.symm.trans hparse
    rfl
  · next hparse => cases h.symm.trans hparse

theorem serve_complete (h : parseHead data = .complete head) :
    serve handle maxBody peer app data =
      if maxBody < head.contentLength then [.refused 413]
      else if data.length < head.headLen + head.contentLength then []
      else
        .handled (data.take (head.headLen + head.contentLength)) (Request.new head data peer)
          (handle app (Request.new head data peer)
            ⟨200, [], [], decide (head.method = utf8 "HEAD"), false⟩).2 ::
        if head.keepAlive then
          serve handle maxBody peer (handle app (Request.new head data peer)
            ⟨200, [], [], decide (head.method = utf8 "HEAD"), false⟩).1
            (data.drop (head.headLen + head.contentLength))
        else [] := by
  rw [serve]
  split
  · next hparse => cases h.symm.trans hparse
  · next hparse => cases h.symm.trans hparse
  · next hparse =>
    cases h.symm.trans hparse
    rfl

end ConnectionLemmas

/-! ## What a step preserves -/

/-- A connection that reads has no whole request in its input. -/
def Waiting (maxBody : Nat) (c : Conn) : Prop :=
  match c.head with
  | none => parseHead c.input = .incomplete
  | some head => parseHead c.input = .complete head ∧ head.contentLength ≤ maxBody ∧
      c.input.length < head.headLen + head.contentLength

/-- The bytes whose requests are still to be answered; none once the connection is to
close. -/
def Link.owes (l : Link σ) : Option Bytes :=
  match l.conn.state with
  | .handshake => some l.conn.input
  | .read => some l.conn.input
  | .write => if l.conn.closeAfter then none else some l.conn.afterWrite.input
  | _ => none

/-- The answers so far and those still owed are the answers to the stream, and the bytes
delivered are those of the handled requests and those still owed. -/
structure Answers (handle : σ → Request → Response → σ × Response) (maxBody : Nat) (peer : Bytes) (start : σ)
    (delivered : Bytes) (app : σ) (log : List Answer) (owes : Option Bytes) : Prop where
  served : ∀ more, serve handle maxBody peer start (delivered ++ more) =
    finals log ++ (owes.elim [] fun rest => serve handle maxBody peer app (rest ++ more))
  raw : ∀ rest, owes = some rest → delivered = rawBytes log ++ rest

structure Inv (handle : σ → Request → Response → σ × Response) (maxBody : Nat) (peer : Bytes) (start : σ)
    (stream : Bytes) (l : Link σ) (delivered : Bytes) : Prop where
  stream_eq : stream = delivered ++ l.unread
  answers : Answers handle maxBody peer start delivered l.app l.log l.owes
  waits : l.conn.state = .handshake ∨ l.conn.state = .read → Waiting maxBody l.conn
  limit : l.conn.inputLimit = maxHeaderBytes + maxBody + 16384
  peer_eq : l.conn.peer = peer

namespace ConnectionLemmas

variable {start app : σ} {stream delivered date : Bytes} {l : Link σ} {log : List Answer} {head : Head}

@[simp] theorem finals_append (as bs : List Answer) : finals (as ++ bs) = finals as ++ finals bs :=
  List.filter_append ..

@[simp] theorem rawBytes_append (as bs : List Answer) : rawBytes (as ++ bs) = rawBytes as ++ rawBytes bs :=
  List.flatMap_append ..

theorem finals_one {a : Answer} (h : a ≠ .interim) : finals [a] = [a] :=
  List.filter_cons_of_pos (bne_iff_ne.mpr h)

/-- A final answer that ends the connection. -/
theorem answers_last {input : Bytes} {a : Answer} (ha : a ≠ .interim)
    (h : Answers handle maxBody peer start delivered app log (some input))
    (hserve : ∀ more, serve handle maxBody peer app (input ++ more) = [a]) (app' : σ) :
    Answers handle maxBody peer start delivered app' (log ++ [a]) none where
  served more := by
    rw [h.served, finals_append, finals_one ha]
    show finals log ++ serve handle maxBody peer app (input ++ more) = _
    rw [hserve, List.append_assoc]
    rfl
  raw rest hrest := nomatch hrest

theorem answers_refuse (status : Nat) (hstream : stream = delivered ++ l.unread)
    (hanswers : Answers handle maxBody peer start delivered l.app (l.log ++ [.refused status]) none)
    (hlimit : l.conn.inputLimit = maxHeaderBytes + maxBody + 16384) (hpeer : l.conn.peer = peer) :
    Inv handle maxBody peer start stream (l.refuse date status) delivered where
  stream_eq := hstream
  answers := hanswers
  waits h := h.elim (fun h => nomatch h) (fun h => nomatch h)
  limit := hlimit
  peer_eq := hpeer

/-- A request in full is dispatched, and its bytes are the ones that leave the input. -/
theorem dispatch_spec (hstream : stream = delivered ++ l.unread)
    (hanswers : Answers handle maxBody peer start delivered l.app l.log (some l.conn.input))
    (hhead : l.conn.head = some head) (hparse : parseHead l.conn.input = .complete head)
    (hbody : head.contentLength ≤ maxBody) (hfull : head.headLen + head.contentLength ≤ l.conn.input.length)
    (hlimit : l.conn.inputLimit = maxHeaderBytes + maxBody + 16384) (hpeer : l.conn.peer = peer) :
    Inv handle maxBody peer start stream (l.dispatch handle date head) delivered := by
  subst hpeer
  have hserve (more : Bytes) : serve handle maxBody l.conn.peer l.app (l.conn.input ++ more) =
      .handled (l.conn.input.take (head.headLen + head.contentLength)) (Request.new head l.conn.input l.conn.peer)
        (handle l.app (Request.new head l.conn.input l.conn.peer)
          ⟨200, [], [], decide (head.method = utf8 "HEAD"), false⟩).2 ::
      if head.keepAlive then
        serve handle maxBody l.conn.peer (handle l.app (Request.new head l.conn.input l.conn.peer)
          ⟨200, [], [], decide (head.method = utf8 "HEAD"), false⟩).1
          (l.conn.input.drop (head.headLen + head.contentLength) ++ more)
      else [] := by
    have happend : parseHead (l.conn.input ++ more) = .complete head := by
      rw [parseHead_append more (by rw [hparse]; exact nofun), hparse]
    rw [serve_complete happend, if_neg (Nat.not_lt.mpr hbody),
      if_neg (by rw [List.length_append]; omega), request_append hparse hfull,
      List.take_append_of_le_length hfull, List.drop_append_of_le_length hfull]
  have hused : min (head.headLen + head.contentLength) l.conn.input.length =
      head.headLen + head.contentLength := Nat.min_eq_left hfull
  refine ⟨hstream, ?_, fun h => h.elim (fun h => nomatch h) (fun h => nomatch h), hlimit, rfl⟩
  cases hkeep : head.keepAlive with
  | false =>
    have howes : (l.dispatch handle date head).owes = none := by
      simp only [Link.owes, Link.dispatch, Conn.queue, hkeep, Bool.not_false, if_true]
    rw [howes]
    refine answers_last (a := .handled _ _ _) (fun h => nomatch h) hanswers (fun more => ?_) _
    rw [hserve more, hkeep]
    rfl
  | true =>
    have howes : (l.dispatch handle date head).owes =
        some (l.conn.input.drop (head.headLen + head.contentLength)) := by
      simp only [Link.owes, Link.dispatch, Conn.queue, Conn.afterWrite, hkeep, hhead, hused, Bool.not_true,
        Bool.false_eq_true, if_false]
    rw [howes]
    refine ⟨fun more => ?_, fun rest hrest => ?_⟩
    · rw [hanswers.served more]
      show finals l.log ++ serve handle maxBody l.conn.peer l.app (l.conn.input ++ more) =
        finals (l.log ++ [_]) ++ serve handle maxBody l.conn.peer _ _
      rw [hserve more, hkeep, finals_append, finals_one (a := .handled _ _ _) (fun h => nomatch h), List.append_assoc]
      rfl
    · cases hrest
      have hraw := hanswers.raw _ rfl
      show delivered = rawBytes (l.log ++ [_]) ++ _
      rw [rawBytes_append, List.append_assoc]
      simp only [rawBytes, List.flatMap_cons, List.flatMap_nil, List.append_nil, List.take_append_drop]
      exact hraw

theorem finish_spec (hstate : l.conn.state = .read) (hstream : stream = delivered ++ l.unread)
    (hanswers : Answers handle maxBody peer start delivered l.app l.log (some l.conn.input))
    (hhead : l.conn.head = some head) (hparse : parseHead l.conn.input = .complete head)
    (hbody : head.contentLength ≤ maxBody) (hlimit : l.conn.inputLimit = maxHeaderBytes + maxBody + 16384)
    (hpeer : l.conn.peer = peer) :
    Inv handle maxBody peer start stream (l.finish handle date head) delivered := by
  have hlen := (parseHead_complete hparse).2.1
  rw [Link.finish]
  split
  · next hshort =>
    refine ⟨hstream, ?_, fun _ => ?_, hlimit, hpeer⟩
    · rw [Link.owes, hstate]
      exact hanswers
    · rw [Waiting, hhead]
      exact ⟨hparse, hbody, by omega⟩
  · next hfull =>
    exact dispatch_spec hstream hanswers hhead hparse hbody (by omega) hlimit hpeer

end ConnectionLemmas

open ConnectionLemmas

/-- What is answered to the input so far: a request that is there in full, a refusal, or
nothing yet. -/
theorem processInput_spec {start : σ} {stream delivered date : Bytes} {l : Link σ}
    (hstate : l.conn.state = .read) (hstream : stream = delivered ++ l.unread)
    (hanswers : Answers handle maxBody peer start delivered l.app l.log (some l.conn.input))
    (hhead : ∀ head, l.conn.head = some head →
      parseHead l.conn.input = .complete head ∧ head.contentLength ≤ maxBody)
    (hlimit : l.conn.inputLimit = maxHeaderBytes + maxBody + 16384) (hpeer : l.conn.peer = peer) :
    Inv handle maxBody peer start stream (l.processInput handle maxBody date) delivered := by
  unfold Link.processInput
  split
  · next head hsome =>
    obtain ⟨hparse, hbody⟩ := hhead head hsome
    exact finish_spec hstate hstream hanswers hsome hparse hbody hlimit hpeer
  next hnone =>
  split
  · next hparse =>
    refine ⟨hstream, ?_, fun _ => ?_, hlimit, hpeer⟩
    · rw [Link.owes, hstate]
      exact hanswers
    · rw [Waiting, hnone]
      exact hparse
  · next status hparse =>
    refine answers_refuse status hstream
      (answers_last (a := .refused _) (fun h => nomatch h) hanswers (fun more => ?_) _) hlimit hpeer
    refine serve_refuse ?_
    rw [parseHead_append more (by rw [hparse]; exact nofun), hparse]
  · next head hparse =>
    split
    · next hbig =>
      refine answers_refuse 413 hstream
        (answers_last (a := .refused _) (fun h => nomatch h) hanswers (fun more => ?_) _) hlimit hpeer
      have happend : parseHead (l.conn.input ++ more) = .complete head := by
        rw [parseHead_append more (by rw [hparse]; exact nofun), hparse]
      rw [serve_complete happend, if_pos hbig]
    next hbody =>
    split
    · -- the interim answer is not a final one
      have hinterim : Answers handle maxBody peer start delivered l.app (l.log ++ [.interim])
          (some l.conn.input) := by
        refine ⟨fun more => ?_, fun rest hrest => ?_⟩
        · rw [hanswers.served more, finals_append]
          show _ = finals l.log ++ [] ++ _
          rw [List.append_nil]
        · rw [hanswers.raw rest hrest, rawBytes_append]
          show _ = rawBytes l.log ++ [] ++ _
          rw [List.append_nil]
      exact finish_spec hstate hstream hinterim rfl hparse (Nat.not_lt.mp hbody) hlimit hpeer
    · exact finish_spec hstate hstream hanswers rfl hparse (Nat.not_lt.mp hbody) hlimit hpeer

namespace ConnectionLemmas

variable {start : σ} {stream delivered date : Bytes} {l : Link σ}

/-- A connection that reads has room for the next piece. -/
theorem room_of_waiting (h : Waiting maxBody l.conn) (n : Nat) (hn : n ≤ chunkMax) :
    l.conn.input.length + n ≤ maxHeaderBytes + maxBody + 16384 := by
  have hn' : n ≤ 16384 := hn
  rw [Waiting] at h
  split at h
  · -- an incomplete head is below the header limit
    have hshort : l.conn.input.length < maxHeaderBytes := by
      unfold parseHead at h
      split at h
      · split at h
        · cases h
        · next hlt => exact Nat.not_le.mp hlt
      · unfold parseBlock at h
        dsimp only at h
        split at h
        · cases h
        split at h
        · cases h
        · cases h
    omega
  · obtain ⟨hparse, hbody, hshort⟩ := h
    have := (parseHead_complete hparse).2.2.1
    omega

theorem head_of_waiting (h : Waiting maxBody l.conn) (chunk : Bytes) (head : Head)
    (hhead : l.conn.head = some head) :
    parseHead (l.conn.input ++ chunk) = .complete head ∧ head.contentLength ≤ maxBody := by
  rw [Waiting, hhead] at h
  refine ⟨?_, h.2.1⟩
  rw [parseHead_append chunk (by rw [h.1]; exact nofun), h.1]

theorem serve_of_waiting (h : Waiting maxBody l.conn) : serve handle maxBody peer l.app l.conn.input = [] := by
  rw [Waiting] at h
  split at h
  · exact serve_incomplete h
  · rw [serve_complete h.1, if_neg (Nat.not_lt.mpr h.2.1), if_pos h.2.2]

theorem owes_outPos (l : Link σ) (k : Nat) :
    ({ l with conn := { l.conn with outPos := k } } : Link σ).owes = l.owes := by
  unfold Link.owes Conn.afterWrite
  cases hclose : l.conn.closeAfter with
  | false => rfl
  | true => rfl

/-- A piece that was read belongs to what is owed. -/
theorem answers_read {app : σ} {log : List Answer} {input : Bytes}
    (h : Answers handle maxBody peer start delivered app log (some input)) (chunk : Bytes) :
    Answers handle maxBody peer start (delivered ++ chunk) app log (some (input ++ chunk)) where
  served more := by
    rw [List.append_assoc, h.served]
    show _ = finals log ++ serve handle maxBody peer app (input ++ chunk ++ more)
    rw [List.append_assoc]
    rfl
  raw rest hrest := by
    cases hrest
    rw [h.raw input rfl, List.append_assoc]

end ConnectionLemmas

/-- A step keeps the answers and what is owed those of the stream, or ends the
connection with what was answered. -/
theorem step_spec {start : σ} {stream delivered date : Bytes} {l : Link σ}
    (h : Inv handle maxBody peer start stream l delivered) (io : Io) :
    ((l.step handle maxBody date io).conn.state = .closed ∧ (l.step handle maxBody date io).log = l.log) ∨
      ∃ delivered', Inv handle maxBody peer start stream (l.step handle maxBody date io) delivered' := by
  cases io with
  | want => exact .inr ⟨delivered, h⟩
  | lost => exact .inl ⟨rfl, rfl⟩
  | advance n =>
    rw [Link.step]
    cases hstate : l.conn.state with
    | handshake =>
      refine .inr ⟨delivered, h.stream_eq, ?_, fun _ => h.waits (.inl hstate), h.limit, h.peer_eq⟩
      have := h.answers
      rw [Link.owes, hstate] at this
      exact this
    | read =>
      have hanswers := h.answers
      rw [Link.owes, hstate] at hanswers
      have hwaits := h.waits (.inr hstate)
      dsimp only
      split
      · exact .inr ⟨delivered, h⟩
      have hchunk : (l.unread.take (min n chunkMax)).length ≤ chunkMax := by
        rw [List.length_take]
        omega
      have hroom := room_of_waiting hwaits _ hchunk
      have htake : l.unread.drop (l.unread.take (min n chunkMax)).length =
          l.unread.drop (min n chunkMax) := by
        rw [List.length_take, List.drop_eq_drop_iff]
        omega
      rw [if_neg (by rw [h.limit]; omega)]
      refine .inr ⟨delivered ++ l.unread.take (min n chunkMax),
        processInput_spec hstate ?_ (answers_read hanswers _) (head_of_waiting hwaits _) h.limit h.peer_eq⟩
      show stream = delivered ++ l.unread.take (min n chunkMax) ++
        l.unread.drop (l.unread.take (min n chunkMax)).length
      rw [htake, List.append_assoc, List.take_append_drop]
      exact h.stream_eq
    | write =>
      have hanswers := h.answers
      rw [Link.owes, hstate] at hanswers
      dsimp only at hanswers ⊢
      split
      · -- the response is out
        cases hclose : l.conn.closeAfter with
        | true =>
          have hafter : l.conn.afterWrite = { l.conn with state := .shutdown } := if_pos hclose
          rw [hclose, if_pos rfl] at hanswers
          rw [hafter, if_neg (fun h => nomatch h.1)]
          exact .inr ⟨delivered, h.stream_eq, hanswers,
            fun h => h.elim (fun h => nomatch h) (fun h => nomatch h), h.limit, h.peer_eq⟩
        | false =>
          rw [hclose, if_neg nofun] at hanswers
          obtain ⟨hread, hnone, hlim, hpeer⟩ : l.conn.afterWrite.state = .read ∧
              l.conn.afterWrite.head = none ∧ l.conn.afterWrite.inputLimit = l.conn.inputLimit ∧
              l.conn.afterWrite.peer = l.conn.peer := by
            simp [Conn.afterWrite, hclose]
          split
          · exact .inr ⟨delivered, processInput_spec hread h.stream_eq hanswers
              (fun head hhead => nomatch hnone.symm.trans hhead) (hlim.trans h.limit) (hpeer.trans h.peer_eq)⟩
          · next hempty =>
            have hinput : l.conn.afterWrite.input = [] := by
              rcases Classical.em (l.conn.afterWrite.input = []) with he | he
              · exact he
              · exact absurd ⟨hread, he⟩ hempty
            refine .inr ⟨delivered, h.stream_eq, ?_, fun _ => ?_, hlim.trans h.limit, hpeer.trans h.peer_eq⟩
            · rw [Link.owes]
              rw [hread]
              exact hanswers
            · rw [Waiting, hnone, hinput]
              rfl
      · refine .inr ⟨delivered, h.stream_eq, ?_, fun h => ?_, h.limit, h.peer_eq⟩
        · rw [owes_outPos]
          exact h.answers
        · dsimp only at h
          rw [hstate] at h
          exact h.elim (fun h => nomatch h) (fun h => nomatch h)
    | shutdown => exact .inl ⟨rfl, rfl⟩
    | closed => exact .inl ⟨hstate, rfl⟩

/-- What holds at every point of a connection: it is gone, or all it owes is known. -/
def Reached (handle : σ → Request → Response → σ × Response) (maxBody : Nat) (peer : Bytes) (start : σ)
    (stream : Bytes) (l : Link σ) : Prop :=
  finals l.log <+: serve handle maxBody peer start stream ∧
    (l.conn.state = .closed ∨ ∃ delivered, Inv handle maxBody peer start stream l delivered)

namespace ConnectionLemmas

variable {start : σ} {stream delivered date : Bytes} {l : Link σ}

theorem served_of_inv (h : Inv handle maxBody peer start stream l delivered) :
    serve handle maxBody peer start stream =
      finals l.log ++ (l.owes.elim [] fun rest => serve handle maxBody peer l.app (rest ++ l.unread)) := by
  have hserved := h.answers.served l.unread
  rw [← h.stream_eq] at hserved
  exact hserved

theorem reached_of_inv (h : Inv handle maxBody peer start stream l delivered) :
    Reached handle maxBody peer start stream l := by
  refine ⟨?_, .inr ⟨delivered, h⟩⟩
  rw [served_of_inv h]
  exact List.prefix_append _ _

theorem step_closed (hstate : l.conn.state = .closed) (io : Io) :
    (l.step handle maxBody date io).conn.state = .closed ∧ (l.step handle maxBody date io).log = l.log := by
  cases io with
  | want => exact ⟨hstate, rfl⟩
  | lost => exact ⟨rfl, rfl⟩
  | advance n =>
    rw [Link.step, hstate]
    exact ⟨hstate, rfl⟩

theorem step_reached (h : Reached handle maxBody peer start stream l) (io : Io) :
    Reached handle maxBody peer start stream (l.step handle maxBody date io) := by
  obtain ⟨hlog, hclosed | ⟨delivered, hinv⟩⟩ := h
  · obtain ⟨hstill, hsame⟩ := (@step_closed _ handle maxBody date) hclosed io
    exact ⟨hsame ▸ hlog, .inl hstill⟩
  · rcases (@step_spec _ _ _ _ _ _ _ date) hinv io with ⟨hclosed, hsame⟩ | ⟨delivered', hinv'⟩
    · exact ⟨hsame ▸ hlog, .inl hclosed⟩
    · exact reached_of_inv hinv'

theorem inv_new (stream : Bytes) :
    Inv handle maxBody peer start stream ⟨Conn.new maxBody peer, stream, start, []⟩ [] where
  stream_eq := rfl
  answers := ⟨fun _ => rfl, fun rest hrest => by cases hrest; rfl⟩
  waits _ := rfl
  limit := rfl
  peer_eq := rfl

/-- The run lemma: any steps of the operating system. -/
theorem run_reached (stream : Bytes) (ios : List Io) :
    Reached handle maxBody peer start stream (Link.run handle maxBody date peer start stream ios) := by
  have hsteps : ∀ l, Reached handle maxBody peer start stream l →
      Reached handle maxBody peer start stream (ios.foldl (Link.step handle maxBody date) l) := by
    induction ios with
    | nil => exact fun _ h => h
    | cons io ios ih => exact fun l h => ih _ (step_reached h io)
  exact hsteps _ (reached_of_inv (inv_new stream))

end ConnectionLemmas

/-- However the stream is cut into reads, the requests handled and the final responses
are those of one pass over the whole stream: all of them once the connection has settled,
and the first of them at any point before. The head of a request is read the same from
any longer input; while the connection reads, the stream is the handled requests, the
input and what is unread, and the input limit leaves room for the next piece. -/
theorem connection_answers (handle : σ → Request → Response → σ × Response) (maxBody : Nat)
    (date peer : Bytes) (app : σ) (stream : Bytes) (ios : List Io) :
    (∀ data more, parseHead data ≠ .incomplete → parseHead (data ++ more) = parseHead data) ∧
    finals (Link.run handle maxBody date peer app stream ios).log <+: serve handle maxBody peer app stream ∧
    ((Link.run handle maxBody date peer app stream ios).Settled →
      finals (Link.run handle maxBody date peer app stream ios).log = serve handle maxBody peer app stream) ∧
    ((Link.run handle maxBody date peer app stream ios).conn.state = .read →
      stream = rawBytes (Link.run handle maxBody date peer app stream ios).log ++
        (Link.run handle maxBody date peer app stream ios).conn.input ++
        (Link.run handle maxBody date peer app stream ios).unread ∧
      ∀ n ≤ chunkMax, (Link.run handle maxBody date peer app stream ios).conn.input.length + n ≤
        (Link.run handle maxBody date peer app stream ios).conn.inputLimit) := by
  obtain ⟨hlog, hrun⟩ := (@run_reached _ handle maxBody peer app date) stream ios
  generalize Link.run handle maxBody date peer app stream ios = l at hlog hrun
  refine ⟨fun data more h => parseHead_append more h, hlog, fun hsettled => ?_, fun hread => ?_⟩
  · rcases hrun with hclosed | ⟨delivered, hinv⟩
    · rcases hsettled with ⟨hread, _⟩ | hshut
      · exact nomatch hclosed.symm.trans hread
      · exact nomatch hclosed.symm.trans hshut
    have hserved := served_of_inv hinv
    rcases hsettled with ⟨hread, hunread⟩ | hshut
    · rw [hserved, Link.owes, hread, hunread]
      show _ = finals l.log ++ serve handle maxBody peer l.app (l.conn.input ++ [])
      rw [List.append_nil, serve_of_waiting (hinv.waits (.inr hread)), List.append_nil]
    · rw [hserved, Link.owes, hshut]
      exact (List.append_nil _).symm
  · rcases hrun with hclosed | ⟨delivered, hinv⟩
    · exact nomatch hclosed.symm.trans hread
    refine ⟨?_, fun n hn => ?_⟩
    · have hraw := hinv.answers.raw l.conn.input (by rw [Link.owes, hread])
      rw [← hraw]
      exact hinv.stream_eq
    · rw [hinv.limit]
      exact room_of_waiting (hinv.waits (.inr hread)) n hn

/-- A request that expects the interim response gets it only when its body was not read
with its head. -/
theorem interim_depends_on_reads :
    ∃ (stream : Bytes) (ios ios' : List Io),
      (Link.run (fun (s : Unit) _ r => (s, r)) 65536 [] [] () stream ios).Settled ∧
      (Link.run (fun (s : Unit) _ r => (s, r)) 65536 [] [] () stream ios').Settled ∧
      (Link.run (fun (s : Unit) _ r => (s, r)) 65536 [] [] () stream ios).log ≠
        (Link.run (fun (s : Unit) _ r => (s, r)) 65536 [] [] () stream ios').log :=
  ⟨utf8 "POST / HTTP/1.1\r\nhost: a\r\nexpect: 100-continue\r\ncontent-length: 1\r\n\r\nx",
    [.advance 0, .advance 100, .advance 4096, .advance 0],
    [.advance 0, .advance 69, .advance 1, .advance 4096, .advance 0], by decide +kernel⟩

end

end OmtClient.Web.Http
