import OmtClient.Ssh.Sftp

/-!
# The upload loop

`upload_on` after OPEN: read the source, pipeline WRITE requests, collect their
replies, and close the file once the source has ended and nothing is in flight.
One `Turn` is what one pass of the loop gets from outside; a list of turns is a
run, and the replies in it are in the order the server chose.

The window identifies a reply by its id modulo `inFlightMax` and by its distance
from the next id. Nothing in the loop keeps it from issuing a WRITE while the
one sent `inFlightMax` ids earlier is still outstanding, and from then on that
older write cannot be acknowledged.

Results:
1. `upload_sound`: in every run the window is sound and the acknowledged and the
   outstanding ids are together the ids sent.
2. `upload_window_of_clear`: in every run that issues a WRITE only when the one
   `inFlightMax` ids earlier is answered, the window accepts exactly the
   outstanding ids, success means that every WRITE was acknowledged, and a
   server that conforms, in whatever order it answers, never makes it fail.
3. `reordering_server_fails`: without that condition it can.
-/

namespace OmtClient.Ssh.Sftp

open OmtClient.Lib Wire WindowLemmas

/-! ## The loop -/

/-- What `src.read` returns: at most `chunkMax` bytes, none at the end. -/
abbrev Chunk := { data : Bytes // data.length ≤ chunkMax }

theorem empty_fits : ([] : Bytes).length ≤ chunkMax := Nat.zero_le _

theorem byte_fits : ([7] : Bytes).length ≤ chunkMax := by decide

/-- What one pass of the loop gets from outside. A pass uses only the parts it
reaches. -/
structure Turn where
  /-- The operator had cancelled when the pass began. -/
  cancelled : Bool := false
  /-- What reading the source gives. -/
  read : Except String Chunk := .ok ⟨[], empty_fits⟩
  /-- Whether the channel took the request. -/
  sent : Except String Unit := .ok ()
  /-- What `Sftp::reply` gives. -/
  reply : Except String Bytes := .error "SFTP upload timed out"
  /-- The operator had cancelled by the time a reply failed. -/
  cancelledAfter : Bool := false

/-- The loop's state. `requests` and `acked` are history: the requests handed to
the channel and the ids accepted as acknowledged, in order. -/
structure Upload where
  window : Window
  offset : Nat
  atEnd : Bool
  requests : List Request
  acked : List UInt32

/-- The state the loop starts in, with the requests sent before it. -/
def Upload.start (nextId : UInt32) (requests : List Request) : Upload :=
  { window := .start nextId, offset := 0, atEnd := false, requests, acked := [] }

/-- The loop is over and only CLOSE is left. -/
def Upload.drained (s : Upload) : Bool := s.atEnd && s.window.inFlight == 0

/-- The pass reads the source and sends a WRITE. -/
def Upload.filling (s : Upload) : Bool := !s.atEnd && s.window.inFlight < inFlightMax

/-- `Sftp::abandon`: close the handle and remove the partial file. -/
def Upload.abandon (handle remote : Bytes) (s : Upload) : Upload :=
  { s with
    window := { s.window with nextId := s.window.nextId + 2 }
    requests := s.requests ++ [.close s.window.nextId handle, .remove (s.window.nextId + 1) remote] }

/-- The state once the CLOSE that ends an upload is built. -/
def Upload.closing (handle : Bytes) (s : Upload) : Upload :=
  { s with
    window := { s.window with nextId := s.window.nextId + 1 }
    requests := s.requests ++ [.close s.window.nextId handle] }

/-- The CLOSE that ends an upload, and its reply. -/
def Upload.finish (handle : Bytes) (s : Upload) (t : Turn) :
    Progress Upload (Except Error Unit) :=
  match t.sent with
  | .error e => .done (s.closing handle) (.error (.outside e))
  | .ok () =>
    match t.reply with
    | .error e => .done (s.closing handle) (.error (.outside e))
    | .ok packet =>
      match statusOk packet (some s.window.nextId) "close" with
      | .error e => .done (s.closing handle) (.error e)
      | .ok _ => .done (s.closing handle) (.ok ())

/-- The pass that reads the source: the end, or a WRITE of what was read. -/
def Upload.fill (handle : Bytes) (s : Upload) (t : Turn) : Progress Upload (Except Error Unit) :=
  match t.read with
  | .error e => .done s (.error (.outside e))
  | .ok ⟨[], _⟩ => .running { s with atEnd := true }
  | .ok ⟨b :: bs, _⟩ =>
    let s' := { s with
      window := s.window.issue
      offset := s.offset + (b :: bs).length
      requests := s.requests ++ [.write s.window.nextId handle s.offset (b :: bs)] }
    match t.sent with
    | .error e => .done s' (.error (.outside e))
    | .ok () => .running s'

/-- The write `id` is accepted as acknowledged. -/
def Upload.acknowledge (s : Upload) (id : UInt32) : Upload :=
  { s with window := s.window.ack id, acked := s.acked ++ [id] }

/-- The pass that waits for a reply. -/
def Upload.collect (handle remote : Bytes) (s : Upload) (t : Turn) :
    Progress Upload (Except Error Unit) :=
  let answered := match t.reply with
    | .error e => Except.error (Error.outside e)
    | .ok packet => statusOk packet none "write"
  match answered with
  | .error e => .done (if t.cancelledAfter then s.abandon handle remote else s) (.error e)
  | .ok id =>
    if s.window.accepts id then .running (s.acknowledge id) else .done s (.error .notMade)

/-- One pass of the loop, and CLOSE once it is over. -/
def Upload.step (handle remote : Bytes) (s : Upload) (t : Turn) :
    Progress Upload (Except Error Unit) :=
  if s.drained then s.finish handle t
  else if t.cancelled then .done (s.abandon handle remote) (.error .cancelled)
  else if s.filling then s.fill handle t
  else s.collect handle remote t

/-! ## What one pass can do -/

/-- The ids of the WRITE requests in a list of requests. -/
def writeIds (requests : List Request) : List UInt32 :=
  requests.filterMap fun
    | .write id _ _ _ => some id
    | _ => none

/-- The pass sends a WRITE. -/
def Upload.Issues (s : Upload) (t : Turn) : Prop :=
  s.drained = false ∧ s.filling = true ∧ ∃ c : Chunk, t.read = .ok c ∧ c.val ≠ []

/-- The pass waits for a reply. -/
def Upload.Awaits (s : Upload) (t : Turn) : Prop :=
  s.drained = false ∧ s.filling = false ∧ t.cancelled = false

namespace UploadLemmas

variable {handle remote : Bytes} {s s' : Upload} {t : Turn}

theorem statusOk_statusPacket (id : UInt32) (want : Option UInt32) (message tag : Bytes)
    (what : String) (hwant : want.all (fun w => id == w) = true) (hlen : message.length < UInt32.size) :
    statusOk (statusPacket id 0 message tag) want what = .ok id := by
  simp [statusOk, statusPacket, u8, u32_putU32, hwant, string_putString _ _ hlen]

/-- A pass that goes on saw the end of the source, sent a WRITE, or took an
acknowledgement. -/
theorem step_running (h : s.step handle remote t = .running s') :
    (s.drained = false ∧ s' = { s with atEnd := true }) ∨
    (s.Issues t ∧ ∃ data, s' = { s with
        window := s.window.issue
        offset := s.offset + data.length
        requests := s.requests ++ [.write s.window.nextId handle s.offset data] }) ∨
    (s.Awaits t ∧ ∃ packet id, t.reply = .ok packet ∧ statusOk packet none "write" = .ok id ∧
      s.window.accepts id = true ∧ s' = s.acknowledge id) := by
  unfold Upload.step at h
  split at h
  · -- CLOSE always ends the upload
    unfold Upload.finish at h
    split at h
    · exact nomatch h
    · split at h
      · exact nomatch h
      · split at h <;> exact nomatch h
  · next hd =>
    have hd' : s.drained = false := by simpa using hd
    split at h
    · exact nomatch h
    · next hcancel =>
      split at h
      · next hfill =>
        unfold Upload.fill at h
        split at h
        · exact nomatch h
        · cases h
          exact .inl ⟨hd', rfl⟩
        · next b bs hle hread =>
          split at h
          · exact nomatch h
          · cases h
            exact .inr (.inl ⟨⟨hd', hfill, _, hread, by simp⟩, b :: bs, rfl⟩)
      · next hfill =>
        unfold Upload.collect at h
        simp only at h
        split at h
        · exact nomatch h
        · next id hid =>
          split at h
          · next hacc =>
            cases h
            split at hid
            · exact nomatch hid
            · next packet hpacket =>
              exact .inr (.inr ⟨⟨hd', by simpa using hfill, by simpa using hcancel⟩,
                packet, id, hpacket, hid, hacc, rfl⟩)
          · exact nomatch h

/-- A reply to a write is accepted or refused by the window alone. -/
theorem step_reply {id : UInt32} {message tag : Bytes} (ha : s.Awaits t)
    (hr : t.reply = .ok (statusPacket id 0 message tag)) (hlen : message.length < UInt32.size) :
    s.step handle remote t =
      if s.window.accepts id then .running (s.acknowledge id) else .done s (.error .notMade) := by
  obtain ⟨hd, hf, hc⟩ := ha
  simp only [Upload.step, hd, hf, hc, Upload.collect, hr,
    statusOk_statusPacket id none message tag "write" rfl hlen]
  rfl

/-- Success is a CLOSE answered after the loop has drained. -/
theorem step_success {s' : Upload} (h : s.step handle remote t = .done s' (.ok ())) :
    s.drained = true ∧ s'.acked = s.acked ∧ writeIds s'.requests = writeIds s.requests := by
  unfold Upload.step at h
  split at h
  · next hd =>
    refine ⟨hd, ?_⟩
    unfold Upload.finish at h
    split at h
    · exact nomatch h
    · split at h
      · exact nomatch h
      · split at h
        · exact nomatch h
        · cases h
          simp [writeIds, Upload.closing]
  · split at h
    · exact nomatch h
    · split at h
      · unfold Upload.fill at h
        split at h
        · exact nomatch h
        · exact nomatch h
        · split at h <;> exact nomatch h
      · unfold Upload.collect at h
        simp only at h
        split at h
        · exact nomatch h
        · split at h <;> exact nomatch h

end UploadLemmas

open UploadLemmas

/-! ## The window over whole runs -/

/-- What holds in every state of every run: the window is sound, and the ids
sent as WRITE are those acknowledged and those outstanding. -/
structure Upload.Inv (s : Upload) : Prop where
  sound : s.window.Sound
  ids : (writeIds s.requests).Perm (s.acked ++ s.window.outstanding)

theorem Upload.start_inv (nextId : UInt32) {requests : List Request}
    (h : writeIds requests = []) : (Upload.start nextId requests).Inv where
  sound := Window.start_sound nextId
  ids := by simp [Upload.start, Window.start, h]

theorem Upload.step_inv {handle remote : Bytes} {s s' : Upload} {t : Turn} (hi : s.Inv)
    (h : s.step handle remote t = .running s') : s'.Inv := by
  obtain ⟨_, rfl⟩ | ⟨_, data, rfl⟩ | ⟨_, packet, id, _, _, hacc, rfl⟩ := step_running h
  · exact ⟨hi.sound, hi.ids⟩
  · refine ⟨Window.issue_sound hi.sound, ?_⟩
    simp only [writeIds, List.filterMap_append, List.filterMap_cons, List.filterMap_nil,
      Window.issue, ← List.append_assoc]
    exact hi.ids.append_right [s.window.nextId]
  · refine ⟨Window.ack_sound hi.sound hacc, ?_⟩
    have hmem := Window.accepts_outstanding hi.sound hacc
    refine hi.ids.trans ?_
    simp only [Upload.acknowledge, Window.ack, List.append_assoc]
    exact (List.perm_cons_erase hmem).append_left s.acked

theorem upload_inv {handle remote : Bytes} {nextId : UInt32} {requests : List Request}
    (hreq : writeIds requests = []) {turns : List Turn} {s : Upload}
    (h : drive (Upload.step handle remote) (.start nextId requests) turns = .running s) : s.Inv :=
  drive_invariant (fun _ _ _ hi hs => Upload.step_inv hi hs) (Upload.start_inv nextId hreq) h

/-- A pass that sends a WRITE takes a clear slot: the write sent `inFlightMax`
ids earlier is answered. -/
def Upload.ClearIssue (s : Upload) (t : Turn) : Prop := s.Issues t → s.window.Clear

/-- A server that answers every request with success and only what is
outstanding, in any order, over a channel and a source that work. -/
structure Upload.Conforms (s : Upload) (t : Turn) : Prop where
  going : t.cancelled = false
  sent : t.sent = .ok ()
  read : ∃ c, t.read = .ok c
  closed : s.drained = true → ∃ message tag, message.length < UInt32.size ∧
    t.reply = .ok (statusPacket s.window.nextId 0 message tag)
  answer : s.Awaits t → ∃ id ∈ s.window.outstanding, ∃ message tag,
    message.length < UInt32.size ∧ t.reply = .ok (statusPacket id 0 message tag)

/-- The window's law in one state: the reply to each outstanding write is
accepted, and once only; any other reply ends the upload. -/
structure Upload.WindowLaw (handle remote : Bytes) (s : Upload) : Prop where
  accepts : ∀ t id message tag, s.Awaits t → message.length < UInt32.size →
    t.reply = .ok (statusPacket id 0 message tag) → id ∈ s.window.outstanding →
    s.step handle remote t = .running (s.acknowledge id)
  once : ∀ id ∈ s.window.outstanding, id ∉ (s.acknowledge id).window.outstanding
  rejects : ∀ t id message tag, s.Awaits t → message.length < UInt32.size →
    t.reply = .ok (statusPacket id 0 message tag) → id ∉ s.window.outstanding →
    s.step handle remote t = .done s (.error .notMade)

theorem Upload.windowLaw_of_fits (handle remote : Bytes) {s : Upload} (hs : s.window.Sound)
    (hf : s.window.Fits) : s.WindowLaw handle remote where
  accepts := by
    intro t id message tag ha hlen hr hid
    have hacc := (Window.accepts_all_iff s.window).mpr ⟨hf.near, hf.marked⟩ id hid
    rw [step_reply ha hr hlen, if_pos hacc]
  once := fun id _ => hf.nodup.not_mem_erase
  rejects := by
    intro t id message tag ha hlen hr hid
    have hacc : ¬ s.window.accepts id = true := fun h =>
      hid (Window.accepts_outstanding hs h)
    rw [step_reply ha hr hlen, if_neg hacc]

theorem Upload.step_fits {handle remote : Bytes} {s s' : Upload} {t : Turn}
    (hs : s.window.Sound) (hf : s.window.Fits) (hc : s.ClearIssue t)
    (h : s.step handle remote t = .running s') : s'.window.Fits := by
  obtain ⟨_, rfl⟩ | ⟨hissue, data, rfl⟩ | ⟨_, packet, id, _, _, hacc, rfl⟩ := step_running h
  · exact hf
  · exact Window.issue_fits hs hf (hc hissue)
  · exact Window.ack_fits hf (Window.accepts_outstanding hs hacc)

theorem upload_fits {handle remote : Bytes} {nextId : UInt32} {requests : List Request}
    (hreq : writeIds requests = []) {turns : List Turn} {s : Upload}
    (hclear : AllSteps (Upload.step handle remote) Upload.ClearIssue (.start nextId requests) turns)
    (h : drive (Upload.step handle remote) (.start nextId requests) turns = .running s) :
    s.Inv ∧ s.window.Fits :=
  drive_invariant_of (I := fun s => s.Inv ∧ s.window.Fits)
    (fun _ _ _ hi hc hs => ⟨Upload.step_inv hi.1 hs, Upload.step_fits hi.1.sound hi.2 hc hs⟩)
    ⟨Upload.start_inv nextId hreq, Window.start_fits nextId⟩ hclear h

/-- A conforming turn never ends the upload with an error while the window
fits. -/
theorem Upload.step_conforms {handle remote : Bytes} {s s' : Upload} {t : Turn}
    {r : Except Error Unit} (hs : s.window.Sound) (hf : s.window.Fits) (hc : s.Conforms t)
    (h : s.step handle remote t = .done s' r) : r = .ok () := by
  cases hd : s.drained with
  | true =>
    obtain ⟨message, tag, hlen, hr⟩ := hc.closed hd
    have hok := statusOk_statusPacket s.window.nextId (some s.window.nextId) message tag "close"
      (by simp) hlen
    simp only [Upload.step, hd, if_true, Upload.finish, hc.sent, hr, hok] at h
    cases h
    rfl
  | false =>
    cases hfill : s.filling with
    | true =>
      obtain ⟨⟨data, hle⟩, hread⟩ := hc.read
      cases data with
      | nil => simp [Upload.step, hd, hc.going, hfill, Upload.fill, hread] at h
      | cons b bs => simp [Upload.step, hd, hc.going, hfill, Upload.fill, hread, hc.sent] at h
    | false =>
      have ha : s.Awaits t := ⟨hd, hfill, hc.going⟩
      obtain ⟨id, hid, message, tag, hlen, hr⟩ := hc.answer ha
      rw [(Upload.windowLaw_of_fits handle remote hs hf).accepts t id
        message tag ha hlen hr hid] at h
      exact nomatch h

/-- The upload's window over every run and every order of replies.

Success always means that every WRITE sent was acknowledged. The window's law
holds in every state of a run that issues a WRITE only into a clear slot, and
there no conforming server makes the upload fail. In any run the answer to a
write that is not outstanding is refused, and to one that is more than
`inFlightMax` ids old as well. -/
theorem upload_window_of_clear (handle remote : Bytes) (nextId : UInt32)
    (requests : List Request) (hreq : writeIds requests = []) (turns : List Turn) :
    (∀ s, drive (Upload.step handle remote) (.start nextId requests) turns = .done s (.ok ()) →
      s.acked.Perm (writeIds s.requests)) ∧
    (AllSteps (Upload.step handle remote) Upload.ClearIssue (.start nextId requests) turns →
      (∀ s, drive (Upload.step handle remote) (.start nextId requests) turns = .running s →
        s.WindowLaw handle remote) ∧
      (AllSteps (Upload.step handle remote) Upload.Conforms (.start nextId requests) turns →
        ∀ s r, drive (Upload.step handle remote) (.start nextId requests) turns = .done s r →
          r = .ok ())) ∧
    (∀ s, drive (Upload.step handle remote) (.start nextId requests) turns = .running s →
      ∀ id, id ∉ s.window.outstanding ∨ inFlightMax < s.window.distance id →
      ∀ t message tag, s.Awaits t → message.length < UInt32.size →
        t.reply = .ok (statusPacket id 0 message tag) →
        s.step handle remote t = .done s (.error .notMade)) := by
  refine ⟨?_, fun hclear => ⟨?_, ?_⟩, ?_⟩
  · intro s h
    obtain ⟨pre, t, post, m, -, hrun, hlast⟩ := drive_done h
    obtain ⟨hd, hacked, hids⟩ := step_success hlast
    have hi := upload_inv hreq hrun
    have hnone : m.window.outstanding = [] := by
      have hz : m.window.inFlight = 0 := by
        simp only [Upload.drained, Bool.and_eq_true, beq_iff_eq] at hd
        exact hd.2
      exact List.eq_nil_of_length_eq_zero (hi.sound.count ▸ hz)
    have hperm := hi.ids
    rw [hnone, List.append_nil] at hperm
    rw [hacked, hids]
    exact hperm.symm
  · intro s h
    obtain ⟨hi, hf⟩ := upload_fits hreq hclear h
    exact Upload.windowLaw_of_fits handle remote hi.sound hf
  · intro hconf s r h
    obtain ⟨pre, t, post, m, rfl, hrun, hlast⟩ := drive_done h
    obtain ⟨hi, hf⟩ := upload_fits hreq (allSteps_take hclear) hrun
    exact Upload.step_conforms hi.sound hf (allSteps_at hconf hrun) hlast
  · intro s h id hbad t message tag ha hlen hr
    have hacc : ¬ s.window.accepts id = true := by
      rcases hbad with hid | hfar
      · exact fun h' => hid (Window.accepts_outstanding (upload_inv hreq h).sound h')
      · rw [accepts_iff]
        exact fun h => absurd h.2.1 (Nat.not_le.mpr hfar)
    rw [step_reply ha hr hlen, if_neg hacc]

/-! ## Concrete runs -/

/-- A pass that finds `data` in the source. -/
def writeTurn (data : Chunk) : Turn := { read := .ok data }

/-- A pass that finds the end of the source. -/
def endTurn : Turn := {}

/-- A pass that gets an OK status for `id`. -/
def ackTurn (id : UInt32) : Turn := { reply := .ok (statusPacket id 0 [] []) }

namespace UploadLemmas

/-- `ClearIssue`, computed. -/
def clearIssueB (s : Upload) (_ : Turn) : Bool :=
  s.window.outstanding.all fun id => s.window.distance id < inFlightMax

theorem clearIssue_of_clearIssueB (s : Upload) (t : Turn) (h : clearIssueB s t = true) :
    s.ClearIssue t := by
  intro _ id hid
  simpa using List.all_eq_true.mp h id hid

/-- `Conforms`, computed for replies with an empty message. -/
def conformsB (s : Upload) (t : Turn) : Bool :=
  !t.cancelled && decide (t.sent = .ok ()) && t.read.toBool &&
    (!s.drained || decide (t.reply = .ok (statusPacket s.window.nextId 0 [] []))) &&
    (s.drained || s.filling ||
      s.window.outstanding.any fun id => decide (t.reply = .ok (statusPacket id 0 [] [])))

theorem conforms_of_conformsB (s : Upload) (t : Turn) (h : conformsB s t = true) :
    s.Conforms t := by
  simp only [conformsB, Bool.and_eq_true, Bool.or_eq_true, Bool.not_eq_true', decide_eq_true_eq,
    List.any_eq_true] at h
  obtain ⟨⟨⟨⟨hgoing, hsent⟩, hread⟩, hclose⟩, hanswer⟩ := h
  refine ⟨hgoing, hsent, ?_, ?_, ?_⟩
  · cases hr : t.read with
    | error e => simp [hr, Except.toBool] at hread
    | ok c => exact ⟨c, rfl⟩
  · intro hd
    rcases hclose with hclose | hclose
    · exact absurd hd (by simp [hclose])
    · exact ⟨[], [], by decide, hclose⟩
  · rintro ⟨hd, hf, _⟩
    rcases hanswer with (hanswer | hanswer) | ⟨id, hid, hr⟩
    · exact absurd hanswer (by simp [hd])
    · exact absurd hanswer (by simp [hf])
    · exact ⟨id, hid, [], [], by decide, hr⟩

end UploadLemmas

/-- A file of three chunks: three writes, the end of the source, their
acknowledgements out of order, and CLOSE. -/
def threeWrites : List Turn :=
  List.replicate 3 (writeTurn ⟨[7], byte_fits⟩) ++
    [endTurn, ackTurn 3, ackTurn 1, ackTurn 2, ackTurn 4]

/-- The run over `threeWrites` meets every condition and succeeds with its
writes acknowledged. -/
theorem upload_window_threeWrites :
    AllSteps (Upload.step [1] [2]) Upload.ClearIssue (.start 1 []) threeWrites ∧
    AllSteps (Upload.step [1] [2]) Upload.Conforms (.start 1 []) threeWrites ∧
    ∃ s, drive (Upload.step [1] [2]) (.start 1 []) threeWrites = .done s (.ok ()) ∧
      writeIds s.requests = [1, 2, 3] ∧ s.acked.Perm (writeIds s.requests) := by
  have hclear : AllSteps (Upload.step [1] [2]) Upload.ClearIssue (.start 1 []) threeWrites :=
    allSteps_of_allStepsB clearIssue_of_clearIssueB (by decide +kernel)
  have hconf : AllSteps (Upload.step [1] [2]) Upload.Conforms (.start 1 []) threeWrites :=
    allSteps_of_allStepsB conforms_of_conformsB (by decide +kernel)
  have hall := upload_window_of_clear [1] [2] 1 [] rfl threeWrites
  refine ⟨hclear, hconf, ?_⟩
  have hdone : (drive (Upload.step [1] [2]) (.start 1 []) threeWrites).result? ≠ none := by
    decide +kernel
  cases hrun : drive (Upload.step [1] [2]) (.start 1 []) threeWrites with
  | running s => simp [hrun, Progress.result?] at hdone
  | done s r =>
    obtain rfl := (hall.2.1 hclear).2 hconf s r hrun
    have hids : writeIds (drive (Upload.step [1] [2]) (.start 1 []) threeWrites).state.requests =
        [1, 2, 3] := by decide +kernel
    exact ⟨s, rfl, by simpa [hrun, Progress.state] using hids, hall.1 s hrun⟩

/-- `inFlightMax + 1` one-byte writes whose first is answered last: the reply to
the second lets the loop issue a write into the slot of the first. -/
def firstAnsweredLast : List Turn :=
  List.replicate inFlightMax (writeTurn ⟨[7], byte_fits⟩) ++
    [ackTurn 2, writeTurn ⟨[7], byte_fits⟩, ackTurn 1]

/-- A server that answers only outstanding writes, each with success, makes the
upload fail by answering the first of them after the second. -/
theorem reordering_server_fails :
    AllSteps (Upload.step [1] [2]) Upload.Conforms (.start 1 []) firstAnsweredLast ∧
    ∃ s, drive (Upload.step [1] [2]) (.start 1 []) firstAnsweredLast =
        .done s (.error .notMade) ∧ 1 ∈ s.window.outstanding := by
  refine ⟨allSteps_of_allStepsB conforms_of_conformsB (by decide +kernel), ?_⟩
  have hverdict : (drive (Upload.step [1] [2]) (.start 1 []) firstAnsweredLast).result? =
      some (.error .notMade) := by decide +kernel
  have hout : 1 ∈ (drive (Upload.step [1] [2]) (.start 1 [])
      firstAnsweredLast).state.window.outstanding := by decide +kernel
  cases hrun : drive (Upload.step [1] [2]) (.start 1 []) firstAnsweredLast with
  | running s => simp [hrun, Progress.result?] at hverdict
  | done s r =>
    simp only [hrun, Progress.result?, Option.some.injEq] at hverdict
    exact ⟨s, by rw [hverdict], by simpa [hrun, Progress.state] using hout⟩

end OmtClient.Ssh.Sftp
