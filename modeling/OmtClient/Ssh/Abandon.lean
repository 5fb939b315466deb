import OmtClient.Ssh.Credit
import OmtClient.Ssh.Upload

/-!
# An upload that the operator cancels

`send`, `reply`, `abandon` and the loop of `crates/omt-deploy/src/ssh/sftp.rs` on the channel they use: a
pass of the upload loop makes its operations on a channel, and what these give is the turn that the pass
takes. The operator's flag is looked at when a pass begins, before each packet of a request, while a reply is
waited for, and once more when a reply has failed.

A cancelled upload leaves no partial file when the flag is noticed where the loop looks at it. Noticed by
`send`, it goes up with `?` past `abandon`, and so it does behind the loop.

1. `run_inv`: while an upload goes on, the channel was handed the requests that count as sent and nothing else.
2. `removed_iff`: when a cancelled upload on a connection that works has closed and removed its file.
3. `cancelled_in_send`: an upload that leaves its file.
-/

namespace OmtClient.Ssh.Sftp

open OmtClient.Lib Prog Wire
open Channel (Chan State Good checkCancel isLate poll written)

/-! ## Requests and replies on the channel -/

/-- `MAX_PACKET`. -/
def maxPacket : Nat := 256 * 1024

/-- What `send` puts on the channel for a request. -/
def frame (q : Request) : Bytes := putU32 (lengthU32 q.encode.length) ++ q.encode

/-- `Sftp::send`. -/
def send (body : Bytes) : Chan Unit := do
  Channel.write (putU32 (lengthU32 body.length))
  Channel.write body

/-- The reply at the head of what was received and what is behind it, once it is there. -/
def wholeReply (rx : Bytes) : Except Channel.Error (Option (Bytes × Bytes)) :=
  match u32 rx with
  | none => .ok none
  | some (len, rest) =>
    if len = 0 ∨ maxPacket < len.toNat then .error (.transport "the SFTP server sent a malformed reply")
    else if len.toNat ≤ rest.length then .ok (some (rest.take len.toNat, rest.drop len.toNat))
    else .ok none

/-- One turn of the loop of `reply`. -/
def replyTurn : Chan (Option Bytes) := do
  let c ← get
  match wholeReply c.out with
  | .error e => raise e
  | .ok (some (packet, rest)) => do
    modify fun c => { c with out := rest }
    pure (some packet)
  | .ok none =>
    if c.closeReceived = true ∨ c.eofReceived = true then raise (.transport "the SFTP server closed the session")
    else do
      checkCancel
      let expired ← isLate
      if expired = true then raise (.transport "SFTP upload timed out")
      else do
        let _ ← poll
        pure none

/-- `Sftp::reply`. -/
def reply : Chan Bytes := do
  let c ← get
  loop replyTurn .stuck (c.late.length + 1)

/-! ## The loop on the channel -/

/-- An upload and its channel. The rest is history: the requests of the loop that the channel took whole,
whether the flag was found raised, and whether an operation of the channel failed for another reason. -/
structure Live where
  upload : Upload
  chan : State
  sent : List Request
  noticed : Bool
  broken : Bool

/-- The upload once the file is open. -/
def Live.start (remote : Bytes) (c : State) : Live :=
  ⟨.start 1 [.init 3, .open 0 remote], c, [], false, false⟩

/-- What a pass gets from the source and from its looks at the flag: when it begins, in its operations on the
channel, and when a reply has failed. -/
structure Watch where
  read : Except String Chunk
  raised : Bool
  looks : List Bool
  after : Bool

/-- The operations that follow look at this flag. -/
def Live.watching (l : Live) (looks : List Bool) : Live := { l with chan := { l.chan with cancels := looks } }

/-- `Sftp::send` of a request. -/
def Live.send (l : Live) (q : Request) : Except Channel.Error Unit × Live :=
  match (Sftp.send q.encode).run l.chan with
  | (.ok (), c) => (.ok (), { l with chan := c, sent := l.sent ++ [q] })
  | (.error e, c) => (.error e, { l with chan := c })

/-- `Sftp::reply`. -/
def Live.reply (l : Live) : Except Channel.Error Bytes × Live :=
  match Sftp.reply.run l.chan with
  | (r, c) => (r, { l with chan := c })

/-- An operation that looks at the flag has ended. -/
def Live.heed {α : Type} (l : Live) : Except Channel.Error α → Live
  | .ok _ => l
  | .error e => if e = .cancelled then { l with noticed := true } else { l with broken := true }

/-- An operation that nobody cancels has ended. -/
def Live.expect {α : Type} (l : Live) : Except Channel.Error α → Live
  | .ok _ => l
  | .error _ => { l with broken := true }

/-- `Sftp::abandon`. -/
def Live.abandon (handle remote : Bytes) (l : Live) : Live :=
  match (l.watching []).send (.close l.upload.window.nextId handle) with
  | (r, l) =>
    match (l.expect r).send (.remove (l.upload.window.nextId + 1) remote) with
    | (.error e, l) => @Live.expect Unit l (.error e)
    | (.ok (), l) =>
      match l.reply with
      | (.error _, l) => l
      | (.ok _, l) => l.reply.2

/-- What a pass does on the channel, and the turn that it takes by it. -/
def Live.observe (handle remote : Bytes) (l : Live) (p : Watch) : Turn × Live :=
  if l.upload.drained then
    match (l.watching p.looks).send (.close l.upload.window.nextId handle) with
    | (.error e, l) => ({ sent := .error e.text }, @Live.heed Unit l (.error e))
    | (.ok (), l) =>
      match l.reply with
      | (r, l) => ({ reply := r.mapError Channel.Error.text }, l.heed r)
  else if p.raised then ({ cancelled := true }, ({ l with noticed := true }).abandon handle remote)
  else if l.upload.filling then
    match p.read with
    | .error e => ({ read := .error e }, l)
    | .ok ⟨[], h⟩ => ({ read := .ok ⟨[], h⟩ }, l)
    | .ok ⟨b :: bs, h⟩ =>
      match (l.watching p.looks).send (.write l.upload.window.nextId handle l.upload.offset (b :: bs)) with
      | (r, l) => ({ read := .ok ⟨b :: bs, h⟩, sent := r.mapError Channel.Error.text }, l.heed r)
  else
    match (l.watching p.looks).reply with
    | (.error e, l) =>
      -- a flag that was found raised is still raised
      if e = .cancelled ∨ p.after = true then
        ({ reply := .error e.text, cancelledAfter := true },
          ({ @Live.heed Unit l (.error e) with noticed := true }).abandon handle remote)
      else ({ reply := .error e.text }, @Live.heed Unit l (.error e))
    | (.ok packet, l) =>
      match statusOk packet none "write" with
      | .ok _ => ({ reply := .ok packet }, l)
      | .error _ =>
        if p.after = true then
          ({ reply := .ok packet, cancelledAfter := true }, ({ l with noticed := true }).abandon handle remote)
        else ({ reply := .ok packet }, l)

/-- A pass of the loop, and CLOSE behind it. -/
def Live.step (handle remote : Bytes) (l : Live) (p : Watch) : Progress Live (Except Error Unit) :=
  match l.upload.step handle remote (l.observe handle remote p).1 with
  | .running s => .running { (l.observe handle remote p).2 with upload := s }
  | .done s r => .done { (l.observe handle remote p).2 with upload := s } r

/-- The last two requests sent close the file and remove it, and the channel was handed what was sent and
nothing else. -/
structure Live.Removed (handle remote : Bytes) (c : State) (l : Live) : Prop where
  requests : ∃ before a b, l.sent = before ++ [.close a handle, .remove b remote]
  bytes : written l.chan.log = written c.log ++ l.sent.flatMap frame

/-- The channel is in order and was handed what counts as sent. -/
structure Live.Framed (c : State) (l : Live) : Prop where
  good : Good l.chan
  bytes : written l.chan.log = written c.log ++ l.sent.flatMap frame

/-- What holds while the upload goes on: it has sent nothing but WRITE. -/
structure Live.Inv (c : State) (l : Live) : Prop where
  quiet : l.noticed = false
  loading : ∀ q ∈ l.sent, ∃ id h offset data, q = .write id h offset data
  framed : l.Framed c

namespace AbandonLemmas

open Channel.CreditLemmas

variable {handle remote : Bytes} {c : State} {l l' m : Live} {p : Watch} {q : Request} {e : Channel.Error}

/-! ### Operations of the channel -/

theorem write_spec (hgood : Good c) (data : Bytes) : wp (Channel.write data)
    (fun _ c' => Good c' ∧ written c'.log = written c.log ++ data) (fun _ _ => True) c := by
  rw [Channel.write, wp_bind, wp_get]
  refine wp_mono (writeLoop_spec hgood (Nat.lt_succ_self _)) ?_ (fun _ _ _ => trivial)
  intro _ c' hc'
  obtain ⟨hgood', ext, hsince, hdata, _⟩ := hc'
  refine ⟨hgood', ?_⟩
  rw [hsince.log, written_append, hdata]

theorem send_spec (hgood : Good c) (q : Request) : wp (send q.encode)
    (fun _ c' => Good c' ∧ written c'.log = written c.log ++ frame q) (fun _ _ => True) c := by
  rw [send, wp_bind]
  refine wp_mono (write_spec hgood _) (fun _ c₁ h₁ => ?_) (fun _ _ _ => trivial)
  refine wp_mono (write_spec h₁.1 _) (fun _ c₂ h₂ => ⟨h₂.1, ?_⟩) (fun _ _ _ => trivial)
  rw [h₂.2, h₁.2, List.append_assoc, frame]

theorem wholeReply_error {rx : Bytes} (h : wholeReply rx = .error e) : ∃ text, e = .transport text := by
  unfold wholeReply at h
  split at h
  · cases h
  split at h
  · cases h
    exact ⟨_, rfl⟩
  split at h <;> cases h

theorem serves_replyTurn : Channel.Serves replyTurn := by
  refine serves_bind serves_get fun c => ?_
  split
  next hmalformed =>
    obtain ⟨text, rfl⟩ := wholeReply_error hmalformed
    exact serves_raise (by simp) (by simp [Channel.Sound])
  · exact serves_bind (serves_modify fun c => ⟨rfl, rfl, rfl, rfl, Nat.le_refl _⟩) fun _ => serves_pure _
  · refine serves_ite (serves_raise (by simp) (by simp [Channel.Sound])) ?_
    refine serves_bind serves_checkCancel fun _ => serves_bind serves_isLate fun expired => ?_
    exact serves_ite (serves_raise (by simp) (by simp [Channel.Sound])) (serves_bind serves_poll fun _ => serves_pure _)

/-- A turn that goes on has looked at the clock. -/
theorem replyTurn_falls (hgood : Good c) :
    wp replyTurn (fun o c' => o = none → c'.late.length < c.late.length) (fun _ _ => True) c := by
  rw [replyTurn, wp_bind, wp_get]
  split
  · trivial
  · rw [wp_bind, wp_modify, wp_pure]
    exact fun hsome => by cases hsome
  · rw [wp_ite]
    refine ⟨fun _ => trivial, fun _ => ?_⟩
    rw [wp_bind]
    refine wp_mono (serves_checkCancel c hgood) ?_ (fun _ _ _ => trivial)
    rintro _ c₁ ⟨hgood₁, ext₁, hsince₁, _⟩
    rw [wp_bind]
    refine wp_mono (wp_and (serves_isLate c₁ hgood₁) isLate_falls) ?_ (fun _ _ _ => trivial)
    rintro expired c₂ ⟨⟨hgood₂, _⟩, hfall⟩
    rw [wp_ite]
    refine ⟨fun _ => trivial, fun htime => ?_⟩
    rw [wp_bind]
    refine wp_mono (serves_poll c₂ hgood₂) ?_ (fun _ _ _ => trivial)
    rintro _ c₃ ⟨_, ext₃, hsince₃, _⟩ _
    have hless := hfall (Bool.eq_false_iff.mpr htime)
    exact (hsince₃.late.trans_lt hless).trans_le hsince₁.late

theorem reply_spec (hgood : Good c) : wp reply (fun _ c' => Good c' ∧ written c'.log = written c.log)
    (fun _ c' => Good c' ∧ written c'.log = written c.log) c := by
  refine wp_mono (serves_loop serves_replyTurn (fun _ h => replyTurn_falls h) c hgood) ?_ ?_
  · rintro _ c' ⟨hgood', ext, hsince, hnone⟩
    exact ⟨hgood', by rw [hsince.log, written_append, hnone, List.append_nil]⟩
  · rintro _ c' ⟨hgood', ⟨ext, hsince, hnone⟩, _⟩
    exact ⟨hgood', by rw [hsince.log, written_append, hnone, List.append_nil]⟩

/-! ### The same, for the upload -/

theorem framed_congr (h : l.Framed c) (hchan : l'.chan = l.chan) (hsent : l'.sent = l.sent) : l'.Framed c := by
  refine ⟨hchan ▸ h.good, ?_⟩
  rw [hchan, hsent]
  exact h.bytes

theorem framed_watching (h : l.Framed c) (looks : List Bool) : (l.watching looks).Framed c :=
  ⟨⟨⟨h.good.fine.consumed, h.good.fine.window⟩, h.good.credit, h.good.judged, h.good.room, h.good.allowed⟩, h.bytes⟩

/-- A request that was sent. -/
theorem send_ok (h : l.send q = (.ok (), l')) : l'.sent = l.sent ++ [q] ∧ l'.upload = l.upload ∧
    l'.noticed = l.noticed ∧ l'.broken = l.broken ∧ (∀ c, l.Framed c → l'.Framed c) := by
  unfold Live.send at h
  split at h
  next c' hrun =>
    cases h
    refine ⟨rfl, rfl, rfl, rfl, fun c hframed => ?_⟩
    have hspec := send_spec hframed.good q
    unfold wp at hspec
    rw [hrun] at hspec
    refine ⟨hspec.1, hspec.2.trans ?_⟩
    rw [hframed.bytes, List.flatMap_append, List.append_assoc]
    rw [List.flatMap_cons, List.flatMap_nil, List.append_nil]
  · cases h

/-- A request that was not. -/
theorem send_error (h : l.send q = (.error e, l')) : l'.sent = l.sent ∧ l'.upload = l.upload ∧
    l'.noticed = l.noticed ∧ l'.broken = l.broken := by
  unfold Live.send at h
  split at h
  · cases h
  · cases h
    exact ⟨rfl, rfl, rfl, rfl⟩

theorem reply_any {r : Except Channel.Error Bytes} (h : l.reply = (r, l')) : l'.sent = l.sent ∧ l'.upload = l.upload ∧
    l'.noticed = l.noticed ∧ l'.broken = l.broken ∧ (∀ c, l.Framed c → l'.Framed c) := by
  unfold Live.reply at h
  cases hrun : Sftp.reply.run l.chan with
  | mk r' c' =>
    rw [hrun] at h
    cases h
    refine ⟨rfl, rfl, rfl, rfl, fun c hframed => ?_⟩
    have hspec := reply_spec hframed.good
    unfold wp at hspec
    rw [hrun] at hspec
    cases r with
    | ok _ => exact ⟨hspec.1, hspec.2.trans hframed.bytes⟩
    | error _ => exact ⟨hspec.1, hspec.2.trans hframed.bytes⟩

/-- What is abandoned on a channel that works is closed and removed. -/
theorem abandon_removes (hframed : l.Framed c) (hworks : (l.abandon handle remote).broken = false) :
    (l.abandon handle remote).Removed handle remote c := by
  revert hworks
  unfold Live.abandon
  cases hclose : (l.watching []).send (.close l.upload.window.nextId handle) with
  | mk closed l₁ =>
    dsimp only
    cases hremove : (l₁.expect closed).send (.remove (l₁.upload.window.nextId + 1) remote) with
    | mk removed l₂ =>
      cases removed with
      | error e =>
        intro hworks
        cases hworks
      | ok _ =>
        dsimp only
        obtain ⟨hsent₂, _, _, hbroken₂, hframed₂⟩ := send_ok hremove
        have hlast : ∀ l₃ : Live, l₃.sent = l₂.sent → l₃.broken = l₂.broken → (l₂.Framed c → l₃.Framed c) →
            l₃.broken = false → l₃.Removed handle remote c := by
          intro l₃ hsent hbroken hframed₃ hworks₃
          cases closed with
          | error e =>
            rw [hbroken, hbroken₂] at hworks₃
            cases hworks₃
          | ok _ =>
            obtain ⟨hsent₁, _, _, _, hframed₁⟩ := send_ok hclose
            have hall : l₃.sent = l.sent ++ [.close l.upload.window.nextId handle] ++
                [.remove (l₁.upload.window.nextId + 1) remote] := by
              rw [hsent, hsent₂, Live.expect, hsent₁, Live.watching]
            refine ⟨⟨l.sent, _, _, by rw [hall, List.append_assoc]; rfl⟩, ?_⟩
            exact (hframed₃ (hframed₂ c (hframed₁ c (framed_watching hframed [])))).bytes
        cases hreply : l₂.reply with
        | mk r l₃ =>
          obtain ⟨hsent₃, _, _, hbroken₃, hframed₃⟩ := reply_any hreply
          cases r with
          | error e => exact hlast l₃ hsent₃ hbroken₃ (hframed₃ c)
          | ok _ =>
            dsimp only
            cases hsecond : l₃.reply with
            | mk r' l₄ =>
              obtain ⟨hsent₄, _, _, hbroken₄, hframed₄⟩ := reply_any hsecond
              exact hlast l₄ (hsent₄.trans hsent₃) (hbroken₄.trans hbroken₃) (hframed₄ c ∘ hframed₃ c)

theorem heed_keeps {α : Type} (r : Except Channel.Error α) : (l.heed r).sent = l.sent ∧ (l.heed r).chan = l.chan ∧
    (l.heed r).upload = l.upload := by
  cases r with
  | ok _ => exact ⟨rfl, rfl, rfl⟩
  | error e =>
    rw [Live.heed]
    split
    · exact ⟨rfl, rfl, rfl⟩
    · exact ⟨rfl, rfl, rfl⟩

/-! ### What a pass does -/

/-- What a pass has sent behind the loop, or when it fills the window. -/
theorem observe_sends {t : Turn} (h : l.observe handle remote p = (t, l'))
    (hwhere : l.upload.drained = true ∨ (p.raised = false ∧ l.upload.filling = true)) :
    l'.sent = l.sent ∨ ∃ q, l'.sent = l.sent ++ [q] ∧ ∀ id, q ≠ .remove id remote := by
  unfold Live.observe at h
  split at h
  · cases hclose : (l.watching p.looks).send (.close l.upload.window.nextId handle) with
    | mk closed l₁ =>
      rw [hclose] at h
      cases closed with
      | error e =>
        cases h
        exact .inl ((heed_keeps _).1.trans (send_error hclose).1)
      | ok _ =>
        cases hreply : l₁.reply with
        | mk r l₂ =>
          dsimp only at h
          rw [hreply] at h
          cases h
          refine .inr ⟨_, (heed_keeps _).1.trans ((reply_any hreply).1.trans (send_ok hclose).1), fun id heq => ?_⟩
          cases heq
  next hdrained =>
  obtain ⟨hraised, hfilling⟩ := hwhere.resolve_left hdrained
  rw [hraised, if_neg Bool.false_ne_true, hfilling, if_pos rfl] at h
  split at h
  · cases h
    exact .inl rfl
  · cases h
    exact .inl rfl
  · next b bs hle hread =>
    cases hwrite : (l.watching p.looks).send (.write l.upload.window.nextId handle l.upload.offset (b :: bs)) with
    | mk r l₁ =>
      rw [hwrite] at h
      cases h
      cases r with
      | error e => exact .inl ((heed_keeps _).1.trans (send_error hwrite).1)
      | ok _ =>
        refine .inr ⟨_, (heed_keeps _).1.trans (send_ok hwrite).1, fun id heq => ?_⟩
        cases heq

/-- A pass that finds the flag raised when it begins or while it waits abandons the upload. -/
theorem observe_notices {t : Turn} (hframed : l.Framed c) (h : l.observe handle remote p = (t, l'))
    (hdrained : l.upload.drained = false) (hwhere : p.raised = true ∨ l.upload.filling = false) :
    (∃ l₁ : Live, l₁.Framed c ∧ l' = l₁.abandon handle remote) ∨ (p.raised = false ∧ l'.noticed = l.noticed) := by
  unfold Live.observe at h
  rw [hdrained, if_neg Bool.false_ne_true] at h
  split at h
  · cases h
    exact .inl ⟨{ l with noticed := true }, framed_congr hframed rfl rfl, rfl⟩
  next hraised =>
  rw [hwhere.resolve_left hraised, if_neg Bool.false_ne_true] at h
  cases hreply : (l.watching p.looks).reply with
  | mk r l₁ =>
    obtain ⟨_, _, hnoticed, _, hkeeps⟩ := reply_any hreply
    have hframed₁ := hkeeps c (framed_watching hframed p.looks)
    rw [hreply] at h
    cases r with
    | error e =>
      dsimp only at h
      split at h
      · cases h
        obtain ⟨hsent, hchan, _⟩ := @heed_keeps l₁ Unit (.error e)
        exact .inl ⟨{ @Live.heed Unit l₁ (.error e) with noticed := true }, framed_congr hframed₁ hchan hsent, rfl⟩
      next hcalm =>
        cases h
        refine .inr ⟨Bool.eq_false_iff.mpr hraised, ?_⟩
        rw [Live.heed, if_neg fun he => hcalm (.inl he)]
        exact hnoticed
    | ok packet =>
      dsimp only at h
      split at h
      · cases h
        exact .inr ⟨Bool.eq_false_iff.mpr hraised, hnoticed⟩
      split at h
      · cases h
        exact .inl ⟨{ l₁ with noticed := true }, framed_congr hframed₁ rfl rfl, rfl⟩
      · cases h
        exact .inr ⟨Bool.eq_false_iff.mpr hraised, hnoticed⟩

/-- What a pass of the upload that goes on was given. -/
theorem step_given {s s' : Upload} {t : Turn} (h : s.step handle remote t = .running s') :
    s.drained = false ∧ t.cancelled = false ∧
      ((s.filling = true ∧ ∃ chunk : Chunk, t.read = .ok chunk ∧ (chunk.val = [] ∨ t.sent = .ok ())) ∨
        (s.filling = false ∧ ∃ packet id, t.reply = .ok packet ∧ statusOk packet none "write" = .ok id)) := by
  unfold Upload.step at h
  split at h
  · unfold Upload.finish at h
    split at h
    · cases h
    split at h
    · cases h
    split at h <;> cases h
  next hdrained =>
  split at h
  · cases h
  next hcancelled =>
  refine ⟨Bool.eq_false_iff.mpr hdrained, Bool.eq_false_iff.mpr hcancelled, ?_⟩
  split at h
  next hfilling =>
    refine .inl ⟨hfilling, ?_⟩
    unfold Upload.fill at h
    split at h
    · cases h
    next hread => exact ⟨_, hread, .inl rfl⟩
    next hread =>
      split at h
      · cases h
      next hsent => exact ⟨_, hread, .inr hsent⟩
  next hfilling =>
    refine .inr ⟨Bool.eq_false_iff.mpr hfilling, ?_⟩
    unfold Upload.collect at h
    dsimp only at h
    split at h
    · cases h
    next id hid =>
      split at hid
      · cases hid
      next packet hpacket => exact ⟨packet, id, hpacket, hid⟩

/-- What the upload goes on with. -/
def Onward (c : State) (l l' : Live) : Prop :=
  l'.noticed = l.noticed ∧ l'.Framed c ∧ (l'.sent = l.sent ∨ ∃ id h offset data, l'.sent = l.sent ++ [.write id h offset data])

theorem observe_fills {t : Turn} (h : l.observe handle remote p = (t, l')) (hframed : l.Framed c)
    (hdrained : l.upload.drained = false) (hraised : p.raised = false) (hfilling : l.upload.filling = true)
    (hgiven : ∃ chunk : Chunk, t.read = .ok chunk ∧ (chunk.val = [] ∨ t.sent = .ok ())) : Onward c l l' := by
  obtain ⟨chunk, hread, hsent⟩ := hgiven
  unfold Live.observe at h
  rw [hdrained, if_neg Bool.false_ne_true, hraised, if_neg Bool.false_ne_true, hfilling, if_pos rfl] at h
  split at h
  · cases h
    cases hread
  · cases h
    exact ⟨rfl, hframed, .inl rfl⟩
  next b bs hle _ =>
    cases hwrite : (l.watching p.looks).send (.write l.upload.window.nextId handle l.upload.offset (b :: bs)) with
    | mk r l₁ =>
      rw [hwrite] at h
      cases h
      cases r with
      | error e =>
        cases hread
        rcases hsent with hempty | hfine
        · cases hempty
        · cases hfine
      | ok _ =>
        obtain ⟨hone, _, hnoticed, _, hkeeps⟩ := send_ok hwrite
        exact ⟨hnoticed, hkeeps c (framed_watching hframed p.looks), .inr ⟨_, _, _, _, hone⟩⟩

theorem observe_collects {t : Turn} (h : l.observe handle remote p = (t, l')) (hframed : l.Framed c)
    (hdrained : l.upload.drained = false) (hraised : p.raised = false) (hfilling : l.upload.filling = false)
    (hgiven : ∃ packet id, t.reply = .ok packet ∧ statusOk packet none "write" = .ok id) : Onward c l l' := by
  obtain ⟨packet, id, hanswer, hstatus⟩ := hgiven
  unfold Live.observe at h
  rw [hdrained, if_neg Bool.false_ne_true, hraised, if_neg Bool.false_ne_true, hfilling, if_neg Bool.false_ne_true] at h
  cases hreply : (l.watching p.looks).reply with
  | mk r l₁ =>
    obtain ⟨hsame, _, hnoticed, _, hkeeps⟩ := reply_any hreply
    rw [hreply] at h
    cases r with
    | error e =>
      dsimp only at h
      split at h
      · cases h
        cases hanswer
      · cases h
        cases hanswer
    | ok packet' =>
      dsimp only at h
      split at h
      · cases h
        exact ⟨hnoticed, hkeeps c (framed_watching hframed p.looks), .inl hsame⟩
      next hfailed =>
        have hpacket : packet' = packet := by
          split at h
          · cases h
            exact Except.ok.inj hanswer
          · cases h
            exact Except.ok.inj hanswer
        rw [hpacket, hstatus] at hfailed
        cases hfailed

/-- A pass that goes on keeps what holds. -/
theorem step_inv (hinv : l.Inv c) (h : l.step handle remote p = .running l') : l'.Inv c := by
  unfold Live.step at h
  cases hobs : l.observe handle remote p with
  | mk t l₁ =>
    rw [hobs] at h
    split at h
    next s hstep =>
      cases h
      obtain ⟨hdrained, hcancelled, hgiven⟩ := step_given hstep
      have hraised : p.raised = false := by
        cases hraised : p.raised with
        | false => rfl
        | true =>
          unfold Live.observe at hobs
          rw [hdrained, if_neg Bool.false_ne_true, hraised, if_pos rfl] at hobs
          cases hobs
          cases hcancelled
      have honward : Onward c l l₁ := by
        rcases hgiven with ⟨hfilling, hfill⟩ | ⟨hfilling, hcollect⟩
        · exact observe_fills hobs hinv.framed hdrained hraised hfilling hfill
        · exact observe_collects hobs hinv.framed hdrained hraised hfilling hcollect
      obtain ⟨hnoticed, hframed, hsent⟩ := honward
      refine ⟨hnoticed.trans hinv.quiet, ?_, ⟨hframed.good, hframed.bytes⟩⟩
      intro q hq
      rcases hsent with hsame | ⟨id, a, offset, data, hone⟩
      · exact hinv.loading q (hsame ▸ hq)
      · rcases List.mem_append.mp (hone ▸ hq : q ∈ l.sent ++ [.write id a offset data]) with hold | hnew
        · exact hinv.loading q hold
        · exact ⟨_, _, _, _, List.mem_singleton.mp hnew⟩
    · cases h

theorem run_inv {remote : Bytes} (hgood : Good c) {watches : List Watch}
    (h : drive (Live.step handle remote) (.start remote c) watches = .running m) : m.Inv c := by
  refine drive_invariant (fun _ _ _ hinv hs => step_inv hinv hs) ⟨rfl, fun q hq => ?_, hgood, (List.append_nil _).symm⟩ h
  cases hq

end AbandonLemmas

open AbandonLemmas

variable (os : List Channel.Op) (localId : UInt32) (keepOut keepErr : Bool) (limit : Nat)
  (arrivals : List Channel.Arrival) (takes : List (Except String Unit)) (late cancels : List Bool)

/-- On a channel after whatever uses, while no operation of the upload fails but by the flag: an upload that has
found the flag raised has closed its file and removed it exactly if the flag was raised when a pass of the loop
began, or the pass was one that waits for a reply. -/
theorem removed_iff (handle remote : Bytes) (watches : List Watch) (p : Watch) (m l : Live) (r : Except Error Unit)
    (hrun : drive (Live.step handle remote) (.start remote
      ((Channel.ops os).run (.start localId keepOut keepErr limit arrivals takes late cancels)).2) watches = .running m)
    (hlast : m.step handle remote p = .done l r) (hworks : l.broken = false) (hnoticed : l.noticed = true) :
    l.Removed handle remote ((Channel.ops os).run (.start localId keepOut keepErr limit arrivals takes late cancels)).2 ↔
      m.upload.drained = false ∧ (p.raised = true ∨ m.upload.filling = false) := by
  have hstart := Channel.CreditLemmas.good_start localId keepOut keepErr limit arrivals takes late cancels
  obtain ⟨results, c, hops, hgood, _⟩ := run_of_wp (Channel.CreditLemmas.ops_spec os hstart)
  rw [hops] at hrun ⊢
  have hinv := run_inv hgood hrun
  unfold Live.step at hlast
  cases hobs : m.observe handle remote p with
  | mk t l₁ =>
    rw [hobs] at hlast
    split at hlast
    · cases hlast
    next s r' _ =>
      cases hlast
      constructor
      · intro hremoved
        by_contra hnowhere
        have hwhere : m.upload.drained = true ∨ (p.raised = false ∧ m.upload.filling = true) := by
          cases hdrained : m.upload.drained with
          | true => exact .inl rfl
          | false =>
            have hneither := not_or.mp fun hor => hnowhere ⟨hdrained, hor⟩
            exact .inr ⟨Bool.eq_false_iff.mpr hneither.1, Bool.of_not_eq_false hneither.2⟩
        obtain ⟨before, a, b, heq⟩ := hremoved.requests
        have hlast : Request.remove b remote ∈ l₁.sent := by
          rw [show l₁.sent = before ++ [.close a handle, .remove b remote] from heq]
          exact List.mem_append_right _ (List.mem_cons_of_mem _ List.mem_cons_self)
        have hold : Request.remove b remote ∉ m.sent := by
          intro hmem
          obtain ⟨_, _, _, _, hwrite⟩ := hinv.loading _ hmem
          cases hwrite
        rcases observe_sends hobs hwhere with hsame | ⟨q, hone, hother⟩
        · exact hold (hsame ▸ hlast)
        · rcases List.mem_append.mp (hone ▸ hlast : Request.remove b remote ∈ m.sent ++ [q]) with hmem | hnew
          · exact hold hmem
          · exact hother b (List.mem_singleton.mp hnew).symm
      · rintro ⟨hdrained, hwhere⟩
        rcases observe_notices hinv.framed hobs hdrained hwhere with ⟨l₂, hframed₂, rfl⟩ | ⟨_, hsame⟩
        · have hremoved := abandon_removes hframed₂ hworks
          exact ⟨hremoved.requests, hremoved.bytes⟩
        · exact absurd (hnoticed.symm.trans (hsame.trans hinv.quiet)) (by decide)

/-- A channel that the server has opened, with room for what follows. -/
def roomy : State :=
  ((Channel.ops [.open_]).run (.start 0 true false maxPacket
    [.packet (Channel.Msg.openConfirmation :: (putU32 0 ++ putU32 7 ++ putU32 1000 ++ putU32 32768))] [] [false] [])).2

/-- A pass that begins with the flag raised. -/
def raisedFirst : Watch := ⟨.ok ⟨[7], byte_fits⟩, true, [], true⟩

/-- A pass that reads a byte, with a flag that goes up between the length of the WRITE and its body. -/
def raisedHalfway : Watch := ⟨.ok ⟨[7], byte_fits⟩, false, [false, true], true⟩

/-- An upload that is cancelled before it reads anything is removed. -/
theorem cancelled_at_once :
    ∃ l r, (Live.start [2] roomy).step [1] [2] raisedFirst = .done l r ∧ l.Removed [1] [2] roomy := by
  have hdone : ((Live.start [2] roomy).step [1] [2] raisedFirst).result? ≠ none := by decide +kernel
  have hworks : ((Live.start [2] roomy).step [1] [2] raisedFirst).state.broken = false := by decide +kernel
  have hnoticed : ((Live.start [2] roomy).step [1] [2] raisedFirst).state.noticed = true := by decide +kernel
  cases hstep : (Live.start [2] roomy).step [1] [2] raisedFirst with
  | running l => exact absurd (by rw [hstep]; rfl) hdone
  | done l r =>
    rw [hstep] at hworks hnoticed
    refine ⟨l, r, rfl, ?_⟩
    exact (removed_iff [.open_] 0 true false maxPacket _ [] [false] [] [1] [2] [] _ _ l r rfl hstep hworks hnoticed).mpr
      ⟨rfl, .inl rfl⟩

/-- An upload that is over with its file open and half a WRITE on the channel, which still works. -/
theorem cancelled_in_send :
    ∃ l, (Live.start [2] roomy).step [1] [2] raisedHalfway = .done l (.error (.outside "operation cancelled")) ∧
      l.broken = false ∧ l.sent = [] ∧ ¬ l.Removed [1] [2] roomy := by
  have hresult : ((Live.start [2] roomy).step [1] [2] raisedHalfway).result? =
      some (.error (.outside "operation cancelled")) := by decide +kernel
  have hworks : ((Live.start [2] roomy).step [1] [2] raisedHalfway).state.broken = false := by decide +kernel
  have hnothing : ((Live.start [2] roomy).step [1] [2] raisedHalfway).state.sent = [] := by decide +kernel
  cases hstep : (Live.start [2] roomy).step [1] [2] raisedHalfway with
  | running l =>
    rw [hstep] at hresult
    cases hresult
  | done l r =>
    rw [hstep] at hresult hworks hnothing
    obtain rfl := Option.some.inj hresult
    refine ⟨l, rfl, hworks, hnothing, fun hremoved => ?_⟩
    obtain ⟨before, a, b, heq⟩ := hremoved.requests
    rw [show l.sent = [] from hnothing] at heq
    exact absurd heq.symm (List.append_ne_nil_of_right_ne_nil _ (List.cons_ne_nil _ _))

end OmtClient.Ssh.Sftp
