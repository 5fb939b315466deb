import OmtClient.Ssh.Channel

/-!
# Flow control

What the two ends of a channel may send each other (RFC 4254 section 5.2), told by what happened on
it, against what the client keeps count of. `dispatch_flow` says once what a packet of the server
does to the counters; everything else follows from it.

1. `dispatch_flow`: one packet of the server.
2. `window_exact`: what the client takes.
3. `flow_exact`: what the client sends.
-/

namespace OmtClient.Ssh.Channel

open OmtClient.Lib Prog Wire

/-! ## What packets say -/

/-- The kind of a message to a channel and what stands behind its recipient. -/
def addressed (localId : UInt32) : Bytes → Option (Byte × Bytes)
  | [] => none
  | kind :: rest => (u32 rest).bind fun (recipient, body) => if recipient = localId then some (kind, body) else none

/-- How much data a message brings. -/
def bodyData (kind : Byte) (body : Bytes) : Nat :=
  if kind = Msg.data then (string body).elim 0 fun (data, _) => data.length
  else if kind = Msg.extendedData then ((u32 body).bind fun (_, r) => string r).elim 0 fun (data, _) => data.length
  else 0

def dataOf (localId : UInt32) (payload : Bytes) : Nat := (addressed localId payload).elim 0 fun (kind, body) => bodyData kind body

/-- How much the server announces that it takes. -/
def bodyAnnounced (kind : Byte) (body : Bytes) : Nat :=
  if kind = Msg.openConfirmation then ((u32 body).bind fun (_, r) => u32 r).elim 0 fun (window, _) => window.toNat
  else if kind = Msg.windowAdjust then (u32 body).elim 0 fun (add, _) => add.toNat
  else 0

def announcedOf (localId : UInt32) (payload : Bytes) : Nat :=
  (addressed localId payload).elim 0 fun (kind, body) => bodyAnnounced kind body

/-- How much a packet of the client gives back to the window. -/
def adjustOf (packet : Bytes) : Nat :=
  if packet.head? = some Msg.windowAdjust then (u32 (packet.drop 5)).elim 0 fun (n, _) => n.toNat else 0

/-- The data in a packet of the client. -/
def payloadOf (packet : Bytes) : Bytes :=
  if packet.head? = some Msg.data then (string (packet.drop 5)).elim [] Prod.fst else []

/-! ## What happened -/

/-- The data that the server has sent. -/
def received (localId : UInt32) (log : List Event) : Nat :=
  (log.map fun e => match e with
    | .got payload => dataOf localId payload
    | _ => 0).sum

/-- What the client has given back to the window. -/
def granted (log : List Event) : Nat :=
  (log.map fun e => match e with
    | .handed packet _ _ => adjustOf packet
    | _ => 0).sum

/-- What the server has announced that it takes. -/
def announced (localId : UInt32) (log : List Event) : Nat :=
  (log.map fun e => match e with
    | .got payload => announcedOf localId payload
    | _ => 0).sum

/-- The data that the client has handed to the transport. -/
def written (log : List Event) : Bytes :=
  log.flatMap fun e => match e with
    | .handed packet _ _ => payloadOf packet
    | _ => []

/-- How much data the transport has taken. -/
def sentData (log : List Event) : Nat :=
  (log.map fun e => match e with
    | .handed packet true _ => (payloadOf packet).length
    | _ => 0).sum

/-- `P` holds of every event, with what came before and behind it. -/
def Every (P : List Event → Event → List Event → Prop) (log : List Event) : Prop :=
  ∀ pre e rest, log = pre ++ e :: rest → P pre e rest

/-- Of the window: data beyond it is reported at once and nothing else is, and what is given back
is what was taken since. -/
def Judged (i : UInt32) (pre : List Event) : Event → List Event → Prop
  | .got payload, rest => .overran ∉ pre → localWindow + granted pre < received i pre + dataOf i payload →
    rest.head? = some .overran
  | .overran, _ => .overran ∉ pre → localWindow + granted pre < received i pre
  | .handed packet _ _, _ => .overran ∉ pre → packet.head? = some Msg.windowAdjust →
    granted pre + adjustOf packet = received i pre

/-- Of a packet of data: it is within what the server announced and within the largest packet. -/
def Allowed (i : UInt32) (pre : List Event) : Event → List Event → Prop
  | .handed packet _ largest, _ => payloadOf packet ≠ [] → sentData pre + (payloadOf packet).length ≤ announced i pre ∧
    (payloadOf packet).length ≤ min largest.toNat localMaxPacket
  | _, _ => True

/-- An error that the code can report. -/
def Sound (e : Error) : Prop := e ≠ .panic ∧ e ≠ .stuck

namespace CreditLemmas

variable {c c' : State} {payload packet : Bytes} {l l' : List Event}

theorem received_append (i : UInt32) : received i (l ++ l') = received i l + received i l' := by
  rw [received, List.map_append, List.sum_append]
  rfl

theorem granted_append : granted (l ++ l') = granted l + granted l' := by
  rw [granted, List.map_append, List.sum_append]
  rfl

theorem announced_append (i : UInt32) : announced i (l ++ l') = announced i l + announced i l' := by
  rw [announced, List.map_append, List.sum_append]
  rfl

theorem written_append : written (l ++ l') = written l ++ written l' := List.flatMap_append

theorem sentData_append : sentData (l ++ l') = sentData l + sentData l' := by
  rw [sentData, List.map_append, List.sum_append]
  rfl

/-- A packet that neither brings data nor gives back window. -/
def Plain (e : Event) : Prop :=
  ∃ packet taken largest, e = .handed packet taken largest ∧ packet.head? ≠ some Msg.windowAdjust ∧ payloadOf packet = []

/-- What the `n` bytes of a message do to the window of the client. -/
inductive Inward (c : State) (n : Nat) (c' : State) : Prop
  | overran (hover : localWindow - c.consumed < n) (hlog : c'.log = c.log ++ [.overran]) (hconsumed : c'.consumed = c.consumed)
  | kept {hs : List Event} (hroom : c.consumed + n ≤ localWindow) (hlog : c'.log = c.log ++ hs)
    (hplain : ∀ e ∈ hs, Plain e) (hconsumed : c'.consumed = c.consumed + n)
  | adjusted {packet : Bytes} {taken : Bool} {largest : UInt32} (hroom : c.consumed + n ≤ localWindow)
    (hadjust : adjustOf packet = c.consumed + n) (hdata : payloadOf packet = [])
    (hlog : c'.log = c.log ++ [.handed packet taken largest]) (hconsumed : c'.consumed = 0)

/-- What a message of `n` bytes that announces `add` bytes does to the counters. -/
structure Flow (c : State) (n add : Nat) (c' : State) : Prop where
  same : (c'.localId, c'.late) = (c.localId, c.late)
  fits : c'.remoteWindow < 2 ^ 32
  window : c'.remoteWindow ≤ c.remoteWindow + add
  inward : Inward c n c'

/-- A program that handles such a message: it panics nowhere, and reports the server exactly when
the message does not fit into the window. -/
def Handles {α : Type} (c : State) (n add : Nat) (m : Chan α) : Prop :=
  wp m (fun _ c' => Flow c n add c' ∧ ¬ localWindow - c.consumed < n)
    (fun e c' => Flow c n add c' ∧ Sound e ∧ (e = .overran ↔ localWindow - c.consumed < n)) c

/-- The counters of the channel are within their bounds. -/
structure Fine (c : State) : Prop where
  consumed : c.consumed ≤ localWindow
  window : c.remoteWindow < 2 ^ 32

/-- What the transport does with a packet: it is in the log. -/
theorem send_spec (packet : Bytes) : wp (send packet)
    (fun _ c' => ∃ takes, c' = { c with takes, log := c.log ++ [.handed packet true c.remoteMaxPacket] })
    (fun e c' => (∃ text, e = .transport text) ∧
      ∃ takes, c' = { c with takes, log := c.log ++ [.handed packet false c.remoteMaxPacket] }) c := by
  rw [send, wp_bind, wp_get]
  split
  · next text rest _ =>
    rw [wp_bind, wp_modify, wp_raise]
    exact ⟨⟨text, rfl⟩, rest, rfl⟩
  · next rest _ =>
    rw [wp_modify]
    exact ⟨rest, rfl⟩
  · rw [wp_modify]
    exact ⟨c.takes, rfl⟩

/-- A message that only announces. -/
theorem flow_window {add : Nat} (hfine : Fine c) (hsame : (c'.localId, c'.late) = (c.localId, c.late)) (hfits : c'.remoteWindow < 2 ^ 32)
    (hwindow : c'.remoteWindow ≤ c.remoteWindow + add) (hlog : c'.log = c.log) (hconsumed : c'.consumed = c.consumed) :
    Flow c 0 add c' :=
  ⟨hsame, hfits, hwindow, .kept hfine.consumed (by rw [hlog, List.append_nil]) (fun _ h => by cases h) hconsumed⟩

/-- A message without data that leaves the log alone. -/
theorem flow_quiet {add : Nat} (hfine : Fine c) (hsame : (c'.localId, c'.late) = (c.localId, c.late)) (hwindow : c'.remoteWindow = c.remoteWindow)
    (hlog : c'.log = c.log) (hconsumed : c'.consumed = c.consumed) : Flow c 0 add c' :=
  flow_window hfine hsame (hwindow ▸ hfine.window) (hwindow ▸ Nat.le_add_right _ _) hlog hconsumed

/-- A message without data that is answered. -/
theorem handles_send {add : Nat} (hfine : Fine c) (hsame : (c'.localId, c'.late) = (c.localId, c.late))
    (hwindow : c'.remoteWindow = c.remoteWindow) (hlog : c'.log = c.log) (hconsumed : c'.consumed = c.consumed)
    (hadjust : packet.head? ≠ some Msg.windowAdjust) (hdata : payloadOf packet = []) :
    wp (send packet) (fun _ c'' => Flow c 0 add c'' ∧ ¬ localWindow - c.consumed < 0)
      (fun e c'' => Flow c 0 add c'' ∧ Sound e ∧ (e = .overran ↔ localWindow - c.consumed < 0)) c' := by
  have hflow (takes : List (Except String Unit)) (taken : Bool) :
      Flow c 0 add { c' with takes, log := c'.log ++ [.handed packet taken c'.remoteMaxPacket] } := by
    have hplain : ∀ e ∈ [Event.handed packet taken c'.remoteMaxPacket], Plain e := by
      intro e he
      exact ⟨packet, taken, _, List.mem_singleton.mp he, hadjust, hdata⟩
    exact ⟨hsame, hwindow ▸ hfine.window, hwindow ▸ Nat.le_add_right _ _, .kept hfine.consumed (by rw [hlog]) hplain hconsumed⟩
  refine wp_mono (send_spec packet) ?_ ?_
  · rintro _ _ ⟨takes, rfl⟩
    exact ⟨hflow takes true, Nat.not_lt_zero _⟩
  · rintro _ _ ⟨⟨text, rfl⟩, takes, rfl⟩
    exact ⟨hflow takes false, by simp [Sound], by simp⟩

theorem adjustOf_adjust (remoteId : UInt32) {n : Nat} (h : n ≤ localWindow) :
    adjustOf (Msg.windowAdjust :: (putU32 remoteId ++ putU32 (UInt32.ofNat n))) = n ∧
      payloadOf (Msg.windowAdjust :: (putU32 remoteId ++ putU32 (UInt32.ofNat n))) = [] := by
  have hdrop : (Msg.windowAdjust :: (putU32 remoteId ++ putU32 (UInt32.ofNat n))).drop 5 = putU32 (UInt32.ofNat n) := rfl
  have hread := u32_putU32 (UInt32.ofNat n) []
  rw [List.append_nil] at hread
  refine ⟨?_, rfl⟩
  rw [adjustOf, if_pos (show List.head? _ = some Msg.windowAdjust from rfl), hdrop, hread]
  exact UInt32.toNat_ofNat_of_lt' (lt_of_le_of_lt h (by decide))

/-- What is taken is given back once it is half the window. -/
theorem sendWindowAdjust_spec {n : Nat} (hfine : Fine c) (hroom : c.consumed + n ≤ localWindow)
    (hsame : (c'.localId, c'.late) = (c.localId, c.late)) (hwindow : c'.remoteWindow = c.remoteWindow) (hlog : c'.log = c.log)
    (hconsumed : c'.consumed = c.consumed + n) :
    wp sendWindowAdjust (fun _ c'' => Flow c n 0 c'' ∧ ¬ localWindow - c.consumed < n)
      (fun e c'' => Flow c n 0 c'' ∧ Sound e ∧ (e = .overran ↔ localWindow - c.consumed < n)) c' := by
  have hnot : ¬ localWindow - c.consumed < n := by omega
  rw [sendWindowAdjust, wp_bind, wp_get, wp_ite]
  refine ⟨fun _ => ?_, fun _ => ?_⟩
  · rw [wp_pure]
    exact ⟨⟨hsame, hwindow ▸ hfine.window, hwindow ▸ Nat.le_add_right _ _,
      .kept hroom (by rw [hlog, List.append_nil]) (fun _ h => by cases h) hconsumed⟩, hnot⟩
  · rw [wp_bind, wp_modify]
    obtain ⟨hadjust, hdata⟩ := adjustOf_adjust c'.remoteId (hconsumed ▸ hroom)
    have hflow (takes : List (Except String Unit)) (taken : Bool) : Flow c n 0 { c' with
        consumed := 0, takes
        log := c'.log ++ [.handed (Msg.windowAdjust :: (putU32 c'.remoteId ++ putU32 (UInt32.ofNat c'.consumed))) taken
          c'.remoteMaxPacket] } :=
      ⟨hsame, hwindow ▸ hfine.window, hwindow ▸ Nat.le_add_right _ _,
        .adjusted hroom (hadjust.trans hconsumed) hdata (by rw [hlog]) rfl⟩
    refine wp_mono (send_spec _) ?_ ?_
    · rintro _ _ ⟨takes, rfl⟩
      exact ⟨hflow takes true, hnot⟩
    · rintro _ _ ⟨⟨text, rfl⟩, takes, rfl⟩
      exact ⟨hflow takes false, by simp [Sound], by simp [hnot]⟩

/-- Collecting is no business of the window. -/
theorem collect_spec (toErr : Option Bool) (data : Bytes) : wp (collect toErr data)
    (fun _ c' => (c'.localId, c'.late) = (c.localId, c.late) ∧ c'.remoteWindow = c.remoteWindow ∧ c'.log = c.log ∧ c'.consumed = c.consumed)
    (fun e c' => e = .tooMuch ∧ c' = c) c := by
  rw [collect, wp_bind, wp_get]
  cases toErr with
  | none =>
    rw [wp_pure]
    exact ⟨rfl, rfl, rfl, rfl⟩
  | some isErr =>
    rw [wp_ite]
    refine ⟨fun _ => ?_, fun _ => ?_⟩
    · rw [wp_ite]
      refine ⟨fun _ => ?_, fun _ => ?_⟩
      · rw [wp_raise]
        exact ⟨rfl, rfl⟩
      · rw [wp_modify]
        cases isErr <;> exact ⟨rfl, rfl, rfl, rfl⟩
    · rw [wp_pure]
      exact ⟨rfl, rfl, rfl, rfl⟩

/-- Data is counted, kept when asked, and given back. -/
theorem sink_spec (hfine : Fine c) (toErr : Option Bool) (data : Bytes) : Handles c data.length 0 (sink toErr data) := by
  have hconsumed := hfine.consumed
  have hsmall : localWindow < 2 ^ 31 := by decide
  rw [Handles, sink, wp_bind, wp_get, wp_bind, subAt, wp_orRaise]
  refine ⟨?_, fun h => ?_⟩
  · intro room hroom
    rw [if_pos hconsumed] at hroom
    obtain rfl := Option.some.inj hroom
    rw [wp_ite]
    refine ⟨fun hover => ?_, fun hover => ?_⟩
    · rw [wp_bind, wp_modify, wp_raise]
      exact ⟨⟨rfl, hfine.window, Nat.le_add_right _ _, .overran hover rfl rfl⟩, by simp [Sound], by simp [hover]⟩
    · have hroom : c.consumed + data.length ≤ localWindow := by omega
      have hsize : data.length < UInt32.size := lt_of_le_of_lt ((Nat.le_add_left _ _).trans hroom) (by decide)
      rw [toNat_lengthU32 hsize, wp_bind, addAt, wp_orRaise]
      refine ⟨?_, fun h => ?_⟩
      · intro n hn
        rw [if_pos (by omega)] at hn
        obtain rfl := Option.some.inj hn
        rw [wp_bind, wp_modify, wp_bind]
        refine wp_mono (collect_spec toErr data) ?_ ?_
        · rintro _ c' ⟨hsame, hwindow, hlog, hcount⟩
          exact sendWindowAdjust_spec hfine hroom hsame hwindow hlog hcount
        · rintro _ _ ⟨rfl, rfl⟩
          exact ⟨⟨rfl, hfine.window, Nat.le_add_right _ _, .kept hroom (List.append_nil _).symm (fun _ h => by cases h) rfl⟩,
            by simp [Sound], by simp [hover]⟩
      · rw [if_pos (by omega)] at h
        cases h
  · rw [if_pos hconsumed] at h
    cases h

/-- A reader that finds nothing is an error of the server that costs it no window. -/
theorem handles_malformed {α β : Type} {add : Nat} (hfine : Fine c) {f : α → Chan β} {r : Option α}
    (h : ∀ a, r = some a → wp (f a) (fun _ c' => Flow c 0 add c' ∧ ¬ localWindow - c.consumed < 0)
      (fun e c' => Flow c 0 add c' ∧ Sound e ∧ (e = .overran ↔ localWindow - c.consumed < 0)) c) :
    Handles c 0 add (orRaise r .malformed >>= f) := by
  rw [Handles, wp_bind, wp_orRaise]
  exact ⟨h, fun _ => ⟨flow_quiet hfine rfl rfl rfl rfl, by simp [Sound], by simp⟩⟩

theorem bodyData_other {kind : Byte} (body : Bytes) (hdata : kind ≠ Msg.data) (hext : kind ≠ Msg.extendedData) :
    bodyData kind body = 0 := by
  rw [bodyData, if_neg hdata, if_neg hext]

theorem bodyAnnounced_other {kind : Byte} (body : Bytes) (hopen : kind ≠ Msg.openConfirmation)
    (hadjust : kind ≠ Msg.windowAdjust) : bodyAnnounced kind body = 0 := by
  rw [bodyAnnounced, if_neg hopen, if_neg hadjust]

theorem confirmation_spec (hfine : Fine c) (body : Bytes) :
    Handles c 0 (bodyAnnounced Msg.openConfirmation body) (handle Msg.openConfirmation body) := by
  have hsaid : bodyAnnounced Msg.openConfirmation body =
      ((u32 body).bind fun (_, r) => u32 r).elim 0 fun (window, _) => window.toNat := rfl
  rw [handle, if_pos rfl, hsaid]
  refine handles_malformed hfine ?_
  rintro ⟨remoteId, r⟩ hbody
  rw [wp_bind, wp_modify, wp_bind, wp_orRaise]
  refine ⟨?_, fun _ => ⟨flow_quiet hfine rfl rfl rfl rfl, by simp [Sound], by simp⟩⟩
  rintro ⟨window, r'⟩ hwindow
  rw [wp_bind, wp_modify, hbody]
  show wp _ (fun _ c' => Flow c 0 ((u32 r).elim 0 fun (window, _) => window.toNat) c' ∧ _)
    (fun e c' => Flow c 0 ((u32 r).elim 0 fun (window, _) => window.toNat) c' ∧ _) _
  rw [hwindow, wp_bind, wp_orRaise]
  have hfits : window.toNat < 2 ^ 32 := window.toNat_lt
  refine ⟨fun _ _ => ?_, fun _ => ?_⟩
  · rw [wp_modify]
    exact ⟨flow_window hfine rfl hfits (Nat.le_add_left _ _) rfl rfl, Nat.not_lt_zero _⟩
  · exact ⟨flow_window hfine rfl hfits (Nat.le_add_left _ _) rfl rfl, by simp [Sound], by simp⟩

theorem adjust_spec (hfine : Fine c) (body : Bytes) :
    Handles c 0 (bodyAnnounced Msg.windowAdjust body) (handle Msg.windowAdjust body) := by
  have hsaid : bodyAnnounced Msg.windowAdjust body = (u32 body).elim 0 fun (add, _) => add.toNat := rfl
  rw [hsaid]
  refine handles_malformed hfine ?_
  rintro ⟨add, r⟩ hbody
  have hfits : add.toNat < 2 ^ 32 := add.toNat_lt
  have hwindow := hfine.window
  rw [hbody, wp_bind, wp_get, wp_bind, addAt, wp_orRaise]
  refine ⟨?_, fun h => ?_⟩
  · intro sum hsum
    rw [if_pos (by omega)] at hsum
    obtain rfl := Option.some.inj hsum
    rw [wp_modify]
    have hle : min (c.remoteWindow + add.toNat) (2 ^ 32 - 1) < 2 ^ 32 := by omega
    exact ⟨flow_window hfine rfl hle (Nat.min_le_left _ _) rfl rfl, Nat.not_lt_zero _⟩
  · rw [if_pos (by omega)] at h
    cases h

theorem data_spec (hfine : Fine c) (body : Bytes) : Handles c (bodyData Msg.data body) 0 (handle Msg.data body) := by
  have hsaid : bodyData Msg.data body = (string body).elim 0 fun (data, _) => data.length := rfl
  rw [hsaid, Handles]
  show wp (orRaise (string body) .malformed >>= fun (data, _) => sink (some false) data) _ _ _
  cases hbody : string body with
  | none => exact handles_malformed hfine (fun _ h => by cases h)
  | some p =>
    obtain ⟨data, r⟩ := p
    exact sink_spec hfine (some false) data

theorem extendedData_spec (hfine : Fine c) (body : Bytes) :
    Handles c (bodyData Msg.extendedData body) 0 (handle Msg.extendedData body) := by
  have hsaid : bodyData Msg.extendedData body =
      ((u32 body).bind fun (_, r) => string r).elim 0 fun (data, _) => data.length := rfl
  rw [hsaid, Handles]
  show wp (orRaise (u32 body) .malformed >>= fun (code, r) => orRaise (string r) .malformed >>= fun (data, _) =>
    sink (if code = 1 then some true else none) data) _ _ _
  cases hbody : u32 body with
  | none => exact handles_malformed hfine (fun _ h => by cases h)
  | some p =>
    obtain ⟨code, r⟩ := p
    rw [wp_bind, orRaise, wp_pure]
    dsimp only [Option.bind]
    cases hdata : string r with
    | none => exact handles_malformed hfine (fun _ h => by cases h)
    | some q =>
      obtain ⟨data, _⟩ := q
      exact sink_spec hfine _ data

/-- A message that is not answered and only changes flags. -/
theorem handles_flag {f : State → State} (hfine : Fine c) (hsame : ((f c).localId, (f c).late) = (c.localId, c.late))
    (hwindow : (f c).remoteWindow = c.remoteWindow) (hlog : (f c).log = c.log) (hconsumed : (f c).consumed = c.consumed) :
    Handles c 0 0 (modify f) := by
  rw [Handles, wp_modify]
  exact ⟨flow_quiet hfine hsame hwindow hlog hconsumed, Nat.not_lt_zero _⟩

theorem close_spec (hfine : Fine c) (body : Bytes) : Handles c 0 0 (handle Msg.close body) := by
  show wp (modify (fun c : State => { c with closeReceived := true }) >>= fun _ => sendClose) _ _ _
  rw [wp_bind, wp_modify, sendClose, wp_bind, wp_get, wp_ite]
  refine ⟨fun _ => ?_, fun _ => ?_⟩
  · rw [wp_pure]
    exact ⟨flow_quiet hfine rfl rfl rfl rfl, Nat.not_lt_zero _⟩
  · rw [wp_bind, wp_modify]
    exact handles_send hfine rfl rfl rfl rfl (by simp [Msg.close, Msg.windowAdjust]) rfl

theorem request_spec (hfine : Fine c) (body : Bytes) : Handles c 0 0 (handle Msg.request body) := by
  show wp (orRaise (string body) .malformed >>= fun name => orRaise (boolean name.2) .malformed >>= fun wantReply =>
    exitStatus name.1 wantReply.2 >>= fun _ => get >>= fun c : State =>
      if wantReply.1 = true then send (Msg.failure :: putU32 c.remoteId) else pure ()) _ _ _
  refine handles_malformed hfine ?_
  rintro ⟨name, r⟩ -
  refine handles_malformed hfine ?_
  rintro ⟨wantReply, r'⟩ -
  have hanswer (c' : State) (hsame : (c'.localId, c'.late) = (c.localId, c.late)) (hwindow : c'.remoteWindow = c.remoteWindow)
      (hlog : c'.log = c.log) (hconsumed : c'.consumed = c.consumed) :
      wp (get >>= fun c : State => if wantReply = true then send (Msg.failure :: putU32 c.remoteId) else pure ())
        (fun _ c' => Flow c 0 0 c' ∧ ¬ localWindow - c.consumed < 0)
        (fun e c' => Flow c 0 0 c' ∧ Sound e ∧ (e = .overran ↔ localWindow - c.consumed < 0)) c' := by
    rw [wp_bind, wp_get, wp_ite]
    refine ⟨fun _ => handles_send hfine hsame hwindow hlog hconsumed (by simp [Msg.failure, Msg.windowAdjust]) rfl, fun _ => ?_⟩
    rw [wp_pure]
    exact ⟨flow_quiet hfine hsame hwindow hlog hconsumed, Nat.not_lt_zero _⟩
  rw [wp_bind, exitStatus, wp_ite]
  refine ⟨fun _ => ?_, fun _ => hanswer c rfl rfl rfl rfl⟩
  rw [wp_bind, wp_orRaise]
  refine ⟨?_, fun _ => ⟨flow_quiet hfine rfl rfl rfl rfl, by simp [Sound], by simp⟩⟩
  rintro ⟨status, _⟩ -
  rw [wp_modify]
  exact hanswer _ rfl rfl rfl rfl

/-- What a channel message does, kind by kind. -/
theorem handle_spec (hfine : Fine c) (kind : Byte) (body : Bytes) :
    Handles c (bodyData kind body) (bodyAnnounced kind body) (handle kind body) := by
  by_cases hopen : kind = Msg.openConfirmation
  · subst hopen
    exact confirmation_spec hfine body
  by_cases hadjust : kind = Msg.windowAdjust
  · subst hadjust
    exact adjust_spec hfine body
  rw [bodyAnnounced_other body hopen hadjust]
  by_cases hdata : kind = Msg.data
  · subst hdata
    exact data_spec hfine body
  by_cases hext : kind = Msg.extendedData
  · subst hext
    exact extendedData_spec hfine body
  rw [bodyData_other body hdata hext]
  by_cases hclose : kind = Msg.close
  · subst hclose
    exact close_spec hfine body
  by_cases hrequest : kind = Msg.request
  · subst hrequest
    exact request_spec hfine body
  rw [handle, if_neg hopen, Handles, wp_ite]
  refine ⟨fun _ => handles_flag hfine rfl rfl rfl rfl, fun _ => ?_⟩
  rw [if_neg hadjust, if_neg hdata, if_neg hext, wp_ite]
  refine ⟨fun _ => handles_flag hfine rfl rfl rfl rfl, fun _ => ?_⟩
  rw [if_neg hclose, if_neg hrequest, wp_ite]
  refine ⟨fun _ => handles_flag hfine rfl rfl rfl rfl, fun _ => ?_⟩
  rw [wp_ite]
  refine ⟨fun _ => handles_flag hfine rfl rfl rfl rfl, fun _ => ?_⟩
  rw [wp_raise]
  exact ⟨flow_quiet hfine rfl rfl rfl rfl, by simp [Sound], by simp⟩

/-- A message of another kind, or to another channel, neither brings data nor announces any. -/
theorem said_nothing {i : UInt32} {kind : Byte} {rest : Bytes}
    (h : ∀ r, u32 rest = some (i, r) → bodyData kind r = 0 ∧ bodyAnnounced kind r = 0) :
    dataOf i (kind :: rest) = 0 ∧ announcedOf i (kind :: rest) = 0 := by
  rw [dataOf, announcedOf, addressed]
  cases hrest : u32 rest with
  | none => exact ⟨rfl, rfl⟩
  | some p =>
    obtain ⟨recipient, r⟩ := p
    dsimp only [Option.bind]
    by_cases hto : recipient = i
    · subst hto
      rw [if_pos rfl]
      exact h r hrest
    · rw [if_neg hto]
      exact ⟨rfl, rfl⟩

end CreditLemmas

open CreditLemmas

/-- What a packet of the server does to the counters, once it is in the log. -/
theorem dispatch_flow {c : State} (hfine : Fine c) (payload : Bytes) :
    wp (dispatch payload)
      (fun _ c' => Flow { c with log := c.log ++ [.got payload] } (dataOf c.localId payload) (announcedOf c.localId payload) c' ∧
        ¬ localWindow - c.consumed < dataOf c.localId payload)
      (fun e c' => Flow { c with log := c.log ++ [.got payload] } (dataOf c.localId payload) (announcedOf c.localId payload) c' ∧
        Sound e ∧ (e = .overran ↔ localWindow - c.consumed < dataOf c.localId payload)) c := by
  have hfine' : Fine { c with log := c.log ++ [.got payload] } := ⟨hfine.consumed, hfine.window⟩
  rw [dispatch, wp_bind, wp_modify, wp_bind, wp_get]
  cases payload with
  | nil => exact ⟨flow_quiet hfine' rfl rfl rfl rfl, by simp [Sound], by simp [dataOf, addressed]⟩
  | cons kind rest =>
    rw [wp_ite]
    refine ⟨fun hopen => ?_, fun hopen => ?_⟩
    · subst hopen
      obtain ⟨hdata, hsaid⟩ := @said_nothing c.localId Msg.channelOpen rest fun r _ => ⟨rfl, rfl⟩
      rw [hdata, hsaid]
      split
      · exact handles_send hfine' rfl rfl rfl rfl (by simp [openRefusal, Msg.openFailure, Msg.windowAdjust]) rfl
      · exact ⟨flow_quiet hfine' rfl rfl rfl rfl, by simp [Sound], by simp⟩
    · rw [wp_ite]
      refine ⟨fun hkind => ?_, fun _ => ?_⟩
      · have hother (known : Byte) (hlow : Msg.channelOpen ≤ known) (hhigh : known ≤ Msg.failure) : kind ≠ known := by
          rintro rfl
          exact hkind.elim (UInt8.not_lt.mpr hlow) (UInt8.not_lt.mpr hhigh)
        obtain ⟨hdata, hsaid⟩ := @said_nothing c.localId kind rest fun r _ =>
          ⟨bodyData_other r (hother _ (by decide) (by decide)) (hother _ (by decide) (by decide)),
            bodyAnnounced_other r (hother _ (by decide) (by decide)) (hother _ (by decide) (by decide))⟩
        rw [hdata, hsaid]
        exact ⟨flow_quiet hfine' rfl rfl rfl rfl, by simp [Sound], by simp⟩
      · rw [wp_bind, wp_orRaise]
        refine ⟨?_, fun hnone => ?_⟩
        · rintro ⟨recipient, r⟩ hrest
          have hrest' : u32 rest = some (recipient, r) := hrest
          rw [wp_ite]
          refine ⟨fun hto => ?_, fun hto => ?_⟩
          · obtain ⟨hdata, hsaid⟩ := @said_nothing c.localId kind rest fun r' h => by
              rw [hrest'] at h
              exact absurd (congrArg Prod.fst (Option.some.inj h)) hto
            rw [hdata, hsaid, wp_pure]
            exact ⟨flow_quiet hfine' rfl rfl rfl rfl, Nat.not_lt_zero _⟩
          · have haddressed : addressed c.localId (kind :: rest) = some (kind, r) := by
              rw [addressed, hrest']
              exact if_pos (not_not.mp hto)
            rw [dataOf, announcedOf, haddressed]
            exact handle_spec hfine' kind r
        · have hnone' : u32 rest = none := hnone
          obtain ⟨hdata, hsaid⟩ := @said_nothing c.localId kind rest fun r h => by
            rw [hnone'] at h
            cases h
          rw [hdata, hsaid]
          exact ⟨flow_quiet hfine' rfl rfl rfl rfl, by simp [Sound], by simp⟩

/-! ## Runs -/

/-- What holds between two packets: the two ends agree on the window, nothing sent is beyond what
was announced, and the same was so at every event before. -/
structure Good (c : State) : Prop where
  fine : Fine c
  credit : .overran ∉ c.log → received c.localId c.log = granted c.log + c.consumed
  judged : Every (Judged c.localId) c.log
  room : sentData c.log + c.remoteWindow ≤ announced c.localId c.log
  allowed : Every (Allowed c.localId) c.log

/-- What has happened since: an overrun or not, and what data was handed over. -/
structure Since (c c' : State) (overrun : Prop) (ext : List Event) : Prop where
  localId : c'.localId = c.localId
  late : c'.late.length ≤ c.late.length
  log : c'.log = c.log ++ ext
  overran : .overran ∈ ext ↔ overrun

/-- A program of the client that hands over no data. -/
def Serves {α : Type} (m : Chan α) : Prop :=
  ∀ c, Good c → wp m (fun _ c' => Good c' ∧ ∃ ext, Since c c' False ext ∧ written ext = [])
    (fun e c' => Good c' ∧ (∃ ext, Since c c' (e = .overran) ext ∧ written ext = []) ∧ Sound e) c

/-- From `c` the program hands over a beginning of the data, and all of it when it ends well. -/
def Writes (data : Bytes) (m : Chan Unit) (c : State) : Prop :=
  wp m (fun _ c' => Good c' ∧ ∃ ext, Since c c' False ext ∧ written ext = data ∧ sentData ext = data.length)
    (fun e c' => Good c' ∧ (∃ ext, Since c c' (e = .overran) ext ∧ written ext <+: data) ∧ Sound e) c

namespace CreditLemmas

variable {c c' c'' : State} {l l' : List Event}

theorem every_append {P : List Event → Event → List Event → Prop}
    (hmono : ∀ pre e rest ext, P pre e rest → P pre e (rest ++ ext)) (h : Every P l)
    (hext : ∀ pre e rest, l' = pre ++ e :: rest → P (l ++ pre) e rest) : Every P (l ++ l') := by
  intro pre e rest hsplit
  rcases List.append_eq_append_iff.mp hsplit with ⟨m, rfl, hm⟩ | ⟨m, rfl, hm⟩
  · exact hext m e rest hm
  · cases m with
    | nil =>
      have hfirst := hext [] e rest hm.symm
      rwa [List.append_nil, List.append_nil] at hfirst
    | cons x m =>
      obtain ⟨rfl, rfl⟩ := List.cons.inj hm
      exact hmono _ _ _ _ (h pre e m rfl)

theorem judged_mono {i : UInt32} (pre : List Event) (e : Event) (rest ext : List Event) (h : Judged i pre e rest) :
    Judged i pre e (rest ++ ext) := by
  cases e with
  | got payload =>
    intro hnot hover
    rw [List.head?_append, h hnot hover]
    rfl
  | overran => exact h
  | handed packet taken largest => exact h

theorem allowed_mono {i : UInt32} (pre : List Event) (e : Event) (rest ext : List Event) (h : Allowed i pre e rest) :
    Allowed i pre e (rest ++ ext) := by
  cases e with
  | got payload => trivial
  | overran => trivial
  | handed packet taken largest => exact h

/-- A plain packet counts for nothing. -/
theorem plain_counts {i : UInt32} {hs : List Event} (h : ∀ e ∈ hs, Plain e) :
    received i hs = 0 ∧ granted hs = 0 ∧ announced i hs = 0 ∧ sentData hs = 0 ∧ written hs = [] ∧ .overran ∉ hs := by
  induction hs with
  | nil => exact ⟨rfl, rfl, rfl, rfl, rfl, by simp⟩
  | cons e hs ih =>
    obtain ⟨packet, taken, largest, rfl, hadjust, hdata⟩ := h e List.mem_cons_self
    obtain ⟨h1, h2, h3, h4, h5, h6⟩ := ih fun e he => h e (List.mem_cons_of_mem _ he)
    have hgranted : adjustOf packet = 0 := if_neg hadjust
    refine ⟨?_, ?_, ?_, ?_, ?_, ?_⟩
    · exact (received_append i (l := [_])).trans (by rw [h1]; rfl)
    · exact (granted_append (l := [_])).trans (by rw [h2, granted]; simp [hgranted])
    · exact (announced_append i (l := [_])).trans (by rw [h3]; rfl)
    · exact (sentData_append (l := [_])).trans (by rw [h4, sentData]; cases taken <;> simp [hdata])
    · exact (written_append (l := [_])).trans (by rw [h5, written]; simp [hdata])
    · simpa using h6

theorem plain_judged {i : UInt32} {hs : List Event} (h : ∀ e ∈ hs, Plain e) {pre rest : List Event} {e : Event}
    (hsplit : hs = pre ++ e :: rest) : Judged i l e rest ∧ Allowed i l e rest := by
  obtain ⟨packet, taken, largest, rfl, hadjust, hdata⟩ := h e (hsplit ▸ by simp)
  exact ⟨fun _ hhead => absurd hhead hadjust, fun hne => absurd hdata hne⟩

/-- A step of the client that sends nothing but plain packets. -/
theorem good_plain {hs : List Event} (h : Good c) (hid : c'.localId = c.localId) (hwindow : c'.remoteWindow = c.remoteWindow)
    (hconsumed : c'.consumed = c.consumed) (hlog : c'.log = c.log ++ hs) (hplain : ∀ e ∈ hs, Plain e) : Good c' := by
  obtain ⟨h1, h2, h3, h4, _, h6⟩ := @plain_counts c.localId hs hplain
  refine ⟨⟨hconsumed ▸ h.fine.consumed, hwindow ▸ h.fine.window⟩, ?_, ?_, ?_, ?_⟩
  · intro hnot
    rw [hlog] at hnot
    have hold := h.credit fun hmem => hnot (List.mem_append_left _ hmem)
    rw [hid, hlog, received_append, granted_append, h1, h2, hconsumed, hold]
    rfl
  · rw [hid, hlog]
    exact every_append judged_mono h.judged fun pre e rest hsplit => (plain_judged hplain hsplit).1
  · rw [hid, hlog, sentData_append, announced_append, h3, h4, hwindow]
    exact h.room
  · rw [hid, hlog]
    exact every_append allowed_mono h.allowed fun pre e rest hsplit => (plain_judged hplain hsplit).2

theorem single_split {x e : Event} {pre rest : List Event} (h : [x] = pre ++ e :: rest) : pre = [] ∧ e = x := by
  cases pre with
  | nil => exact ⟨rfl, (List.cons.inj h).1.symm⟩
  | cons y pre => exact absurd (List.cons.inj h).2 (by simp)

/-- A packet of the server and what it makes the client do. -/
theorem good_got {payload : Bytes} {hs : List Event} (h : Good c) (hid : c'.localId = c.localId) (hfine : Fine c')
    (hwindow : c'.remoteWindow ≤ c.remoteWindow + announcedOf c.localId payload) (hlog : c'.log = c.log ++ .got payload :: hs)
    (hover : localWindow < c.consumed + dataOf c.localId payload → hs.head? = some .overran)
    (hjudged : ∀ pre e rest, hs = pre ++ e :: rest →
      Judged c.localId (c.log ++ .got payload :: pre) e rest ∧ Allowed c.localId (c.log ++ .got payload :: pre) e rest)
    (hcredit : .overran ∉ c.log → .overran ∉ hs → dataOf c.localId payload + c.consumed + received c.localId hs =
      granted hs + c'.consumed) (hsent : sentData hs = 0) : Good c' := by
  refine ⟨hfine, ?_, ?_, ?_, ?_⟩
  · intro hnot
    rw [hlog, List.mem_append, List.mem_cons, not_or, not_or] at hnot
    have hold := h.credit hnot.1
    have hnew := hcredit hnot.1 hnot.2.2
    have hgot : received c.localId (.got payload :: hs) = dataOf c.localId payload + received c.localId hs := rfl
    have hgrant : granted (.got payload :: hs) = 0 + granted hs := rfl
    rw [hid, hlog, received_append, granted_append, hgot, hgrant]
    omega
  · rw [hid, hlog]
    refine every_append judged_mono h.judged ?_
    intro pre e rest hsplit
    cases pre with
    | nil =>
      obtain ⟨rfl, rfl⟩ := List.cons.inj hsplit
      rw [List.append_nil]
      intro hnot hbeyond
      rw [h.credit hnot] at hbeyond
      exact hover (by omega)
    | cons x pre =>
      obtain ⟨rfl, hrest⟩ := List.cons.inj hsplit
      exact (hjudged pre e rest hrest).1
  · have hsaid : announcedOf c.localId payload ≤ announced c.localId (.got payload :: hs) := Nat.le_add_right _ _
    have hnone : sentData (.got payload :: hs) = 0 + sentData hs := rfl
    rw [hid, hlog, sentData_append, announced_append, hnone, hsent]
    have := h.room
    omega
  · rw [hid, hlog]
    refine every_append allowed_mono h.allowed ?_
    intro pre e rest hsplit
    cases pre with
    | nil =>
      obtain ⟨rfl, rfl⟩ := List.cons.inj hsplit
      trivial
    | cons x pre =>
      obtain ⟨rfl, hrest⟩ := List.cons.inj hsplit
      exact (hjudged pre e rest hrest).2

/-- The step lemma: a packet of the server, whatever it says. -/
theorem good_flow {payload : Bytes} (h : Good c)
    (hflow : Flow { c with log := c.log ++ [.got payload] } (dataOf c.localId payload) (announcedOf c.localId payload) c') :
    Good c' ∧ ∃ ext, Since c c' (localWindow - c.consumed < dataOf c.localId payload) ext ∧ written ext = [] := by
  obtain ⟨hid, hlate⟩ := Prod.ext_iff.mp hflow.same
  dsimp only at hid hlate
  have hle := h.fine.consumed
  have hlate' : c'.late.length ≤ c.late.length := by rw [hlate]
  have hgot : received c.localId [.got payload] = dataOf c.localId payload := rfl
  have hgrant : granted [.got payload] = 0 := rfl
  cases hflow.inward with
  | overran hover hlog hconsumed =>
    dsimp only at hover hlog hconsumed
    rw [List.append_assoc, List.singleton_append] at hlog
    refine ⟨good_got h hid ⟨hconsumed ▸ hle, hflow.fits⟩ hflow.window hlog (fun _ => rfl) ?_ (fun _ hnot => ?_) rfl, _,
      ⟨hid, hlate', hlog, by simp [hover]⟩, rfl⟩
    · intro pre e rest hsplit
      obtain ⟨rfl, rfl⟩ := single_split hsplit
      refine ⟨fun hnot => ?_, trivial⟩
      rw [List.mem_append, not_or] at hnot
      have hcredit := h.credit hnot.1
      rw [received_append, granted_append, hgot, hgrant]
      omega
    · exact absurd List.mem_cons_self hnot
  | kept hroom hlog hplain hconsumed =>
    rename_i hs
    dsimp only at hroom hlog hconsumed
    rw [List.append_assoc, List.singleton_append] at hlog
    obtain ⟨h1, h2, _, h4, h5, h6⟩ := @plain_counts c.localId hs hplain
    refine ⟨good_got h hid ⟨hconsumed ▸ hroom, hflow.fits⟩ hflow.window hlog (fun hover => by omega) ?_ ?_ h4, _,
      ⟨hid, hlate', hlog, ?_⟩, h5⟩
    · intro pre e rest hsplit
      exact plain_judged hplain hsplit
    · intro _ _
      rw [h1, h2, hconsumed]
      omega
    · refine ⟨fun hmem => ?_, fun hover => by omega⟩
      rcases List.mem_cons.mp hmem with heq | hmem
      · cases heq
      · exact absurd hmem h6
  | adjusted hroom hadjust hdata hlog hconsumed =>
    rename_i packet taken largest
    dsimp only at hroom hadjust hlog hconsumed
    rw [List.append_assoc, List.singleton_append] at hlog
    have hgave : granted [.handed packet taken largest] = adjustOf packet + 0 := rfl
    have hsent : sentData [.handed packet taken largest] = 0 := by cases taken <;> simp [sentData, hdata]
    refine ⟨good_got h hid ⟨hconsumed ▸ Nat.zero_le _, hflow.fits⟩ hflow.window hlog (fun hover => by omega) ?_ ?_ hsent, _,
      ⟨hid, hlate', hlog, ?_⟩, ?_⟩
    · intro pre e rest hsplit
      obtain ⟨rfl, rfl⟩ := single_split hsplit
      refine ⟨fun hnot _ => ?_, fun hne => absurd hdata hne⟩
      rw [List.mem_append, not_or] at hnot
      have hcredit := h.credit hnot.1
      rw [received_append, granted_append, hgot, hgrant]
      omega
    · intro _ _
      have hnone : received c.localId [.handed packet taken largest] = 0 := rfl
      rw [hnone, hgave, hconsumed]
      omega
    · refine ⟨fun hmem => ?_, fun hover => by omega⟩
      simp at hmem
    · simp [written, hdata]

theorem since_refl : Since c c False [] := ⟨rfl, Nat.le_refl _, (List.append_nil _).symm, by simp⟩

theorem since_trans {p : Prop} {ext ext' : List Event} (h : Since c c' False ext) (h' : Since c' c'' p ext') :
    Since c c'' p (ext ++ ext') := by
  refine ⟨h'.localId.trans h.localId, h'.late.trans h.late, ?_, ?_⟩
  · rw [h'.log, h.log, List.append_assoc]
  · rw [List.mem_append, h.overran, false_or, h'.overran]

/-! ### Programs that hand over no data -/

variable {α β : Type} {m : Chan α}

theorem serves_pure (a : α) : Serves (pure a : Chan α) := fun _ h => ⟨h, [], since_refl, rfl⟩

theorem serves_get : Serves (get : Chan State) := fun _ h => ⟨h, [], since_refl, rfl⟩

theorem serves_raise {e : Error} (hover : e ≠ .overran) (hsound : Sound e) :
    Serves (raise e : Chan α) :=
  fun _ h => ⟨h, ⟨[], ⟨rfl, Nat.le_refl _, (List.append_nil _).symm, by simp [hover]⟩, rfl⟩, hsound⟩

theorem serves_modify {f : State → State} (hsame : ∀ c, (f c).localId = c.localId ∧ (f c).remoteWindow = c.remoteWindow ∧
    (f c).consumed = c.consumed ∧ (f c).log = c.log ∧ (f c).late.length ≤ c.late.length) : Serves (modify f : Chan Unit) := by
  intro c h
  obtain ⟨hid, hwindow, hconsumed, hlog, hlate⟩ := hsame c
  have hlog' : (f c).log = c.log ++ [] := by rw [hlog, List.append_nil]
  exact ⟨good_plain h hid hwindow hconsumed hlog' (by simp), [], ⟨hid, hlate, hlog', by simp⟩, rfl⟩

theorem serves_bind {f : α → Chan β} (hm : Serves m) (hf : ∀ a, Serves (f a)) : Serves (m >>= f) := by
  intro c h
  rw [wp_bind]
  refine wp_mono (hm c h) ?_ ?_
  · rintro a c' ⟨hgood, ext, hsince, hnone⟩
    refine wp_mono (hf a c' hgood) ?_ ?_
    · rintro b c'' ⟨hgood', ext', hsince', hnone'⟩
      exact ⟨hgood', _, since_trans hsince hsince', by rw [written_append, hnone, hnone']; rfl⟩
    · rintro e c'' ⟨hgood', ⟨ext', hsince', hnone'⟩, he⟩
      exact ⟨hgood', ⟨_, since_trans hsince hsince', by rw [written_append, hnone, hnone']; rfl⟩, he⟩
  · rintro e c' h'
    exact h'

theorem serves_ite {p : Prop} [Decidable p] {m' : Chan α} (h : Serves m) (h' : Serves m') :
    Serves (if p then m else m') := by
  split
  · exact h
  · exact h'

/-- A packet that is neither data nor an adjustment. -/
theorem serves_send {packet : Bytes} (hadjust : packet.head? ≠ some Msg.windowAdjust) (hdata : payloadOf packet = []) :
    Serves (send packet) := by
  intro c h
  have hplain (taken : Bool) : ∀ e ∈ [Event.handed packet taken c.remoteMaxPacket], Plain e := by
    intro e he
    exact ⟨packet, taken, _, List.mem_singleton.mp he, hadjust, hdata⟩
  refine wp_mono (send_spec packet) ?_ ?_
  · rintro _ _ ⟨takes, rfl⟩
    refine ⟨good_plain h rfl rfl rfl rfl (hplain true), _, ⟨rfl, Nat.le_refl _, rfl, by simp⟩, ?_⟩
    simp [written, hdata]
  · rintro _ _ ⟨⟨text, rfl⟩, takes, rfl⟩
    refine ⟨good_plain h rfl rfl rfl rfl (hplain false), ⟨_, ⟨rfl, Nat.le_refl _, rfl, by simp⟩, ?_⟩, by simp [Sound]⟩
    simp [written, hdata]

theorem serves_dispatch (payload : Bytes) : Serves (dispatch payload) := by
  intro c h
  refine wp_mono (dispatch_flow h.fine payload) ?_ ?_
  · rintro _ c' ⟨hflow, hnot⟩
    obtain ⟨hgood, ext, hsince, hnone⟩ := good_flow h hflow
    exact ⟨hgood, ext, ⟨hsince.localId, hsince.late, hsince.log, by rw [hsince.overran]; simp [hnot]⟩, hnone⟩
  · rintro e c' ⟨hflow, hsound, hover⟩
    obtain ⟨hgood, ext, hsince, hnone⟩ := good_flow h hflow
    exact ⟨hgood, ⟨ext, ⟨hsince.localId, hsince.late, hsince.log, by rw [hsince.overran, hover]⟩, hnone⟩, hsound⟩

theorem serves_isLate : Serves isLate := by
  refine serves_bind serves_get fun c => serves_bind (serves_modify fun c => ⟨rfl, rfl, rfl, rfl, ?_⟩) fun _ => serves_pure _
  exact (List.drop_sublist 1 c.late).length_le

theorem serves_poll : Serves poll := by
  refine serves_bind serves_get fun c => ?_
  split
  · exact serves_pure false
  · refine serves_bind (serves_modify fun c => ⟨rfl, rfl, rfl, rfl, Nat.le_refl _⟩) fun _ => ?_
    split
    · exact serves_pure false
    · exact serves_raise (by simp) (by simp [Sound])
    · exact serves_bind (serves_dispatch _) fun _ => serves_pure true

/-- A look at the clock that finds time left uses it up. -/
theorem isLate_falls : wp isLate (fun expired c' => expired = false → c'.late.length < c.late.length) (fun _ _ => False) c := by
  rw [isLate, wp_bind, wp_get, wp_bind, wp_modify, wp_pure]
  intro hover
  cases hlate : c.late with
  | nil =>
    rw [hlate] at hover
    cases hover
  | cons b bs => exact Nat.lt_succ_self _

/-- A loop that goes on only while looks at the clock are used up ends. -/
theorem serves_loop {body : Chan (Option α)} (h : Serves body)
    (hfall : ∀ c, Good c → wp body (fun o c' => o = none → c'.late.length < c.late.length) (fun _ _ => True) c) :
    Serves (get >>= fun c => loop body .stuck (c.late.length + 1)) := by
  intro c hc
  rw [wp_bind, wp_get]
  refine wp_loop (fun c' => Good c' ∧ ∃ ext, Since c c' False ext ∧ written ext = []) (fun c' => c'.late.length) ?_
    ⟨hc, [], since_refl, rfl⟩ (Nat.lt_succ_self _)
  rintro c' ⟨hgood, ext, hsince, hnone⟩
  refine wp_mono (wp_and (h c' hgood) (hfall c' hgood)) ?_ ?_
  · rintro o c'' ⟨⟨hgood', ext', hsince', hnone'⟩, hless⟩
    have hsum : written (ext ++ ext') = [] := by rw [written_append, hnone, hnone']; rfl
    cases o with
    | some a => exact ⟨hgood', _, since_trans hsince hsince', hsum⟩
    | none => exact ⟨⟨hgood', _, since_trans hsince hsince', hsum⟩, hless rfl⟩
  · rintro e c'' ⟨⟨hgood', ⟨ext', hsince', hnone'⟩, hsound⟩, _⟩
    exact ⟨hgood', ⟨_, since_trans hsince hsince', by rw [written_append, hnone, hnone']; rfl⟩, hsound⟩

/-- Waiting ends: each turn looks at the clock. -/
theorem serves_waitUntil (done : State → Bool) {e : Error} (hover : e ≠ .overran) (hsound : Sound e) :
    Serves (waitUntil done e) := by
  refine serves_loop ?_ ?_
  · refine serves_bind serves_get fun c => serves_ite (serves_pure _) ?_
    exact serves_bind serves_isLate fun expired => serves_ite (serves_raise hover hsound) (serves_bind serves_poll fun _ => serves_pure _)
  · intro c h
    rw [wp_bind, wp_get, wp_ite]
    refine ⟨fun _ hsome => absurd hsome (by simp), fun _ => ?_⟩
    rw [wp_bind]
    refine wp_mono (wp_and (serves_isLate c h) isLate_falls) ?_ (fun _ _ h => h.2.elim)
    rintro expired c₁ ⟨⟨hgood, _⟩, hfall⟩
    rw [wp_ite]
    refine ⟨fun _ => trivial, fun hover => ?_⟩
    rw [wp_bind]
    refine wp_mono (serves_poll c₁ hgood) ?_ (fun _ _ _ => trivial)
    rintro _ c₂ ⟨_, ext, hsince, _⟩ _
    exact lt_of_le_of_lt hsince.late (hfall (Bool.eq_false_iff.mpr hover))

theorem serves_openChannel : Serves openChannel := by
  refine serves_bind serves_get fun c => serves_bind (serves_send (by simp [Msg.channelOpen, Msg.windowAdjust]) rfl) fun _ => ?_
  refine serves_bind (serves_waitUntil _ (by simp) (by simp [Sound])) fun _ => serves_bind serves_get fun c => ?_
  exact serves_ite (serves_raise (by simp) (by simp [Sound])) (serves_pure ())

theorem serves_request (kind : String) (wantReply : Bool) (extra : Bytes) : Serves (request kind wantReply extra) := by
  refine serves_bind serves_get fun c => serves_bind (serves_modify fun c => ⟨rfl, rfl, rfl, rfl, Nat.le_refl _⟩) fun _ => ?_
  refine serves_bind (serves_send (by simp [Msg.request, Msg.windowAdjust]) rfl) fun _ => serves_ite ?_ (serves_pure true)
  exact serves_bind (serves_waitUntil _ (by simp) (by simp [Sound])) fun _ => serves_bind serves_get fun c => serves_pure _

theorem serves_sendClose : Serves sendClose := by
  refine serves_bind serves_get fun c => serves_ite (serves_pure ()) ?_
  refine serves_bind (serves_modify fun c => ⟨rfl, rfl, rfl, rfl, Nat.le_refl _⟩) fun _ => ?_
  exact serves_send (by simp [Msg.close, Msg.windowAdjust]) rfl

theorem serves_eof : Serves eof := by
  refine serves_bind serves_get fun c => serves_ite (serves_pure ()) ?_
  refine serves_bind (serves_modify fun c => ⟨rfl, rfl, rfl, rfl, Nat.le_refl _⟩) fun _ => ?_
  exact serves_send (by simp [Msg.eof, Msg.windowAdjust]) rfl

theorem serves_checkCancel : Serves checkCancel := by
  refine serves_bind serves_get fun c => serves_bind (serves_modify fun c => ⟨rfl, rfl, rfl, rfl, Nat.le_refl _⟩) fun _ => ?_
  exact serves_ite (serves_raise (by simp) (by simp [Sound])) (serves_pure ())

/-! ### Programs that hand over data -/

theorem sentData_le (l : List Event) : sentData l ≤ (written l).length := by
  induction l with
  | nil => exact Nat.le_refl 0
  | cons e l ih =>
    have hsent := @sentData_append [e] l
    have hwritten := @written_append [e] l
    rw [List.singleton_append] at hsent hwritten
    rw [hsent, hwritten, List.length_append]
    refine Nat.add_le_add ?_ ih
    cases e with
    | got payload => exact Nat.zero_le _
    | overran => exact Nat.zero_le _
    | handed packet taken largest => cases taken <;> simp [sentData, written]

theorem payloadOf_data (remoteId : UInt32) {chunk : Bytes} (h : chunk.length ≤ localMaxPacket) :
    payloadOf (dataPacket remoteId chunk) = chunk := by
  have hdrop : (dataPacket remoteId chunk).drop 5 = putString chunk := rfl
  have hread := string_putString chunk [] (lt_of_le_of_lt h (by decide))
  rw [List.append_nil] at hread
  rw [payloadOf, if_pos (show List.head? _ = some Msg.data from rfl), hdrop, hread]
  rfl

/-- A packet of data that the room allows, which costs its length when it is taken. -/
theorem good_data {packet : Bytes} {taken : Bool} (h : Good c) (hid : c'.localId = c.localId)
    (hconsumed : c'.consumed = c.consumed) (hlog : c'.log = c.log ++ [.handed packet taken c.remoteMaxPacket])
    (hkind : packet.head? ≠ some Msg.windowAdjust) (hlen : (payloadOf packet).length ≤ c.room)
    (hwindow : c'.remoteWindow + (if taken = true then (payloadOf packet).length else 0) ≤ c.remoteWindow) : Good c' := by
  have hroom := h.room
  have hfits := h.fine.window
  have hnothing : received c.localId [.handed packet taken c.remoteMaxPacket] = 0 := rfl
  have hgrant : granted [.handed packet taken c.remoteMaxPacket] = 0 := by simp [granted, adjustOf, hkind]
  have hsaid : announced c.localId [.handed packet taken c.remoteMaxPacket] = 0 := rfl
  have hsent : sentData [.handed packet taken c.remoteMaxPacket] = if taken = true then (payloadOf packet).length else 0 := by
    cases taken <;> simp [sentData]
  refine ⟨⟨hconsumed ▸ h.fine.consumed, by omega⟩, ?_, ?_, ?_, ?_⟩
  · intro hnot
    rw [hlog] at hnot
    have hold := h.credit fun hmem => hnot (List.mem_append_left _ hmem)
    rw [hid, hlog, received_append, granted_append, hnothing, hgrant, hconsumed, hold]
    rfl
  · rw [hid, hlog]
    refine every_append judged_mono h.judged fun pre e rest hsplit => ?_
    obtain ⟨rfl, rfl⟩ := single_split hsplit
    exact fun _ hhead => absurd hhead hkind
  · rw [hid, hlog, sentData_append, announced_append, hsent, hsaid]
    omega
  · rw [hid, hlog]
    refine every_append allowed_mono h.allowed fun pre e rest hsplit => ?_
    obtain ⟨rfl, rfl⟩ := single_split hsplit
    intro _
    rw [List.append_nil]
    rw [State.room, le_min_iff, le_min_iff] at hlen
    exact ⟨by omega, le_min hlen.1.2 hlen.2⟩

theorem writes_raise {data : Bytes} {e : Error} (h : Good c) (hover : e ≠ .overran) (hsound : Sound e) :
    Writes data (raise e) c :=
  ⟨h, ⟨[], ⟨rfl, Nat.le_refl _, (List.append_nil _).symm, by simp [hover]⟩, List.nil_prefix⟩, hsound⟩

/-- Whatever hands over no data may come before. -/
theorem writes_served {data : Bytes} {f : α → Chan Unit} {P : α → State → Prop} (h : Good c) (hm : Serves m)
    (hp : wp m P (fun _ _ => True) c)
    (hf : ∀ a c', Good c' → c'.late.length ≤ c.late.length → P a c' → Writes data (f a) c') : Writes data (m >>= f) c := by
  rw [Writes, wp_bind]
  refine wp_mono (wp_and (hm c h) hp) ?_ ?_
  · rintro a c' ⟨⟨hgood, ext, hsince, hnone⟩, ha⟩
    have hsent : sentData ext = 0 := Nat.le_zero.mp ((sentData_le ext).trans (by rw [hnone]; exact Nat.le_refl 0))
    refine wp_mono (hf a c' hgood hsince.late ha) ?_ ?_
    · rintro _ c'' ⟨hgood', ext', hsince', hdata, hlength⟩
      exact ⟨hgood', _, since_trans hsince hsince', by rw [written_append, hnone, hdata]; rfl,
        by rw [sentData_append, hsent, hlength, Nat.zero_add]⟩
    · rintro e c'' ⟨hgood', ⟨ext', hsince', hdata⟩, hsound⟩
      exact ⟨hgood', ⟨_, since_trans hsince hsince', by rw [written_append, hnone]; exact hdata⟩, hsound⟩
  · rintro e c' ⟨⟨hgood, ⟨ext, hsince, hnone⟩, hsound⟩, _⟩
    exact ⟨hgood, ⟨ext, hsince, hnone ▸ List.nil_prefix⟩, hsound⟩

/-- A packet of the data, and then the rest of it. -/
theorem writes_chunk {data : Bytes} {n : Nat} {rest : Chan Unit} (h : Good c) (hn : n ≤ c.room) (hlen : n ≤ data.length)
    (hrest : ∀ c', Good c' → c'.late.length ≤ c.late.length → Writes (data.drop n) rest c') :
    Writes data (send (dataPacket c.remoteId (data.take n)) >>= fun _ => subAt c.remoteWindow n >>= fun window =>
      modify (fun c => { c with remoteWindow := window }) >>= fun _ => rest) c := by
  have htake : (data.take n).length = n := List.length_take_of_le hlen
  have hwindow : n ≤ c.remoteWindow := hn.trans ((min_le_left _ _).trans (min_le_left _ _))
  have hpayload : payloadOf (dataPacket c.remoteId (data.take n)) = data.take n :=
    payloadOf_data _ (htake.le.trans (hn.trans (min_le_right _ _)))
  have hkind : (dataPacket c.remoteId (data.take n)).head? ≠ some Msg.windowAdjust := by
    simp [dataPacket, Msg.data, Msg.windowAdjust]
  have hwritten (taken : Bool) : written [.handed (dataPacket c.remoteId (data.take n)) taken c.remoteMaxPacket] = data.take n := by
    simp [written, hpayload]
  rw [Writes, wp_bind]
  refine wp_mono (send_spec _) ?_ ?_
  · rintro _ _ ⟨takes, rfl⟩
    rw [wp_bind, subAt, wp_orRaise, if_pos hwindow]
    refine ⟨?_, fun hnone => by cases hnone⟩
    rintro window hsome
    obtain rfl := Option.some.inj hsome
    rw [wp_bind, wp_modify]
    have hgood : Good { c with
        takes, remoteWindow := c.remoteWindow - n
        log := c.log ++ [.handed (dataPacket c.remoteId (data.take n)) true c.remoteMaxPacket] } := by
      refine @good_data c _ _ true h rfl rfl rfl hkind (by rwa [hpayload, htake]) ?_
      rw [hpayload, htake]
      exact (Nat.sub_add_cancel hwindow).le
    refine wp_mono (hrest _ hgood (Nat.le_refl _)) ?_ ?_
    · rintro _ c' ⟨hgood', ext, hsince, hdata, hlength⟩
      refine ⟨hgood', [.handed (dataPacket c.remoteId (data.take n)) true c.remoteMaxPacket] ++ ext, ?_, ?_, ?_⟩
      · exact ⟨hsince.localId, hsince.late, by rw [hsince.log, List.append_assoc], by simpa using hsince.overran⟩
      · rw [written_append, hwritten, hdata, List.take_append_drop]
      · rw [sentData_append, hlength, List.length_drop]
        simp [sentData, hpayload]
        omega
    · rintro e c' ⟨hgood', ⟨ext, hsince, hdata⟩, hsound⟩
      refine ⟨hgood', ⟨[.handed (dataPacket c.remoteId (data.take n)) true c.remoteMaxPacket] ++ ext, ?_, ?_⟩, hsound⟩
      · exact ⟨hsince.localId, hsince.late, by rw [hsince.log, List.append_assoc], by simpa using hsince.overran⟩
      · rw [written_append, hwritten]
        nth_rewrite 2 [← List.take_append_drop n data]
        exact (List.prefix_append_right_inj _).mpr hdata
  · rintro _ _ ⟨⟨text, rfl⟩, takes, rfl⟩
    refine ⟨@good_data c _ _ false h rfl rfl rfl hkind (by rwa [hpayload, htake]) (Nat.le_refl _),
      ⟨_, ⟨rfl, Nat.le_refl _, rfl, by simp⟩, ?_⟩, by simp [Sound]⟩
    rw [hwritten]
    exact List.take_prefix n data

/-- What is written is handed over in order, and all of it when writing ends well. -/
theorem writeLoop_spec {turns : Nat} {data : Bytes} (h : Good c) (hturns : data.length + c.late.length < turns) :
    Writes data (writeLoop turns data) c := by
  induction turns generalizing data c with
  | zero => exact absurd hturns (Nat.not_lt_zero _)
  | succ turns ih =>
    cases data with
    | nil =>
      rw [writeLoop]
      exact ⟨h, [], since_refl, rfl, rfl⟩
    | cons b bs =>
      rw [writeLoop]
      refine writes_served h serves_checkCancel (wp_true _) fun _ c₁ h₁ hlate₁ _ => ?_
      show wp _ _ _ _
      rw [wp_bind, wp_get, wp_ite]
      refine ⟨fun _ => writes_raise h₁ (by simp) (by simp [Sound]), fun _ => ?_⟩
      rw [wp_ite]
      refine ⟨fun _ => ?_, fun hroom => ?_⟩
      · refine writes_served h₁ serves_isLate (wp_mono isLate_falls (fun _ _ h => h) fun _ _ h => h.elim) ?_
        intro expired c₂ h₂ _ hfall
        show wp _ _ _ _
        rw [wp_ite]
        refine ⟨fun _ => writes_raise h₂ (by simp) (by simp [Sound]), fun hover => ?_⟩
        refine writes_served h₂ serves_poll (wp_true _) fun _ c₃ h₃ hlate₃ _ => ih h₃ ?_
        have := hfall (Bool.eq_false_iff.mpr hover)
        omega
      · refine writes_chunk h₁ (min_le_right _ _) (min_le_left _ _) fun c₂ h₂ hlate₂ => ih h₂ ?_
        rw [List.length_drop]
        have hsome : 0 < min (b :: bs).length c₁.room := lt_min (Nat.succ_pos _) (Nat.pos_of_ne_zero hroom)
        omega

/-- Only the transport keeps the channel from closing. -/
theorem sendClose_stops : wp sendClose (fun _ _ => True) (fun e _ => ∃ text, e = .transport text) c := by
  rw [sendClose, wp_bind, wp_get, wp_ite]
  refine ⟨fun _ => trivial, fun _ => ?_⟩
  rw [wp_bind, wp_modify]
  exact wp_mono (send_spec _) (fun _ _ _ => trivial) fun _ _ h => h.1

/-- A use of the channel, however it ends. -/
theorem op_spec (h : Good c) (o : Op) : wp (op o) (fun _ c' => Good c' ∧ ∃ ext, Since c c' False ext)
    (fun e c' => Good c' ∧ (∃ ext, Since c c' (e = .overran) ext) ∧ Sound e) c := by
  have hserves {m : Chan Unit} (hm : Serves m) : wp m (fun _ c' => Good c' ∧ ∃ ext, Since c c' False ext)
      (fun e c' => Good c' ∧ (∃ ext, Since c c' (e = .overran) ext) ∧ Sound e) c := by
    refine wp_mono (hm c h) ?_ ?_
    · rintro _ c' ⟨hgood, ext, hsince, _⟩
      exact ⟨hgood, ext, hsince⟩
    · rintro e c' ⟨hgood, ⟨ext, hsince, _⟩, hsound⟩
      exact ⟨hgood, ⟨ext, hsince⟩, hsound⟩
  cases o with
  | open_ => exact hserves serves_openChannel
  | request kind wantReply extra => exact hserves (serves_bind (serves_request kind wantReply extra) fun _ => serves_pure ())
  | write data =>
    rw [op, write, wp_bind, wp_get]
    refine wp_mono (writeLoop_spec h (Nat.lt_succ_self _)) ?_ ?_
    · rintro _ c' ⟨hgood, ext, hsince, _⟩
      exact ⟨hgood, ext, hsince⟩
    · rintro e c' ⟨hgood, ⟨ext, hsince, _⟩, hsound⟩
      exact ⟨hgood, ⟨ext, hsince⟩, hsound⟩
  | poll => exact hserves (serves_bind serves_poll fun _ => serves_pure ())
  | eof => exact hserves serves_eof
  | close =>
    rw [op, close, wp_bind, wp_attempt]
    refine wp_mono (wp_and (serves_sendClose c h) sendClose_stops) ?_ ?_
    · rintro _ c' ⟨⟨hgood, ext, hsince, _⟩, _⟩
      exact ⟨hgood, ext, hsince⟩
    · rintro e c' ⟨⟨hgood, ⟨ext, hsince, _⟩, _⟩, text, rfl⟩
      exact ⟨hgood, ext, hsince.localId, hsince.late, hsince.log, by rw [hsince.overran]; simp⟩
  | awaitClose => exact hserves (serves_waitUntil _ (by simp) (by simp [Sound]))

theorem good_start (localId : UInt32) (keepOut keepErr : Bool) (limit : Nat) (arrivals : List Arrival)
    (takes : List (Except String Unit)) (late cancels : List Bool) :
    Good (State.start localId keepOut keepErr limit arrivals takes late cancels) := by
  refine ⟨⟨Nat.zero_le _, by simp [State.start]⟩, fun _ => rfl, ?_, Nat.le_refl _, ?_⟩
  · intro pre e rest h
    simp [State.start] at h
  · intro pre e rest h
    simp [State.start] at h

/-- The run lemma: every use keeps what holds between two packets. -/
theorem ops_spec (os : List Op) (h : Good c) : wp (ops os)
    (fun results c' => Good c' ∧ c'.localId = c.localId ∧ (∀ e, .error e ∈ results → Sound e) ∧
      (.overran ∈ c'.log ↔ .overran ∈ c.log ∨ .error .overran ∈ results))
    (fun _ _ => False) c := by
  induction os generalizing c with
  | nil =>
    rw [ops, wp_pure]
    exact ⟨h, rfl, by simp, by simp⟩
  | cons o os ih =>
    rw [ops, wp_bind, wp_attempt]
    refine wp_mono (op_spec h o) ?_ ?_
    · rintro _ c' ⟨hgood, ext, hsince⟩
      rw [wp_bind]
      refine wp_mono (ih hgood) ?_ (fun _ _ h => h)
      rintro results c'' ⟨hgood', hid, hsound, hover⟩
      rw [wp_pure]
      refine ⟨hgood', hid.trans hsince.localId, ?_, ?_⟩
      · intro e he
        rcases List.mem_cons.mp he with heq | he
        · cases heq
        · exact hsound e he
      · rw [hover, hsince.log, List.mem_append, hsince.overran, or_false, List.mem_cons]
        simp
    · rintro e c' ⟨hgood, ⟨ext, hsince⟩, hsound₁⟩
      rw [wp_bind]
      refine wp_mono (ih hgood) ?_ (fun _ _ h => h)
      rintro results c'' ⟨hgood', hid, hsound, hover⟩
      rw [wp_pure]
      refine ⟨hgood', hid.trans hsince.localId, ?_, ?_⟩
      · intro e' he
        rcases List.mem_cons.mp he with heq | he
        · cases heq
          exact hsound₁
        · exact hsound e' he
      · rw [hover, hsince.log, List.mem_append, hsince.overran, List.mem_cons, or_assoc]
        simp [eq_comm]

end CreditLemmas

/-! ## The results -/

section

variable (localId : UInt32) (keepOut keepErr : Bool) (limit : Nat) (arrivals : List Arrival)
  (takes : List (Except String Unit)) (late cancels : List Bool) (os : List Op)

/-- The window of the client, whatever the server sends and the client does: no counter leaves its
type, an overrun is reported for the packet that goes beyond what was granted and for no other,
what is given back is what was taken since, and the credit on both sides is the same. -/
theorem window_exact : ∃ results c,
    (ops os).run (State.start localId keepOut keepErr limit arrivals takes late cancels) = (.ok results, c) ∧
    (∀ e, .error e ∈ results → e ≠ .panic ∧ e ≠ .stuck) ∧ (.error .overran ∈ results ↔ .overran ∈ c.log) ∧
    c.consumed ≤ localWindow ∧ Every (Judged localId) c.log ∧
    (.overran ∉ c.log → received localId c.log + (localWindow - c.consumed) = localWindow + granted c.log ∧
      ∀ payload, ((dispatch payload).run c).1 = .error .overran ↔
        localWindow + granted c.log < received localId c.log + dataOf localId payload) := by
  have hspec := ops_spec os (good_start localId keepOut keepErr limit arrivals takes late cancels)
  obtain ⟨results, c, hrun, hgood, hid, hsound, hover⟩ := run_of_wp hspec
  have hid' : c.localId = localId := hid
  refine ⟨results, c, hrun, hsound, ?_, hgood.fine.consumed, hid' ▸ hgood.judged, ?_⟩
  · rw [hover]
    simp [State.start]
  · intro hnot
    have hcredit := hgood.credit hnot
    have hle := hgood.fine.consumed
    rw [hid'] at hcredit
    refine ⟨by omega, fun payload => ?_⟩
    have hflow := dispatch_flow hgood.fine payload
    rw [hid'] at hflow
    unfold wp at hflow
    split at hflow
    · next hok =>
      rw [hok]
      refine ⟨fun h => (by cases h), fun h => absurd ?_ hflow.2⟩
      omega
    · next e _ herror =>
      rw [herror, Except.error.injEq, hflow.2.2]
      omega

/-- What the client sends, whatever the server sends and the client does: no data beyond what the
server announced, no packet beyond the largest, and the data written in its order. -/
theorem flow_exact (data : Bytes) : ∃ results c,
    (ops os).run (State.start localId keepOut keepErr limit arrivals takes late cancels) = (.ok results, c) ∧
    (∀ e, .error e ∈ results → e ≠ .panic ∧ e ≠ .stuck) ∧ c.remoteWindow < 2 ^ 32 ∧
    sentData c.log + c.remoteWindow ≤ announced localId c.log ∧ Every (Allowed localId) c.log ∧
    ∃ ext, ((write data).run c).2.log = c.log ++ ext ∧ written ext <+: data ∧
      (((write data).run c).1 = .ok () → written ext = data ∧ sentData ext = data.length) ∧
      ((write data).run c).1 ≠ .error .panic ∧ ((write data).run c).1 ≠ .error .stuck := by
  have hspec := ops_spec os (good_start localId keepOut keepErr limit arrivals takes late cancels)
  obtain ⟨results, c, hrun, hgood, hid, hsound, _⟩ := run_of_wp hspec
  have hid' : c.localId = localId := hid
  refine ⟨results, c, hrun, hsound, hgood.fine.window, hid' ▸ hgood.room, hid' ▸ hgood.allowed, ?_⟩
  have hwrite : Writes data (write data) c := by
    rw [Writes, write, wp_bind, wp_get]
    exact writeLoop_spec hgood (Nat.lt_succ_self _)
  rw [Writes] at hwrite
  unfold wp at hwrite
  split at hwrite
  · next hok =>
    obtain ⟨_, ext, hsince, hdata, hlength⟩ := hwrite
    rw [hok]
    exact ⟨ext, hsince.log, hdata ▸ List.prefix_refl _, fun _ => ⟨hdata, hlength⟩, by simp, by simp⟩
  · next herror =>
    obtain ⟨_, ⟨ext, hsince, hdata⟩, hpanic, hstuck⟩ := hwrite
    rw [herror]
    exact ⟨ext, hsince.log, hdata, fun h => (by cases h), by simpa using hpanic, by simpa using hstuck⟩

end

end OmtClient.Ssh.Channel
