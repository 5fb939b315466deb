import Mathlib.Data.List.Nodup
import OmtClient.Lib.Drive
import OmtClient.Ssh.Wire

/-!
# The SFTP upload and its acknowledgement window

`crates/omt-deploy/src/ssh/sftp.rs`: the version 3 subset an upload needs.
`upload_on` opens the remote file, pipelines WRITE requests with at most
`inFlightMax` of them unanswered, and closes the file. What comes from outside
(a chunk of the source, whether a request could be sent, a reply, whether the
operator cancelled) is one `Turn` for each pass of the loop, so a list of turns
is one order in which the server answers.

The code keeps outstanding writes by id modulo `inFlightMax`; `outstanding` is
the history it stands for: the ids of the WRITE requests sent and not yet
accepted as acknowledged.

Results:
1. `Window.accepts_outstanding`: a reply that is accepted is for an outstanding write.
2. `Window.accepts_all_iff`: every outstanding write's reply is accepted exactly
   when each is inside the window with its slot marked.
3. `Window.issue_fits`, `Window.ack_fits`: issuing into a clear slot and
   acknowledging keep every outstanding write inside the window.
-/

namespace OmtClient.Ssh.Sftp

open OmtClient.Lib Wire

/-! ## Requests and replies -/

def msgInit : Byte := 1
def msgOpen : Byte := 3
def msgClose : Byte := 4
def msgWrite : Byte := 6
def msgRemove : Byte := 13
def msgStatus : Byte := 101
/-- `FLAG_WRITE | FLAG_CREAT | FLAG_TRUNC`. -/
def openFlags : UInt32 := 0x02 ||| 0x08 ||| 0x10

/-- `CHUNK`: the most one WRITE carries. -/
def chunkMax : Nat := 32 * 1024

/-- `IN_FLIGHT`: how many WRITE requests may be unanswered. -/
def inFlightMax : Nat := 32

/-- A request as the upload builds it. -/
inductive Request
  | init (version : UInt32)
  | open (id : UInt32) (remote : Bytes)
  | write (id : UInt32) (handle : Bytes) (offset : Nat) (data : Bytes)
  | close (id : UInt32) (handle : Bytes)
  | remove (id : UInt32) (remote : Bytes)
  deriving DecidableEq, Repr

/-- The body `Sftp::send` puts behind a request's length. -/
def Request.encode : Request → Bytes
  | .init version => msgInit :: putU32 version
  | .open id remote => msgOpen :: putU32 id ++ putString remote ++ putU32 openFlags ++ putU32 0
  | .write id handle offset data =>
    msgWrite :: putU32 id ++ putString handle ++ putU64 (UInt64.ofNat offset) ++ putString data
  | .close id handle => msgClose :: putU32 id ++ putString handle
  | .remove id remote => msgRemove :: putU32 id ++ putString remote

/-- Why an upload failed. `outside` is an error of the channel, the source or
the clock, passed on as it came. -/
inductive Error
  | outside (text : String)
  | cancelled
  | noSubsystem
  | version
  | unexpected (what : String)
  | status (what : String) (message : Bytes) (code : UInt32)
  | noHandle
  | notMade
  deriving DecidableEq, Repr

/-- `Sftp::status_ok`: the reply is an OK status for request `id` (or, without
one, any request); returns the id answered. -/
def statusOk (packet : Bytes) (id : Option UInt32) (what : String) : Except Error UInt32 :=
  match u8 packet with
  | none => .error (.unexpected what)
  | some (kind, r) =>
    if kind ≠ msgStatus then .error (.unexpected what)
    else
      match u32 r with
      | none => .error (.unexpected what)
      | some (got, r) =>
        if id.all (fun id => got == id) then
          match u32 r with
          | none => .error (.unexpected what)
          | some (code, r) =>
            match string r with
            | none => .error (.unexpected what)
            | some (message, _) =>
              if code ≠ 0 then .error (.status what (message.take 200) code) else .ok got
        else .error (.unexpected what)

/-- The status reply a server sends: id, code and message (and a language tag
that is not read). -/
def statusPacket (id code : UInt32) (message tag : Bytes) : Bytes :=
  msgStatus :: putU32 id ++ putU32 code ++ putString message ++ tag

/-! ## The acknowledgement window -/

/-- The window the upload keeps: the next request id, which slots (ids modulo
`inFlightMax`) are pending, and how many writes are in flight. `outstanding` is
history: the ids sent as WRITE and not yet accepted as acknowledged. -/
structure Window where
  nextId : UInt32
  pending : List Bool
  inFlight : Nat
  outstanding : List UInt32

/-- `id % IN_FLIGHT`. -/
def slot (id : UInt32) : Nat := id.toNat % inFlightMax

/-- The window once OPEN has taken an id: nothing is in flight. -/
def Window.start (nextId : UInt32) : Window :=
  { nextId, pending := List.replicate inFlightMax false, inFlight := 0, outstanding := [] }

/-- A WRITE is issued under the next id. -/
def Window.issue (w : Window) : Window :=
  { nextId := w.nextId + 1
    pending := w.pending.set (slot w.nextId) true
    inFlight := w.inFlight + 1
    outstanding := w.outstanding ++ [w.nextId] }

/-- The test a reply's id is accepted by. -/
def Window.accepts (w : Window) (id : UInt32) : Bool :=
  !(inFlightMax < (w.nextId - id).toNat || w.nextId == id || !w.pending.getD (slot id) false)

/-- The write `id` is acknowledged. -/
def Window.ack (w : Window) (id : UInt32) : Window :=
  { w with
    pending := w.pending.set (slot id) false
    inFlight := w.inFlight - 1
    outstanding := w.outstanding.erase id }

/-- How far behind the next id an id is. -/
def Window.distance (w : Window) (id : UInt32) : Nat := (w.nextId - id).toNat

/-- What holds of the window in every run: the count is the number of
outstanding writes, and a pending slot inside the window is outstanding. -/
structure Window.Sound (w : Window) : Prop where
  slotCount : w.pending.length = inFlightMax
  count : w.inFlight = w.outstanding.length
  slots : ∀ id, 1 ≤ w.distance id → w.distance id ≤ inFlightMax → w.pending.getD (slot id) false = true →
    id ∈ w.outstanding

/-- Every outstanding write is still inside the window, its slot its own. -/
structure Window.Fits (w : Window) : Prop where
  near : ∀ id ∈ w.outstanding, 1 ≤ w.distance id ∧ w.distance id ≤ inFlightMax
  marked : ∀ id ∈ w.outstanding, w.pending.getD (slot id) false = true
  nodup : w.outstanding.Nodup

/-- Issuing the next WRITE would not take the slot of an outstanding one: the
write sent `inFlightMax` ids earlier has been answered. -/
def Window.Clear (w : Window) : Prop := ∀ id ∈ w.outstanding, w.distance id < inFlightMax

namespace WindowLemmas

theorem slot_lt (id : UInt32) : slot id < inFlightMax := Nat.mod_lt _ (by decide)

theorem distance_eq (w : Window) (id : UInt32) :
    w.distance id = (2 ^ 32 - id.toNat + w.nextId.toNat) % 2 ^ 32 := by
  simp [Window.distance, UInt32.toNat_sub]

theorem distance_issue (w : Window) (id : UInt32) (h : w.distance id < 2 ^ 32 - 1) :
    w.issue.distance id = w.distance id + 1 := by
  rw [distance_eq] at h ⊢
  rw [distance_eq]
  have h1 := w.nextId.toNat_lt
  have h2 := id.toNat_lt
  simp only [Window.issue, UInt32.toNat_add, UInt32.toNat_one]
  omega

theorem distance_of_issue (w : Window) (id : UInt32) (h : 1 ≤ w.issue.distance id) :
    w.distance id + 1 = w.issue.distance id := by
  rw [distance_eq] at h ⊢
  rw [distance_eq]
  have h1 := w.nextId.toNat_lt
  have h2 := id.toNat_lt
  simp only [Window.issue, UInt32.toNat_add, UInt32.toNat_one] at h ⊢
  omega

theorem distance_pos_iff (w : Window) (id : UInt32) : 1 ≤ w.distance id ↔ id ≠ w.nextId := by
  rw [distance_eq, ne_eq, ← UInt32.toNat_inj]
  have h1 := w.nextId.toNat_lt
  have h2 := id.toNat_lt
  omega

theorem distance_self (w : Window) : w.distance w.nextId = 0 := by
  have h := w.nextId.toNat_lt
  rw [distance_eq]
  omega

theorem distance_issue_self (w : Window) : w.issue.distance w.nextId = 1 := by
  rw [distance_issue, distance_self]
  rw [distance_self]
  decide

/-- Two ids of the window that share a slot are the same id: the window is as
wide as the slots are many. -/
theorem slot_inj {w : Window} {a b : UInt32} (ha : 1 ≤ w.distance a)
    (ha' : w.distance a ≤ inFlightMax) (hb : 1 ≤ w.distance b)
    (hb' : w.distance b ≤ inFlightMax) (h : slot a = slot b) : a = b := by
  apply UInt32.toNat_inj.mp
  have h1 := w.nextId.toNat_lt
  have h2 := a.toNat_lt
  have h3 := b.toNat_lt
  rw [distance_eq] at ha ha' hb hb'
  simp only [slot, inFlightMax] at *
  omega

theorem getD_set_self {l : List Bool} {i : Nat} {v : Bool} (h : i < l.length) :
    (l.set i v).getD i false = v := by
  simp [List.getD, h]

theorem getD_set_ne {l : List Bool} {i j : Nat} {v : Bool} (h : i ≠ j) :
    (l.set i v).getD j false = l.getD j false := by
  simp [List.getD, List.getElem?_set_ne h]

theorem accepts_iff (w : Window) (id : UInt32) :
    w.accepts id = true ↔
      1 ≤ w.distance id ∧ w.distance id ≤ inFlightMax ∧ w.pending.getD (slot id) false = true := by
  rw [distance_pos_iff, ne_comm]
  simp only [Window.accepts, Window.distance, Bool.not_eq_true', Bool.or_eq_false_iff,
    decide_eq_false_iff_not, Nat.not_lt, beq_eq_false_iff_ne, Bool.not_eq_false']
  tauto

end WindowLemmas

open WindowLemmas

theorem Window.start_sound (nextId : UInt32) : (Window.start nextId).Sound where
  slotCount := by simp [Window.start]
  count := rfl
  slots := by
    intro id _ _ h
    simp [Window.start, List.getD, slot_lt id] at h

theorem Window.start_fits (nextId : UInt32) : (Window.start nextId).Fits where
  near := by intro id h; exact absurd h List.not_mem_nil
  marked := by intro id h; exact absurd h List.not_mem_nil
  nodup := List.nodup_nil

/-- Issuing keeps the window sound, wherever the outstanding writes are: the
new id takes over its slot, and every other slot keeps its id. -/
theorem Window.issue_sound {w : Window} (h : w.Sound) : w.issue.Sound where
  slotCount := by simp [Window.issue, h.slotCount]
  count := by simp [Window.issue, h.count]
  slots := by
    intro id h1 h2 hp
    simp only [Window.issue, List.mem_append, List.mem_singleton]
    by_cases hid : id = w.nextId
    · exact .inr hid
    · have hslot : slot w.nextId ≠ slot id := by
        intro he
        exact hid (slot_inj h1 h2 (Nat.le_of_eq (distance_issue_self w).symm) (by rw [distance_issue_self]; decide)
          he.symm)
      have hp' : w.pending.getD (slot id) false = true := by
        rw [← hp]
        exact (getD_set_ne hslot).symm
      have hd := distance_of_issue w id h1
      have hpos := (distance_pos_iff w id).mpr hid
      exact .inl (h.slots id hpos (by omega) hp')

theorem Window.ack_sound {w : Window} (h : w.Sound) {id : UInt32} (ha : w.accepts id = true) :
    (w.ack id).Sound := by
  obtain ⟨h1, h2, hp⟩ := (accepts_iff w id).mp ha
  have hmem : id ∈ w.outstanding := h.slots id h1 h2 hp
  refine ⟨by simp [Window.ack, h.slotCount], ?_, ?_⟩
  · simp only [Window.ack, List.length_erase_of_mem hmem, h.count]
  · intro other o1 o2 op
    have hne : other ≠ id := by
      rintro rfl
      rw [Window.ack, getD_set_self (by rw [h.slotCount]; exact slot_lt other)] at op
      exact nomatch op
    have hslot : slot id ≠ slot other := fun he => hne (slot_inj o1 o2 h1 h2 he.symm)
    rw [Window.ack, getD_set_ne hslot] at op
    exact (List.mem_erase_of_ne hne).mpr (h.slots other o1 o2 op)

/-- A reply that is accepted is for an outstanding write. -/
theorem Window.accepts_outstanding {w : Window} (h : w.Sound) {id : UInt32}
    (ha : w.accepts id = true) : id ∈ w.outstanding := by
  obtain ⟨h1, h2, hp⟩ := (accepts_iff w id).mp ha
  exact h.slots id h1 h2 hp

/-- Every reply for an outstanding write is accepted exactly when each
outstanding write is inside the window with its slot marked. -/
theorem Window.accepts_all_iff (w : Window) :
    (∀ id ∈ w.outstanding, w.accepts id = true) ↔
      (∀ id ∈ w.outstanding, 1 ≤ w.distance id ∧ w.distance id ≤ inFlightMax) ∧
        ∀ id ∈ w.outstanding, w.pending.getD (slot id) false = true := by
  simp only [accepts_iff]
  constructor
  · intro h
    exact ⟨fun id hid => ⟨(h id hid).1, (h id hid).2.1⟩, fun id hid => (h id hid).2.2⟩
  · rintro ⟨hd, hp⟩ id hid
    exact ⟨(hd id hid).1, (hd id hid).2, hp id hid⟩

theorem Window.issue_fits {w : Window} (h : w.Sound) (hf : w.Fits) (hc : w.Clear) :
    w.issue.Fits := by
  have hnew : w.nextId ∉ w.outstanding := by
    intro hm
    have := (hf.near _ hm).1
    rw [distance_self] at this
    exact absurd this (by decide)
  have hold : ∀ id ∈ w.outstanding, w.issue.distance id = w.distance id + 1 := by
    intro id hid
    have := hc id hid
    exact distance_issue w id (by simp only [inFlightMax] at this; omega)
  refine ⟨?_, ?_, ?_⟩
  · intro id hid
    rcases List.mem_append.mp hid with hid | hid
    · rw [hold id hid]
      exact ⟨by omega, hc id hid⟩
    · rw [List.mem_singleton.mp hid, distance_issue_self]
      decide
  · intro id hid
    rcases List.mem_append.mp hid with hid | hid
    · have hslot : slot w.nextId ≠ slot id := by
        intro he
        have hd := hold id hid
        refine hnew ?_
        rw [slot_inj (w := w.issue) (Nat.le_of_eq (distance_issue_self w).symm)
          (by rw [distance_issue_self]; decide) (by omega) (by rw [hd]; exact hc id hid) he]
        exact hid
      rw [Window.issue, getD_set_ne hslot]
      exact hf.marked id hid
    · rw [List.mem_singleton.mp hid, Window.issue,
        getD_set_self (by rw [h.slotCount]; exact slot_lt _)]
  · simp only [Window.issue]
    refine List.nodup_append.mpr ⟨hf.nodup, List.nodup_singleton _, ?_⟩
    intro a ha b hb
    rw [List.mem_singleton.mp hb]
    rintro rfl
    exact hnew ha

theorem Window.ack_fits {w : Window} (hf : w.Fits) {id : UInt32} (hid : id ∈ w.outstanding) :
    (w.ack id).Fits := by
  refine ⟨fun o ho => hf.near o (List.mem_of_mem_erase ho), fun o ho => ?_, hf.nodup.erase id⟩
  have hmem := List.mem_of_mem_erase ho
  have hne : o ≠ id := fun he => hf.nodup.not_mem_erase (he ▸ ho)
  have hslot : slot id ≠ slot o := by
    intro he
    exact hne (slot_inj (hf.near o hmem).1 (hf.near o hmem).2 (hf.near id hid).1
      (hf.near id hid).2 he.symm)
  rw [Window.ack, getD_set_ne hslot]
  exact hf.marked o hmem

end OmtClient.Ssh.Sftp
