import OmtClient.Lib.Checked
import OmtClient.Receiver.Dbus

/-!
# Reading a message by its offsets

`Message::parse` and `Reader` of `crates/omt-receiver/src/dbus.rs` once more, with every
index, slice and difference checked. In `Dbus` these have a value whatever the offset is;
here they end in a fault, and so does a loop that takes more passes than the bytes it runs
over. What fits is said apart from how it is read: padding, numbers, texts, fields, arrays.

1. `parseAt_eq`: on every byte string the checked parser is at no fault and does what
   `Message.parse` does.
2. `parse_laid`: where the parts of an accepted message are.
3. `step_operates`: an operation on a body moves forward within it, and fails exactly when
   what it reads does not fit.
4. `read_in_range`: the three for every byte string and every sequence of operations.
-/

namespace OmtClient.Receiver.Dbus

open OmtClient.Lib

/-! ## The checked parser -/

def load32At (raw : Bytes) (pos : Nat) (big : Bool) : Checked UInt32 := do
  let b0 ← getAt raw pos
  let b1 ← getAt raw (pos + 1)
  let b2 ← getAt raw (pos + 2)
  let b3 ← getAt raw (pos + 3)
  let b := [b0, b1, b2, b3]
  .ok (UInt32.ofNat (if big then beNat b else leNat b))

def alignToAt (raw : Bytes) (pos stop alignment : Nat) : Checked (Bool × Nat) :=
  let aligned := nextMultiple pos alignment
  if stop < aligned then .ok (false, pos)
  else do
    let pad ← sliceAt raw pos aligned
    .ok (if pad.any (· != 0) then (false, pos) else (true, aligned))

/-- `align_to(raw, pos, end, 4) && end - *pos >= 4`. -/
def roomAt (raw : Bytes) (pos stop : Nat) : Checked (Bool × Nat) := do
  let (ok, pos) ← alignToAt raw pos stop 4
  if !ok then .ok (false, pos)
  else do
    let left ← subAt stop pos
    .ok (decide (4 ≤ left), pos)

def readLengthAt (raw : Bytes) (pos stop : Nat) (big signature : Bool) : Checked (Option Nat × Nat) :=
  if signature then .ok (readLength raw pos stop big true)
  else do
    let (ok, pos) ← roomAt raw pos stop
    if !ok then .ok (none, pos)
    else do
      let len ← load32At raw pos big
      .ok (some len.toNat, pos + 4)

/-- The text behind its length, whose first byte is at `pos`. -/
def readTextAt (raw : Bytes) (pos stop len : Nat) : Checked (Option Span × Nat) := do
  let left ← subAt stop pos
  if left ≤ len then .ok (none, pos)
  else do
    let last ← getAt raw (pos + len)
    if last != 0 then .ok (none, pos)
    else do
      let s ← sliceAt raw pos (pos + len)
      .ok (if s.contains 0 || (ofUtf8 s).isNone then (none, pos) else (some ⟨pos, pos + len⟩, pos + len + 1))

def readStrAt (raw : Bytes) (pos stop : Nat) (big signature : Bool) : Checked (Option Span × Nat) := do
  let (len, pos) ← readLengthAt raw pos stop big signature
  match len with
  | none => .ok (none, pos)
  | some len => readTextAt raw pos stop len

def messageLengthAt (data : Bytes) : Checked (Option Nat) :=
  if data.length < 16 then .ok none
  else do
    let first ← getAt data 0
    if first ≠ 108 ∧ first ≠ 66 then .ok none
    else do
      let version ← getAt data 3
      if version ≠ 1 then .ok none
      else do
        let big := first == 66
        let body ← load32At data 4 big
        let fields ← load32At data 12 big
        let total := nextMultiple (16 + fields.toNat) 8 + body.toNat
        .ok (if total ≤ maxMessage then some total else none)

/-- The text of a field, and where it ends. -/
def textFieldAt (raw : Bytes) (pos stop : Nat) (big : Bool) (code : Byte) (signature : Bool) : Checked (Option (Field × Nat)) := do
  let (s, pos) ← readStrAt raw pos stop big signature
  .ok (s.map fun s => (⟨code, .text s⟩, pos))

/-- The number of a field, and where it ends. -/
def wordFieldAt (raw : Bytes) (pos stop : Nat) (big : Bool) : Checked (Option (UInt32 × Nat)) := do
  let (ok, pos) ← roomAt raw pos stop
  if !ok then .ok none
  else do
    let v ← load32At raw pos big
    .ok (some (v, pos + 4))

/-- The value of a field, behind its signature. -/
def valueFieldAt (raw : Bytes) (pos stop : Nat) (big : Bool) (code sig : Byte) : Checked (Option (Field × Nat)) :=
  if code = fieldPath ∨ code = fieldInterface ∨ code = fieldMember ∨ code = fieldErrorName ∨
      code = fieldDestination ∨ code = fieldSender then
    if sig ≠ (if code = fieldPath then tPath else tString) then .ok none else textFieldAt raw pos stop big code false
  else if code = fieldSignature then
    if sig ≠ tSignature then .ok none else textFieldAt raw pos stop big code true
  else if code = fieldReplySerial ∨ code = fieldUnixFds then
    if sig ≠ tU32 then .ok none
    else do
      let word ← wordFieldAt raw pos stop big
      .ok (word.bind fun r => if code = fieldUnixFds ∧ r.1 ≠ 0 then none else some (⟨code, .word r.1⟩, r.2))
  else if sig = tString ∨ sig = tPath then textFieldAt raw pos stop big code false
  else if sig = tSignature then textFieldAt raw pos stop big code true
  else if sig = tU32 ∨ sig = tI32 then do
    let (ok, pos) ← roomAt raw pos stop
    .ok (if !ok then none else some (⟨code, .skipped⟩, pos + 4))
  else if sig = tByte then .ok (if stop ≤ pos then none else some (⟨code, .skipped⟩, pos + 1))
  else .ok none

def readFieldAt (raw : Bytes) (pos stop : Nat) (big : Bool) : Checked (Option (Field × Nat)) := do
  let (ok, pos) ← alignToAt raw pos stop 8
  if !ok || stop ≤ pos then .ok none
  else do
    let code ← getAt raw pos
    let (sig, pos) ← readStrAt raw (pos + 1) stop big true
    match sig with
    | none => .ok none
    | some sig =>
      if sig.stop - sig.start ≠ 1 then .ok none
      else do
        let sig ← getAt raw sig.start
        valueFieldAt raw pos stop big code sig

def readFieldsAt (raw : Bytes) (stop : Nat) (big : Bool) : Nat → Nat → Checked (Option (List Field))
  | 0, pos => if pos < stop then .error .endless else .ok (some [])
  | passes + 1, pos =>
    if pos < stop then do
      let field ← readFieldAt raw pos stop big
      match field with
      | none => .ok none
      | some (f, pos) => do
        let fields ← readFieldsAt raw stop big passes pos
        .ok (fields.map (f :: ·))
    else .ok (some [])

def Message.parseAt (raw : Bytes) : Checked (Option Message) := do
  let length ← messageLengthAt raw
  match length with
  | none => .ok none
  | some total =>
    if total ≠ raw.length then .ok none
    else do
      let first ← getAt raw 0
      let kind ← getAt raw 1
      let big := first == 66
      let serial ← load32At raw 8 big
      if ¬ (1 ≤ kind ∧ kind ≤ 4) ∨ serial = 0 then .ok none
      else do
        let fieldsLen ← load32At raw 12 big
        let stop := 16 + fieldsLen.toNat
        let fields ← readFieldsAt raw stop big fieldsLen.toNat 16
        match fields with
        | none => .ok none
        | some fields =>
          let body := nextMultiple stop 8
          if raw.length < body then .ok none
          else do
            let pad ← sliceAt raw stop body
            .ok (if pad.any (· != 0) then none
              else some (fields.foldl Message.keep
                ⟨raw, big, kind, serial, 0, none, none, none, none, ⟨body, raw.length⟩⟩))

/-- `text`, with the slice of the message checked. -/
def Message.textAt (m : Message) (r : Option Span) : Checked (Option String) :=
  match r with
  | none => .ok none
  | some r => do
    let s ← sliceAt m.raw r.start r.stop
    .ok (ofUtf8 s)

/-! ## The checked reader -/

namespace Reader

def alignAt (r : Reader) (n : Nat) : Checked (Bool × Reader) :=
  if r.failed then .ok (false, r)
  else do
    let (ok, pos) ← alignToAt r.m.raw r.pos r.stop n
    .ok (ok, { r with pos, failed := !ok })

def u32At (r : Reader) : Checked (UInt32 × Reader) := do
  let (ok, r) ← r.alignAt 4
  if !ok then .ok (0, { r with failed := true })
  else do
    let left ← subAt r.stop r.pos
    if left < 4 then .ok (0, { r with failed := true })
    else do
      let v ← load32At r.m.raw r.pos r.m.bigEndian
      .ok (v, { r with pos := r.pos + 4 })

def i32At (r : Reader) : Checked (Int32 × Reader) := do
  let (v, r) ← r.u32At
  .ok (v.toInt32, r)

def u16At (r : Reader) : Checked (UInt16 × Reader) := do
  let (ok, r) ← r.alignAt 2
  if !ok then .ok (0, { r with failed := true })
  else do
    let left ← subAt r.stop r.pos
    if left < 2 then .ok (0, { r with failed := true })
    else do
      let b0 ← getAt r.m.raw r.pos
      let b1 ← getAt r.m.raw (r.pos + 1)
      let b := [b0, b1]
      .ok (UInt16.ofNat (if r.m.bigEndian then beNat b else leNat b), { r with pos := r.pos + 2 })

def boolAt (r : Reader) : Checked (Bool × Reader) := do
  let (v, r) ← r.u32At
  .ok (v == 1, if v > 1 then { r with failed := true } else r)

def stringAt (r : Reader) : Checked (String × Reader) :=
  if r.failed then .ok ("", r)
  else do
    let (span, pos) ← readStrAt r.m.raw r.pos r.stop r.m.bigEndian false
    match span with
    | none => .ok ("", { r with pos, failed := true })
    | some s => do
      let text ← sliceAt r.m.raw s.start s.stop
      .ok ((ofUtf8 text).getD "", { r with pos })

def skipInnerAt (stop : Nat) : Nat → Reader → Checked Reader
  | 0, _ => .error .endless
  | passes + 1, r =>
    if r.pos < stop ∧ r.failed = false then do
      let (inner, r) ← r.u32At
      if r.failed || stop - r.pos < inner.toNat then .ok { r with failed := true }
      else skipInnerAt stop passes { r with pos := r.pos + inner.toNat }
    else .ok (if r.pos ≠ stop then { r with failed := true } else r)

def skipAayAt (r : Reader) : Checked Reader := do
  let (outer, r) ← r.u32At
  if r.failed then .ok r
  else do
    let (ok, r) ← r.alignAt 4
    if !ok then .ok r
    else do
      let left ← subAt r.stop r.pos
      if left < outer.toNat then .ok { r with failed := true }
      else skipInnerAt (r.pos + outer.toNat) (outer.toNat + 1) r

end Reader

/-- An operation of the reader. -/
inductive BodyOp
  | u32
  | i32
  | u16
  | bool
  | string
  | skipAay
  deriving DecidableEq, Repr

/-- What an operation returns. -/
inductive BodyItem
  | u32 (v : UInt32)
  | i32 (v : Int32)
  | u16 (v : UInt16)
  | bool (v : Bool)
  | string (v : String)
  | skipped
  deriving DecidableEq

def BodyOp.step (r : Reader) : BodyOp → BodyItem × Reader
  | .u32 => (.u32 r.u32.1, r.u32.2)
  | .i32 => (.i32 r.i32.1, r.i32.2)
  | .u16 => (.u16 r.u16.1, r.u16.2)
  | .bool => (.bool r.bool.1, r.bool.2)
  | .string => (.string r.string.1, r.string.2)
  | .skipAay => (.skipped, r.skipAay)

def BodyOp.stepAt (r : Reader) : BodyOp → Checked (BodyItem × Reader)
  | .u32 => r.u32At.map fun p => (.u32 p.1, p.2)
  | .i32 => r.i32At.map fun p => (.i32 p.1, p.2)
  | .u16 => r.u16At.map fun p => (.u16 p.1, p.2)
  | .bool => r.boolAt.map fun p => (.bool p.1, p.2)
  | .string => r.stringAt.map fun p => (.string p.1, p.2)
  | .skipAay => r.skipAayAt.map fun r => (.skipped, r)

/-- The value after a failure. -/
def BodyOp.zero : BodyOp → BodyItem
  | .u32 => .u32 0
  | .i32 => .i32 0
  | .u16 => .u16 0
  | .bool => .bool false
  | .string => .string ""
  | .skipAay => .skipped

/-- Operations one after the other. -/
def readBody (r : Reader) : List BodyOp → List BodyItem × Reader
  | [] => ([], r)
  | op :: ops =>
    let (item, r) := op.step r
    let (items, r) := readBody r ops
    (item :: items, r)

def readBodyAt (r : Reader) : List BodyOp → Checked (List BodyItem × Reader)
  | [] => .ok ([], r)
  | op :: ops => do
    let (item, r) ← op.stepAt r
    let (items, r) ← readBodyAt r ops
    .ok (item :: items, r)

/-! ## What fits -/

/-- Zeros up to the next aligned position, which is within the limit. -/
structure Padded (raw : Bytes) (stop alignment pos next : Nat) : Prop where
  aligned : next = nextMultiple pos alignment
  within : next ≤ stop
  zero : ∀ i, pos ≤ i → i < next → raw.getD i 0 = 0

/-- A number of `size` bytes that starts at the aligned position `start`. -/
structure Word (raw : Bytes) (stop size pos start : Nat) : Prop where
  padded : Padded raw stop size pos start
  within : start + size ≤ stop

/-- A text of `len` bytes, with the null byte behind it and none in it. -/
structure Text (raw : Bytes) (stop start len : Nat) : Prop where
  within : start + len < stop
  ended : raw.getD (start + len) 0 = 0
  clean : 0 ∉ (raw.drop start).take len
  valid : (ofUtf8 ((raw.drop start).take len)).isSome = true

/-- The length in front of a text, and where the text starts. -/
inductive Length (raw : Bytes) (big : Bool) (stop : Nat) : Bool → Nat → Nat → Nat → Prop
  | text {pos start : Nat} (hword : Word raw stop 4 pos start) :
      Length raw big stop false pos (load32 raw start big).toNat (start + 4)
  | signature {pos : Nat} (hin : pos < stop) : Length raw big stop true pos (raw.getD pos 0).toNat (pos + 1)

/-- A text behind its length, where it stands, and the position after it. -/
inductive Str (raw : Bytes) (big : Bool) (stop : Nat) : Bool → Nat → Span → Nat → Prop
  | mk {signature : Bool} {pos start len : Nat} (hlen : Length raw big stop signature pos len start)
      (htext : Text raw stop start len) : Str raw big stop signature pos ⟨start, start + len⟩ (start + len + 1)

/-- The value of a header field, as its signature says. -/
inductive ValueFits (raw : Bytes) (big : Bool) (stop : Nat) : Byte → Nat → Value → Nat → Prop
  | text {sig : Byte} {pos next : Nat} {s : Span} (hsig : sig = tString ∨ sig = tPath) (h : Str raw big stop false pos s next) :
      ValueFits raw big stop sig pos (.text s) next
  | signature {pos next : Nat} {s : Span} (h : Str raw big stop true pos s next) :
      ValueFits raw big stop tSignature pos (.text s) next
  | word {pos start : Nat} (h : Word raw stop 4 pos start) :
      ValueFits raw big stop tU32 pos (.word (load32 raw start big)) (start + 4)
  | number {sig : Byte} {pos start : Nat} (hsig : sig = tU32 ∨ sig = tI32) (h : Word raw stop 4 pos start) :
      ValueFits raw big stop sig pos .skipped (start + 4)
  | byte {pos : Nat} (h : pos < stop) : ValueFits raw big stop tByte pos .skipped (pos + 1)

/-- A header field: its code at an aligned position, a signature of one character, its value. -/
inductive FieldFits (raw : Bytes) (big : Bool) (stop : Nat) : Nat → Field → Nat → Prop
  | mk {pos start mid next : Nat} {sig : Span} {v : Value} (hpad : Padded raw stop 8 pos start) (hin : start < stop)
      (hsig : Str raw big stop true (start + 1) sig mid) (hone : sig.stop = sig.start + 1)
      (hvalue : ValueFits raw big stop (raw.getD sig.start 0) mid v next) :
      FieldFits raw big stop pos ⟨raw.getD start 0, v⟩ next

/-- The header fields, up to the end of their array. -/
inductive FieldsFit (raw : Bytes) (big : Bool) (stop : Nat) : Nat → List Field → Prop
  | done : FieldsFit raw big stop stop []
  | field {pos next : Nat} {f : Field} {fs : List Field} (hpos : pos < stop) (h : FieldFits raw big stop pos f next)
      (rest : FieldsFit raw big stop next fs) : FieldsFit raw big stop pos (f :: fs)

/-- The inner arrays of an array of byte arrays, up to its end. -/
inductive InnerFit (raw : Bytes) (big : Bool) (stop last : Nat) : Nat → Prop
  | done : InnerFit raw big stop last last
  | array {pos start : Nat} (hpos : pos < last) (hword : Word raw stop 4 pos start)
      (hlen : start + 4 + (load32 raw start big).toNat ≤ last)
      (rest : InnerFit raw big stop last (start + 4 + (load32 raw start big).toNat)) : InnerFit raw big stop last pos

/-- What an operation reads is there, and ends at `next`. -/
def BodyOp.Fits (r : Reader) (next : Nat) : BodyOp → Prop
  | .u32 | .i32 => ∃ start, Word r.m.raw r.stop 4 r.pos start ∧ next = start + 4
  | .u16 => ∃ start, Word r.m.raw r.stop 2 r.pos start ∧ next = start + 2
  | .bool => ∃ start, Word r.m.raw r.stop 4 r.pos start ∧ load32 r.m.raw start r.m.bigEndian ≤ 1 ∧ next = start + 4
  | .string => ∃ s, Str r.m.raw r.m.bigEndian r.stop false r.pos s next
  | .skipAay => ∃ start, Word r.m.raw r.stop 4 r.pos start ∧
      next = start + 4 + (load32 r.m.raw start r.m.bigEndian).toNat ∧ next ≤ r.stop ∧
      InnerFit r.m.raw r.m.bigEndian r.stop next (start + 4)

/-- What the header of a message says, and where its parts are. -/
structure Laid (raw : Bytes) (m : Message) : Prop where
  raw_eq : m.raw = raw
  small : raw.length ≤ maxMessage
  length_eq : raw.length = m.body.start + (load32 raw 4 m.bigEndian).toNat
  body_stop : m.body.stop = raw.length
  padded : Padded raw raw.length 8 (16 + (load32 raw 12 m.bigEndian).toNat) m.body.start
  fields : ∃ fs m₀, FieldsFit raw m.bigEndian (16 + (load32 raw 12 m.bigEndian).toNat) 16 fs ∧
    m₀.path = none ∧ m₀.interface = none ∧ m₀.member = none ∧ m₀.signature = none ∧ m = fs.foldl Message.keep m₀

/-- The texts that a message keeps. -/
def Message.spans (m : Message) : List Span := [m.path, m.interface, m.member, m.signature].filterMap id

/-- A cursor that moves from `pos` and reads what fits, within the limit and at no fault. -/
structure Reads {α : Type} (out : Option α × Nat) (checked : Checked (Option α × Nat)) (pos stop : Nat)
    (fits : α → Nat → Prop) : Prop where
  checked_eq : checked = .ok out
  ge : pos ≤ out.2
  le : out.2 ≤ stop
  fits_iff : ∀ a next, out = (some a, next) ↔ fits a next

/-- A reader whose position is within a body that is within the message. -/
structure InBody (r : Reader) : Prop where
  pos_le : r.pos ≤ r.stop
  stop_le : r.stop ≤ r.m.raw.length

/-- An operation on a reader: it is at no fault, moves forward within the body, fails exactly
when what it reads does not fit, and then returns the zero value; a reader that has failed
stays as it is. -/
structure Operates {α : Type} (r : Reader) (checked : Checked (α × Reader)) (out : α × Reader) (zero : α)
    (fits : Nat → Prop) : Prop where
  checked_eq : checked = .ok out
  m_eq : out.2.m = r.m
  stop_eq : out.2.stop = r.stop
  ge : r.pos ≤ out.2.pos
  le : out.2.pos ≤ r.stop
  kept : r.failed = true → out = (zero, r)
  zero_of : out.2.failed = true → out.1 = zero
  fits_iff : r.failed = false → ∀ next, (out.2.failed = false ∧ out.2.pos = next) ↔ fits next

namespace DbusIndexLemmas

variable {raw : Bytes} {pos stop next n len : Nat} {big signature : Bool}

/-! ## The cursors -/

theorem any_nonzero (raw : Bytes) (a b : Nat) :
    ((raw.take b).drop a).any (· != 0) = false ↔ ∀ i, a ≤ i → i < b → raw.getD i 0 = 0 := by
  have hat (k : Nat) : ((raw.take b).drop a)[k]? = if a + k < b then raw[a + k]? else none := by
    rw [List.getElem?_drop, List.getElem?_take]
  rw [List.any_eq_false]
  constructor
  · intro h i hi hb
    rw [List.getD_eq_getElem?_getD]
    cases hx : raw[i]? with
    | none => rfl
    | some x =>
      have hget := hat (i - a)
      rw [Nat.add_sub_cancel' hi, if_pos hb, hx] at hget
      simpa using h x (List.mem_of_getElem? hget)
  · intro h x hx
    obtain ⟨k, hk⟩ := List.mem_iff_getElem?.mp hx
    rw [hat] at hk
    split at hk
    next hb =>
      have hzero := h (a + k) (Nat.le_add_right a k) hb
      rw [List.getD_eq_getElem?_getD, hk] at hzero
      simpa using hzero
    next => cases hk

theorem alignTo_cases (raw : Bytes) (pos stop n : Nat) :
    (∃ next, alignTo raw pos stop n = (true, next) ∧ Padded raw stop n pos next) ∨
      (alignTo raw pos stop n = (false, pos) ∧ ∀ next, ¬ Padded raw stop n pos next) := by
  unfold alignTo
  by_cases hstop : stop < nextMultiple pos n
  · rw [if_pos hstop]
    refine .inr ⟨rfl, ?_⟩
    rintro next ⟨rfl, hwithin, -⟩
    exact Nat.lt_irrefl _ (Nat.lt_of_lt_of_le hstop hwithin)
  rw [if_neg hstop]
  by_cases hzero : ((raw.take (nextMultiple pos n)).drop pos).any (· != 0) = true
  · rw [if_pos hzero]
    refine .inr ⟨rfl, ?_⟩
    rintro next ⟨rfl, -, hz⟩
    rw [(any_nonzero raw pos _).mpr hz] at hzero
    cases hzero
  · rw [if_neg hzero]
    exact .inl ⟨_, rfl, rfl, Nat.le_of_not_lt hstop, (any_nonzero raw pos _).mp (Bool.eq_false_iff.mpr hzero)⟩

theorem padded_le (h : Padded raw stop n pos next) : pos ≤ next := by
  rw [h.aligned]
  exact le_nextMultiple pos n

theorem alignToAt_eq (hstop : stop ≤ raw.length) (n : Nat) :
    alignToAt raw pos stop n = .ok (alignTo raw pos stop n) := by
  unfold alignToAt alignTo
  by_cases haligned : stop < nextMultiple pos n
  · rw [if_pos haligned, if_pos haligned]
  · rw [if_neg haligned, if_neg haligned, sliceAt_ok (le_nextMultiple pos n) (by omega)]
    rfl

theorem load32At_eq (h : pos + 4 ≤ raw.length) (big : Bool) : load32At raw pos big = .ok (load32 raw pos big) := by
  unfold load32At load32
  rw [getAt_ok (by omega), getAt_ok (by omega), getAt_ok (by omega), getAt_ok (by omega), drop_take_four h]
  rfl

theorem word_ge (h : Word raw stop n pos next) : pos ≤ next := padded_le h.padded

theorem word_unique {next' : Nat} (h : Word raw stop n pos next) (h' : Word raw stop n pos next') : next = next' := by
  rw [h.padded.aligned, h'.padded.aligned]

/-- A number that is there is found; one that is not leaves the cursor within the limit. -/
theorem word_cases (hpos : pos ≤ stop) (raw : Bytes) (n : Nat) :
    (∃ start, alignTo raw pos stop n = (true, start) ∧ ¬ stop - start < n ∧ Word raw stop n pos start) ∨
      ∃ ok p, alignTo raw pos stop n = (ok, p) ∧ (ok = false ∨ stop - p < n) ∧ pos ≤ p ∧ p ≤ stop ∧
        ∀ start, ¬ Word raw stop n pos start := by
  rcases alignTo_cases raw pos stop n with ⟨next, halign, hpad⟩ | ⟨halign, hnone⟩
  · have hwithin := hpad.within
    by_cases hroom : stop - next < n
    · refine .inr ⟨true, next, halign, .inr hroom, padded_le hpad, hwithin, ?_⟩
      intro start hword
      have hstart := hword.within
      rw [hword.padded.aligned, ← hpad.aligned] at hstart
      omega
    · exact .inl ⟨next, halign, hroom, hpad, by omega⟩
  · exact .inr ⟨false, pos, halign, .inl rfl, Nat.le_refl pos, hpos, fun start hword => absurd hword.padded (hnone start)⟩

theorem roomAt_eq (hstop : stop ≤ raw.length) :
    roomAt raw pos stop =
      .ok ((alignTo raw pos stop 4).1 && decide (4 ≤ stop - (alignTo raw pos stop 4).2), (alignTo raw pos stop 4).2) := by
  unfold roomAt
  rw [alignToAt_eq hstop]
  rcases alignTo_cases raw pos stop 4 with ⟨next, halign, hpad⟩ | ⟨halign, -⟩
  · rw [halign]
    show (do let left ← subAt stop next; Except.ok (decide (4 ≤ left), next)) = _
    rw [subAt_ok hpad.within]
    rfl
  · rw [halign]
    rfl

theorem readLength_reads (hpos : pos ≤ stop) (hstop : stop ≤ raw.length) (big signature : Bool) :
    Reads (readLength raw pos stop big signature) (readLengthAt raw pos stop big signature) pos stop
      (Length raw big stop signature pos) := by
  cases signature with
  | true =>
    unfold readLengthAt readLength
    rw [if_pos rfl, if_pos rfl]
    by_cases hin : pos < stop
    · have hget : raw[pos]? = some (raw.getD pos 0) := by
        rw [List.getD_eq_getElem?_getD, List.getElem?_eq_getElem (Nat.lt_of_lt_of_le hin hstop)]
        rfl
      rw [hget, Option.filter_some, if_pos (decide_eq_true hin)]
      refine ⟨rfl, Nat.le_succ pos, hin, ?_⟩
      intro len start
      constructor
      · rintro ⟨⟩
        exact .signature hin
      · rintro ⟨⟩
        rfl
    · have hnone : (raw[pos]?.filter fun _ => decide (pos < stop)) = none := by
        rw [decide_eq_false hin]
        cases raw[pos]? <;> rfl
      rw [hnone]
      refine ⟨rfl, Nat.le_refl pos, hpos, ?_⟩
      intro len start
      constructor
      · rintro ⟨⟩
      · rintro ⟨⟩
        contradiction
  | false =>
    unfold readLengthAt readLength
    rw [if_neg Bool.false_ne_true, if_neg Bool.false_ne_true, roomAt_eq hstop]
    rcases word_cases hpos raw 4 with ⟨start, halign, hroom, hword⟩ | ⟨ok, p, halign, hroom, hge, hle, hnone⟩
    · have hfour : 4 ≤ stop - start := by omega
      have hin := hword.within
      rw [halign]
      dsimp only [Bind.bind, Except.bind]
      rw [decide_eq_true hfour, decide_eq_false hroom, load32At_eq (by omega)]
      refine ⟨rfl, Nat.le_trans (word_ge hword) (Nat.le_add_right start 4), hin, ?_⟩
      intro len next
      constructor
      · rintro ⟨⟩
        exact .text hword
      · intro h
        cases h with
        | text hword' =>
          rw [word_unique hword hword']
          rfl
    · have hfalse : (ok && decide (4 ≤ stop - p)) = false := by
        rcases hroom with rfl | hroom
        · rfl
        · rw [decide_eq_false (by omega), Bool.and_false]
      have htrue : (!ok || decide (stop - p < 4)) = true := by
        rcases hroom with rfl | hroom
        · rfl
        · rw [decide_eq_true hroom, Bool.or_true]
      rw [halign]
      dsimp only [Bind.bind, Except.bind]
      rw [hfalse, htrue]
      refine ⟨rfl, hge, hle, ?_⟩
      intro len next
      constructor
      · rintro ⟨⟩
      · intro h
        cases h with
        | text hword => exact absurd hword (hnone _)

/-- The text behind a length that was read: what `readStr` does from there. -/
theorem readText_reads (hpos : pos ≤ stop) (hstop : stop ≤ raw.length) (len : Nat) :
    ∃ out, readTextAt raw pos stop len = .ok out ∧ pos ≤ out.2 ∧ out.2 ≤ stop ∧
      (if stop - pos ≤ len || raw.getD (pos + len) 0 != 0 then (none, pos)
        else if ((raw.drop pos).take len).contains 0 || (ofUtf8 ((raw.drop pos).take len)).isNone then (none, pos)
        else (some ⟨pos, pos + len⟩, pos + len + 1)) = out ∧
      (out = (some ⟨pos, pos + len⟩, pos + len + 1) ∧ Text raw stop pos len ∨
        out = (none, pos) ∧ ¬ Text raw stop pos len) := by
  unfold readTextAt
  rw [subAt_ok hpos]
  dsimp only [Bind.bind, Except.bind]
  by_cases hroom : stop - pos ≤ len
  · rw [if_pos hroom, decide_eq_true hroom]
    refine ⟨_, rfl, Nat.le_refl pos, hpos, rfl, .inr ⟨rfl, ?_⟩⟩
    intro h
    have hwithin := h.within
    omega
  rw [if_neg hroom, decide_eq_false hroom, getAt_ok (by omega)]
  dsimp only
  by_cases hended : (raw.getD (pos + len) 0 != 0) = true
  · rw [if_pos hended, hended]
    refine ⟨_, rfl, Nat.le_refl pos, hpos, rfl, .inr ⟨rfl, ?_⟩⟩
    intro h
    rw [h.ended] at hended
    cases hended
  have hslice : (raw.take (pos + len)).drop pos = (raw.drop pos).take len := by
    rw [List.drop_take, Nat.add_sub_cancel_left]
  rw [if_neg hended, Bool.eq_false_iff.mpr hended, sliceAt_ok (Nat.le_add_right pos len) (by omega), hslice]
  dsimp only
  by_cases hbad : (((raw.drop pos).take len).contains 0 || (ofUtf8 ((raw.drop pos).take len)).isNone) = true
  · rw [if_pos hbad]
    refine ⟨_, rfl, Nat.le_refl pos, hpos, rfl, .inr ⟨rfl, ?_⟩⟩
    intro h
    rcases Bool.or_eq_true_iff.mp hbad with hnul | hinvalid
    · exact h.clean (List.contains_iff_mem.mp hnul)
    · rw [← Option.not_isSome, h.valid] at hinvalid
      cases hinvalid
  · rw [if_neg hbad]
    obtain ⟨hnul, hinvalid⟩ := Bool.or_eq_false_iff.mp (Bool.eq_false_iff.mpr hbad)
    refine ⟨_, rfl, by omega, by omega, rfl, .inl ⟨rfl, by omega, ?_, ?_, ?_⟩⟩
    · simpa using hended
    · exact fun hmem => Bool.eq_false_iff.mp hnul (List.contains_iff_mem.mpr hmem)
    · rw [← Option.not_isNone, hinvalid]
      rfl

theorem readStr_reads (hpos : pos ≤ stop) (hstop : stop ≤ raw.length) (big signature : Bool) :
    Reads (readStr raw pos stop big signature) (readStrAt raw pos stop big signature) pos stop
      (Str raw big stop signature pos) := by
  have hlength := readLength_reads hpos hstop big signature
  unfold readStrAt readStr
  rw [hlength.checked_eq]
  dsimp only [Bind.bind, Except.bind]
  have hge := hlength.ge
  have hle := hlength.le
  cases hout : readLength raw pos stop big signature with
  | mk found p =>
    rw [hout] at hge hle
    cases found with
    | none =>
      refine ⟨rfl, hge, hle, ?_⟩
      intro s next
      constructor
      · rintro ⟨⟩
      · rintro ⟨hlen, -⟩
        rw [(hlength.fits_iff _ _).mpr hlen] at hout
        cases hout
    | some len =>
      obtain ⟨out, hchecked, hge', hle', hplain, hcases⟩ := readText_reads hle hstop len
      dsimp only
      rw [hplain]
      refine ⟨hchecked, Nat.le_trans hge hge', hle', ?_⟩
      intro s next
      constructor
      · intro h
        rcases hcases with ⟨rfl, htext⟩ | ⟨rfl, -⟩
        · cases h
          exact .mk ((hlength.fits_iff _ _).mp hout) htext
        · cases h
      · rintro ⟨hlen, htext⟩
        have hsame := (hlength.fits_iff _ _).mpr hlen
        rw [hout] at hsame
        cases hsame
        rcases hcases with ⟨rfl, -⟩ | ⟨-, hno⟩
        · rfl
        · exact absurd htext hno

theorem str_next {s : Span} (h : Str raw big stop signature pos s next) :
    pos < s.start ∧ s.start ≤ s.stop ∧ s.stop < next ∧ next ≤ stop := by
  cases h with
  | mk hlen htext =>
    have hwithin := htext.within
    cases hlen with
    | text hword =>
      have hge := word_ge hword
      exact ⟨Nat.lt_of_le_of_lt hge (Nat.lt_add_of_pos_right (by decide)), Nat.le_add_right _ _, Nat.lt_succ_self _, hwithin⟩
    | signature hin => exact ⟨Nat.lt_succ_self _, Nat.le_add_right _ _, Nat.lt_succ_self _, hwithin⟩

/-! ## Header fields -/

/-- A part of `parse` that returns what it read and where it ends. -/
structure Finds {α : Type} (out : Option (α × Nat)) (checked : Checked (Option (α × Nat))) (fits : α → Nat → Prop) :
    Prop where
  checked_eq : checked = .ok out
  fits_of : ∀ a next, out = some (a, next) → fits a next

/-- The text of a field. -/
def textField (raw : Bytes) (pos stop : Nat) (big : Bool) (code : Byte) (signature : Bool) : Option (Field × Nat) :=
  match readStr raw pos stop big signature with
  | (none, _) => none
  | (some s, pos) => some ((⟨code, .text s⟩ : Field), pos)

/-- The number of a field. -/
def wordField (raw : Bytes) (pos stop : Nat) (big : Bool) : Option (UInt32 × Nat) :=
  let (ok, pos) := alignTo raw pos stop 4
  if !ok || stop - pos < 4 then none else some (load32 raw pos big, pos + 4)

/-- What `readField` does behind the signature. -/
def valueField (raw : Bytes) (pos stop : Nat) (big : Bool) (code sig : Byte) : Option (Field × Nat) :=
  if code = fieldPath ∨ code = fieldInterface ∨ code = fieldMember ∨ code = fieldErrorName ∨
      code = fieldDestination ∨ code = fieldSender then
    if sig ≠ (if code = fieldPath then tPath else tString) then none else textField raw pos stop big code false
  else if code = fieldSignature then
    if sig ≠ tSignature then none else textField raw pos stop big code true
  else if code = fieldReplySerial ∨ code = fieldUnixFds then
    if sig ≠ tU32 then none
    else
      match wordField raw pos stop big with
      | none => none
      | some (v, pos) => if code = fieldUnixFds ∧ v ≠ 0 then none else some (⟨code, .word v⟩, pos)
  else if sig = tString ∨ sig = tPath then textField raw pos stop big code false
  else if sig = tSignature then textField raw pos stop big code true
  else if sig = tU32 ∨ sig = tI32 then (wordField raw pos stop big).map fun r => (⟨code, .skipped⟩, r.2)
  else if sig = tByte then if stop ≤ pos then none else some (⟨code, .skipped⟩, pos + 1)
  else none

theorem readField_eq (raw : Bytes) (pos stop : Nat) (big : Bool) : readField raw pos stop big =
    if !(alignTo raw pos stop 8).1 || stop ≤ (alignTo raw pos stop 8).2 then none
    else
      match readStr raw ((alignTo raw pos stop 8).2 + 1) stop big true with
      | (none, _) => none
      | (some sig, p) =>
        if sig.stop - sig.start ≠ 1 then none
        else valueField raw p stop big (raw.getD (alignTo raw pos stop 8).2 0) (raw.getD sig.start 0) := rfl

theorem textField_finds (hpos : pos ≤ stop) (hstop : stop ≤ raw.length) (big : Bool) (code : Byte) (signature : Bool) :
    Finds (textField raw pos stop big code signature) (textFieldAt raw pos stop big code signature)
      fun f next => f.code = code ∧ ∃ s, f.value = .text s ∧ Str raw big stop signature pos s next := by
  have hread := readStr_reads hpos hstop big signature
  unfold textField textFieldAt
  rw [hread.checked_eq]
  cases hout : readStr raw pos stop big signature with
  | mk found p =>
    cases found with
    | none =>
      refine ⟨rfl, ?_⟩
      rintro f next ⟨⟩
    | some s =>
      refine ⟨rfl, ?_⟩
      rintro f next ⟨⟩
      exact ⟨rfl, s, rfl, (hread.fits_iff s p).mp hout⟩

theorem wordField_finds (hpos : pos ≤ stop) (hstop : stop ≤ raw.length) (big : Bool) :
    Finds (wordField raw pos stop big) (wordFieldAt raw pos stop big)
      fun v next => ∃ start, Word raw stop 4 pos start ∧ v = load32 raw start big ∧ next = start + 4 := by
  unfold wordField wordFieldAt
  rw [roomAt_eq hstop]
  rcases word_cases hpos raw 4 with ⟨start, halign, hroom, hword⟩ | ⟨ok, p, halign, hroom, -, -, -⟩
  · have hin := hword.within
    rw [halign]
    dsimp only [Bind.bind, Except.bind]
    rw [decide_eq_true (by omega : 4 ≤ stop - start), decide_eq_false hroom, load32At_eq (by omega)]
    refine ⟨rfl, ?_⟩
    rintro v next ⟨⟩
    exact ⟨start, hword, rfl, rfl⟩
  · rw [halign]
    dsimp only [Bind.bind, Except.bind]
    rcases hroom with rfl | hroom
    · refine ⟨rfl, ?_⟩
      rintro v next ⟨⟩
    · rw [decide_eq_true hroom, decide_eq_false (by omega), Bool.and_false, Bool.or_true]
      refine ⟨rfl, ?_⟩
      rintro v next ⟨⟩

/-- The place of a number in a value that is skipped. -/
theorem numberAt_eq (hpos : pos ≤ stop) (hstop : stop ≤ raw.length) (big : Bool) (f : Field) :
    (do
      let (ok, pos) ← roomAt raw pos stop
      .ok (if !ok then none else some (f, pos + 4)) : Checked (Option (Field × Nat))) =
      .ok ((wordField raw pos stop big).map fun r => (f, r.2)) := by
  unfold wordField
  rw [roomAt_eq hstop]
  rcases word_cases hpos raw 4 with ⟨start, halign, hroom, -⟩ | ⟨ok, p, halign, hroom, -, -, -⟩
  · rw [halign]
    dsimp only [Bind.bind, Except.bind]
    rw [decide_eq_true (by omega : 4 ≤ stop - start), decide_eq_false hroom]
    rfl
  · rw [halign]
    dsimp only [Bind.bind, Except.bind]
    rcases hroom with rfl | hroom
    · rfl
    · rw [decide_eq_true hroom, decide_eq_false (by omega), Bool.and_false, Bool.or_true]
      rfl

theorem valueFieldAt_eq (hpos : pos ≤ stop) (hstop : stop ≤ raw.length) (big : Bool) (code sig : Byte) :
    valueFieldAt raw pos stop big code sig = .ok (valueField raw pos stop big code sig) := by
  unfold valueFieldAt valueField
  rw [(textField_finds hpos hstop big code false).checked_eq, (textField_finds hpos hstop big code true).checked_eq,
    (wordField_finds hpos hstop big).checked_eq, numberAt_eq hpos hstop big]
  simp only [apply_ite (Except.ok (ε := Fault))]
  refine if_congr Iff.rfl rfl (if_congr Iff.rfl rfl (if_congr Iff.rfl (if_congr Iff.rfl rfl ?_) rfl))
  cases wordField raw pos stop big with
  | none => rfl
  | some r => rfl

theorem valueField_fits (hpos : pos ≤ stop) (hstop : stop ≤ raw.length) {code sig : Byte} {f : Field}
    (h : valueField raw pos stop big code sig = some (f, next)) :
    f.code = code ∧ ValueFits raw big stop sig pos f.value next := by
  have htext {sig : Byte} (hsig : sig = tString ∨ sig = tPath) (h : textField raw pos stop big code false = some (f, next)) :
      f.code = code ∧ ValueFits raw big stop sig pos f.value next := by
    obtain ⟨hcode, s, hvalue, hstr⟩ := (textField_finds hpos hstop big code false).fits_of f next h
    exact ⟨hcode, hvalue ▸ .text hsig hstr⟩
  have hsignature (h : textField raw pos stop big code true = some (f, next)) :
      f.code = code ∧ ValueFits raw big stop tSignature pos f.value next := by
    obtain ⟨hcode, s, hvalue, hstr⟩ := (textField_finds hpos hstop big code true).fits_of f next h
    exact ⟨hcode, hvalue ▸ .signature hstr⟩
  unfold valueField at h
  have hwant : (if code = fieldPath then tPath else tString) = tString ∨ (if code = fieldPath then tPath else tString) = tPath := by
    split
    · exact .inr rfl
    · exact .inl rfl
  generalize (if code = fieldPath then tPath else tString) = want at h hwant
  split at h
  · split at h
    · cases h
    next hsig => exact htext (Decidable.not_not.mp hsig ▸ hwant) h
  split at h
  · split at h
    · cases h
    next hsig =>
      cases Decidable.not_not.mp hsig
      exact hsignature h
  split at h
  · split at h
    · cases h
    next hsig =>
      cases Decidable.not_not.mp hsig
      cases hword : wordField raw pos stop big with
      | none =>
        rw [hword] at h
        cases h
      | some r =>
        obtain ⟨start, hfits, hv, hnext⟩ := (wordField_finds hpos hstop big).fits_of r.1 r.2 hword
        rw [hword] at h
        dsimp only at h
        split at h
        · cases h
        · cases h
          rw [hv, hnext]
          exact ⟨rfl, .word hfits⟩
  split at h
  next hsig => exact htext hsig h
  split at h
  next hsig =>
    cases hsig
    exact hsignature h
  split at h
  next hsig =>
    obtain ⟨r, hword, hr⟩ := Option.map_eq_some_iff.mp h
    obtain ⟨start, hfits, -, hnext⟩ := (wordField_finds hpos hstop big).fits_of r.1 r.2 hword
    cases hr
    rw [hnext]
    exact ⟨rfl, .number hsig hfits⟩
  split at h
  next hsig =>
    split at h
    · cases h
    next hin =>
      cases hsig
      cases h
      exact ⟨rfl, .byte (Nat.lt_of_not_le hin)⟩
  · cases h

theorem readFieldAt_eq (hstop : stop ≤ raw.length) (big : Bool) :
    readFieldAt raw pos stop big = .ok (readField raw pos stop big) := by
  unfold readFieldAt
  rw [readField_eq, alignToAt_eq hstop]
  dsimp only [Bind.bind, Except.bind]
  rcases alignTo_cases raw pos stop 8 with ⟨start, halign, hpad⟩ | ⟨halign, -⟩
  · rw [halign]
    by_cases hin : start < stop
    · have hstr := readStr_reads hin hstop big true
      rw [decide_eq_false (Nat.not_le.mpr hin), getAt_ok (by omega), hstr.checked_eq]
      cases hsig : readStr raw (start + 1) stop big true with
      | mk found p =>
        cases found with
        | none => rfl
        | some sig =>
          obtain ⟨-, hle, hlt, hp⟩ := str_next ((hstr.fits_iff sig p).mp hsig)
          dsimp only
          by_cases hone : sig.stop - sig.start ≠ 1
          · rw [if_pos hone, if_pos hone]
            rfl
          · rw [if_neg hone, if_neg hone, getAt_ok (by omega)]
            exact valueFieldAt_eq hp hstop big _ _
    · rw [decide_eq_true (Nat.le_of_not_lt hin)]
      rfl
  · rw [halign]
    rfl

theorem readField_fits (hstop : stop ≤ raw.length) {f : Field}
    (h : readField raw pos stop big = some (f, next)) : FieldFits raw big stop pos f next := by
  rw [readField_eq] at h
  rcases alignTo_cases raw pos stop 8 with ⟨start, halign, hpad⟩ | ⟨halign, -⟩
  · rw [halign] at h
    by_cases hin : start < stop
    · have hstr := readStr_reads hin hstop big true
      rw [decide_eq_false (Nat.not_le.mpr hin)] at h
      cases hsig : readStr raw (start + 1) stop big true with
      | mk found p =>
        rw [hsig] at h
        cases found with
        | none => cases h
        | some sig =>
          have hfits := (hstr.fits_iff sig p).mp hsig
          obtain ⟨-, hle, hlt, hp⟩ := str_next hfits
          dsimp only at h
          by_cases hone : sig.stop - sig.start ≠ 1
          · rw [if_pos hone] at h
            cases h
          · rw [if_neg hone] at h
            obtain ⟨hcode, hvalue⟩ := valueField_fits hp hstop h
            obtain ⟨code, v⟩ := f
            cases hcode
            exact .mk hpad hin hfits (by omega) hvalue
    · rw [decide_eq_true (Nat.le_of_not_lt hin)] at h
      cases h
  · rw [halign] at h
    cases h

theorem value_next {sig : Byte} {v : Value} (h : ValueFits raw big stop sig pos v next) : pos < next ∧ next ≤ stop := by
  cases h with
  | text hsig h =>
    obtain ⟨hlt, hle, hlt', hin⟩ := str_next h
    exact ⟨by omega, hin⟩
  | signature h =>
    obtain ⟨hlt, hle, hlt', hin⟩ := str_next h
    exact ⟨by omega, hin⟩
  | word h => exact ⟨Nat.lt_of_le_of_lt (word_ge h) (Nat.lt_add_of_pos_right (by decide)), h.within⟩
  | number hsig h => exact ⟨Nat.lt_of_le_of_lt (word_ge h) (Nat.lt_add_of_pos_right (by decide)), h.within⟩
  | byte h => exact ⟨Nat.lt_succ_self _, h⟩

/-- A field takes at least a byte. -/
theorem field_next {f : Field} (h : FieldFits raw big stop pos f next) : pos < next ∧ next ≤ stop := by
  cases h with
  | mk hpad hin hsig hone hvalue =>
    have hge := padded_le hpad
    obtain ⟨hlt, hle, hlt', -⟩ := str_next hsig
    obtain ⟨hnext, hstop⟩ := value_next hvalue
    exact ⟨by omega, hstop⟩

/-- The loop ends within as many passes as there are bytes. -/
theorem readFieldsAt_eq (hstop : stop ≤ raw.length) (big : Bool) {passes pos : Nat} (hpos : pos ≤ stop)
    (hpasses : stop - pos ≤ passes) : readFieldsAt raw stop big passes pos = .ok (readFields raw stop big passes pos) := by
  induction passes generalizing pos with
  | zero =>
    have hend : ¬ pos < stop := by omega
    rw [readFieldsAt, readFields, if_neg hend, if_neg hend]
  | succ passes ih =>
    rw [readFieldsAt, readFields]
    split
    next hin =>
      rw [readFieldAt_eq hstop]
      dsimp only [Bind.bind, Except.bind]
      cases hfield : readField raw pos stop big with
      | none => rfl
      | some r =>
        obtain ⟨f, next⟩ := r
        obtain ⟨hnext, hle⟩ := field_next (readField_fits hstop hfield)
        dsimp only
        rw [ih hle (by omega)]
    · rfl

theorem readFields_fit (hstop : stop ≤ raw.length) (big : Bool) {passes pos : Nat} (hpos : pos ≤ stop) {fs : List Field}
    (h : readFields raw stop big passes pos = some fs) : FieldsFit raw big stop pos fs := by
  induction passes generalizing pos fs with
  | zero =>
    rw [readFields] at h
    split at h
    · cases h
    next hend =>
      cases h
      cases Nat.le_antisymm hpos (Nat.le_of_not_lt hend)
      exact .done
  | succ passes ih =>
    rw [readFields] at h
    split at h
    next hin =>
      cases hfield : readField raw pos stop big with
      | none =>
        rw [hfield] at h
        cases h
      | some r =>
        obtain ⟨f, next⟩ := r
        have hfits := readField_fits hstop hfield
        rw [hfield] at h
        obtain ⟨rest, hrest, rfl⟩ := Option.map_eq_some_iff.mp h
        exact .field hin hfits (ih (field_next hfits).2 hrest)
    next hend =>
      cases h
      cases Nat.le_antisymm hpos (Nat.le_of_not_lt hend)
      exact .done

/-! ## Messages -/

theorem messageLengthAt_eq (data : Bytes) : messageLengthAt data = .ok (messageLength data) := by
  unfold messageLengthAt messageLength
  by_cases hshort : data.length < 16
  · rw [if_pos hshort, if_pos hshort]
  rw [if_neg hshort, if_neg hshort, getAt_ok (by omega)]
  dsimp only [Bind.bind, Except.bind]
  split
  · rfl
  rw [getAt_ok (by omega)]
  dsimp only
  split
  · rfl
  rw [load32At_eq (by omega), load32At_eq (by omega)]

/-- The header of a message that is as long as it says. -/
theorem messageLength_some {data : Bytes} {total : Nat} (h : messageLength data = some total) :
    16 ≤ data.length ∧ total ≤ maxMessage ∧
      total = nextMultiple (16 + (load32 data 12 (data.getD 0 0 == 66)).toNat) 8 + (load32 data 4 (data.getD 0 0 == 66)).toNat := by
  unfold messageLength at h
  split at h
  · cases h
  next hshort =>
    dsimp only at h
    split at h
    · cases h
    split at h
    · cases h
    split at h
    next hmax =>
      cases h
      exact ⟨Nat.le_of_not_lt hshort, hmax, rfl⟩
    · cases h

theorem parseAt_eq (raw : Bytes) : Message.parseAt raw = .ok (Message.parse raw) := by
  unfold Message.parseAt Message.parse
  rw [messageLengthAt_eq]
  dsimp only [Bind.bind, Except.bind]
  cases hlength : messageLength raw with
  | none => rfl
  | some total =>
    obtain ⟨hlong, -, htotal⟩ := messageLength_some hlength
    dsimp only
    by_cases hsame : total ≠ raw.length
    · rw [if_pos hsame, if_pos hsame]
    have hle := le_nextMultiple (16 + (load32 raw 12 (raw.getD 0 0 == 66)).toNat) 8
    have hstop : 16 + (load32 raw 12 (raw.getD 0 0 == 66)).toNat ≤ raw.length := by
      omega
    rw [if_neg hsame, if_neg hsame, getAt_ok (by omega), getAt_ok (by omega)]
    dsimp only
    rw [load32At_eq (by omega)]
    dsimp only
    split
    · rfl
    rw [load32At_eq (by omega)]
    dsimp only
    rw [readFieldsAt_eq hstop _ (Nat.le_add_right 16 _) (by omega)]
    cases readFields raw (16 + (load32 raw 12 (raw.getD 0 0 == 66)).toNat) (raw.getD 0 0 == 66)
        (load32 raw 12 (raw.getD 0 0 == 66)).toNat 16 with
    | none => rfl
    | some fields =>
      dsimp only
      by_cases hbody : raw.length < nextMultiple (16 + (load32 raw 12 (raw.getD 0 0 == 66)).toNat) 8
      · rw [if_pos hbody, if_pos (.inl hbody)]
      · rw [if_neg hbody, sliceAt_ok hle (Nat.le_of_not_lt hbody)]
        dsimp only
        by_cases hpad : ((raw.take (nextMultiple (16 + (load32 raw 12 (raw.getD 0 0 == 66)).toNat) 8)).drop
            (16 + (load32 raw 12 (raw.getD 0 0 == 66)).toNat)).any (· != 0) = true
        · rw [if_pos hpad, if_pos (.inr hpad)]
        · rw [if_neg hpad, if_neg (not_or.mpr ⟨hbody, hpad⟩)]

theorem keep_layout (m : Message) (f : Field) :
    (m.keep f).raw = m.raw ∧ (m.keep f).bigEndian = m.bigEndian ∧ (m.keep f).body = m.body := by
  unfold Message.keep
  split
  · split <;> [exact ⟨rfl, rfl, rfl⟩; split] <;> [exact ⟨rfl, rfl, rfl⟩; split] <;> [exact ⟨rfl, rfl, rfl⟩; split] <;>
      exact ⟨rfl, rfl, rfl⟩
  · split <;> exact ⟨rfl, rfl, rfl⟩
  · exact ⟨rfl, rfl, rfl⟩

theorem kept_layout (fs : List Field) (m : Message) :
    (fs.foldl Message.keep m).raw = m.raw ∧ (fs.foldl Message.keep m).bigEndian = m.bigEndian ∧
      (fs.foldl Message.keep m).body = m.body := by
  induction fs generalizing m with
  | nil => exact ⟨rfl, rfl, rfl⟩
  | cons f fs ih =>
    obtain ⟨hraw, hbig, hbody⟩ := keep_layout m f
    obtain ⟨hraw', hbig', hbody'⟩ := ih (m.keep f)
    exact ⟨hraw'.trans hraw, hbig'.trans hbig, hbody'.trans hbody⟩

theorem parse_laid {m : Message} (h : Message.parse raw = some m) : Laid raw m := by
  unfold Message.parse at h
  cases hlength : messageLength raw with
  | none =>
    rw [hlength] at h
    cases h
  | some total =>
    obtain ⟨hlong, hmax, htotal⟩ := messageLength_some hlength
    rw [hlength] at h
    dsimp only at h
    by_cases hsame : total ≠ raw.length
    · rw [if_pos hsame] at h
      cases h
    have hlen := Decidable.not_not.mp hsame
    have hle := le_nextMultiple (16 + (load32 raw 12 (raw.getD 0 0 == 66)).toNat) 8
    rw [if_neg hsame] at h
    split at h
    · cases h
    cases hfields : readFields raw (16 + (load32 raw 12 (raw.getD 0 0 == 66)).toNat) (raw.getD 0 0 == 66)
        (load32 raw 12 (raw.getD 0 0 == 66)).toNat 16 with
    | none =>
      rw [hfields] at h
      cases h
    | some fields =>
      rw [hfields] at h
      dsimp only at h
      split at h
      · cases h
      next hgood =>
        obtain ⟨hbody, hpad⟩ := not_or.mp hgood
        have hfit := readFields_fit (by omega) _ (Nat.le_add_right 16 _) hfields
        have hm := (Option.some.inj h).symm
        obtain ⟨hraw, hbig, hplace⟩ := kept_layout fields
          ⟨raw, raw.getD 0 0 == 66, raw.getD 1 0, load32 raw 8 (raw.getD 0 0 == 66), 0, none, none, none, none,
            ⟨nextMultiple (16 + (load32 raw 12 (raw.getD 0 0 == 66)).toNat) 8, raw.length⟩⟩
        rw [← hm] at hraw hbig hplace
        refine ⟨hraw, by omega, ?_, ?_, ?_, fields, _, ?_, rfl, rfl, rfl, rfl, hm⟩
        · rw [hplace, hbig, ← hlen, htotal]
        · rw [hplace]
        · rw [hplace, hbig]
          exact ⟨rfl, Nat.le_of_not_lt hbody, (any_nonzero raw _ _).mp (Bool.eq_false_iff.mpr hpad)⟩
        · rw [hbig]
          exact hfit

theorem keep_spans (m : Message) (f : Field) {s : Span} (h : s ∈ (m.keep f).spans) : s ∈ m.spans ∨ f.value = .text s := by
  obtain ⟨code, value⟩ := f
  cases value with
  | text r =>
    unfold Message.keep at h
    unfold Message.spans at h ⊢
    simp only [List.mem_filterMap, List.mem_cons, List.not_mem_nil, or_false, id, exists_eq_right] at h ⊢
    split at h
    · grind
    split at h
    · grind
    split at h
    · grind
    split at h
    · grind
    · exact .inl h
  | word v =>
    unfold Message.keep at h
    dsimp only at h
    split at h
    · exact .inl h
    · exact .inl h
  | skipped => exact .inl h

theorem kept_spans {fs : List Field} {m : Message} {s : Span} (h : s ∈ (fs.foldl Message.keep m).spans) :
    s ∈ m.spans ∨ ∃ f ∈ fs, f.value = .text s := by
  induction fs generalizing m with
  | nil => exact .inl h
  | cons f fs ih =>
    rcases ih h with hm | ⟨g, hg, hvalue⟩
    · rcases keep_spans m f hm with hm | hvalue
      · exact .inl hm
      · exact .inr ⟨f, List.mem_cons_self, hvalue⟩
    · exact .inr ⟨g, List.mem_cons_of_mem f hg, hvalue⟩

theorem fields_spans {fs : List Field} (h : FieldsFit raw big stop pos fs) {f : Field} (hf : f ∈ fs) {s : Span}
    (hs : f.value = .text s) : s.start ≤ s.stop ∧ s.stop < stop := by
  induction h with
  | done => cases hf
  | field hpos hfield rest ih =>
    rcases List.mem_cons.mp hf with rfl | hf
    · cases hfield with
      | mk hpad hin hsig hone hvalue =>
        cases hs
        generalize raw.getD (Span.start _) 0 = c at hvalue
        cases hvalue with
        | text hsig h =>
          obtain ⟨-, hle, hlt, hstop⟩ := str_next h
          exact ⟨hle, Nat.lt_of_lt_of_le hlt hstop⟩
        | signature h =>
          obtain ⟨-, hle, hlt, hstop⟩ := str_next h
          exact ⟨hle, Nat.lt_of_lt_of_le hlt hstop⟩
    · exact ih hf

theorem textAt_eq {m : Message} (h : Message.parse raw = some m) {s : Span} (hs : s ∈ m.spans) :
    s.start ≤ s.stop ∧ s.stop ≤ raw.length ∧ m.textAt (some s) = .ok (m.text (some s)) := by
  have hlaid := parse_laid h
  obtain ⟨fs, m₀, hfit, hpath, hinterface, hmember, hsignature, hm⟩ := hlaid.fields
  have hnone : m₀.spans = [] := by
    unfold Message.spans
    rw [hpath, hinterface, hmember, hsignature]
    rfl
  rw [hm] at hs
  rcases kept_spans hs with hs | ⟨f, hf, hvalue⟩
  · rw [hnone] at hs
    cases hs
  · obtain ⟨hle, hlt⟩ := fields_spans hfit hf hvalue
    have hstop := hlaid.padded.within
    have hpad := padded_le hlaid.padded
    have hin : s.stop ≤ raw.length := by omega
    refine ⟨hle, hin, ?_⟩
    show (do let t ← sliceAt m.raw s.start s.stop; Except.ok (ofUtf8 t) : Checked (Option String)) = _
    rw [sliceAt_ok hle (by rw [hlaid.raw_eq]; exact hin)]
    rfl

/-! ## The body -/

variable {r : Reader}

theorem failed_same (h : r.failed = true) : { r with failed := true } = r := by
  cases r
  cases h
  rfl

theorem not_both {P : Prop} (h : r.failed = false) (hf : r.failed = true) : P := absurd (h.symm.trans hf) (by decide)

theorem align_failed (h : r.failed = true) (n : Nat) : r.alignAt n = .ok (false, r) ∧ r.align n = (false, r) :=
  ⟨if_pos h, if_pos h⟩

theorem align_eq (hin : InBody r) (h : r.failed = false) {n : Nat} {ok : Bool} {p : Nat}
    (halign : alignTo r.m.raw r.pos r.stop n = (ok, p)) :
    r.alignAt n = .ok (ok, { r with pos := p, failed := !ok }) ∧ r.align n = (ok, { r with pos := p, failed := !ok }) := by
  unfold Reader.alignAt Reader.align
  rw [if_neg (Bool.eq_false_iff.mp h), if_neg (Bool.eq_false_iff.mp h), alignToAt_eq hin.stop_le, halign]
  exact ⟨rfl, rfl⟩

theorem u32_failed (h : r.failed = true) : r.u32At = .ok (0, r) ∧ r.u32 = (0, r) := by
  obtain ⟨hat, hplain⟩ := align_failed h 4
  have hsame := failed_same h
  constructor
  · unfold Reader.u32At
    rw [hat]
    show Except.ok ((0 : UInt32), { r with failed := true }) = _
    rw [hsame]
  · unfold Reader.u32
    rw [hplain]
    show ((0 : UInt32), { r with failed := true }) = _
    rw [hsame]

/-- A number that is there is read; otherwise the reader fails within the body. -/
theorem u32_cases (hin : InBody r) (h : r.failed = false) :
    (∃ start, Word r.m.raw r.stop 4 r.pos start ∧ r.u32At = .ok r.u32 ∧
      r.u32 = (load32 r.m.raw start r.m.bigEndian, { r with pos := start + 4 })) ∨
    ∃ p, r.pos ≤ p ∧ p ≤ r.stop ∧ (∀ start, ¬ Word r.m.raw r.stop 4 r.pos start) ∧ r.u32At = .ok r.u32 ∧
      r.u32 = (0, { r with pos := p, failed := true }) := by
  have hstop := hin.stop_le
  unfold Reader.u32At Reader.u32
  rcases word_cases hin.pos_le r.m.raw 4 with ⟨start, halign, hroom, hword⟩ | ⟨ok, p, halign, hroom, hge, hle, hnone⟩
  · have hwithin := hword.within
    obtain ⟨hat, hplain⟩ := align_eq hin h halign
    refine .inl ⟨start, hword, ?_⟩
    rw [hat, hplain]
    dsimp only [Bind.bind, Except.bind]
    rw [subAt_ok (Nat.le_of_add_right_le hwithin), decide_eq_false hroom]
    dsimp only
    rw [if_neg hroom, load32At_eq (by omega), h]
    exact ⟨rfl, rfl⟩
  · obtain ⟨hat, hplain⟩ := align_eq hin h halign
    refine .inr ⟨p, hge, hle, hnone, ?_⟩
    rw [hat, hplain]
    dsimp only [Bind.bind, Except.bind]
    rcases hroom with rfl | hroom
    · exact ⟨rfl, rfl⟩
    · cases ok with
      | false => exact ⟨rfl, rfl⟩
      | true =>
        rw [subAt_ok hle, decide_eq_true hroom]
        dsimp only
        rw [if_pos hroom]
        exact ⟨rfl, rfl⟩

/-! ### The three ways an operation can go -/

section Ways

variable {α : Type} {zero v : α} {fits : Nat → Prop} {p : Nat}

theorem operates_after (hin : InBody r) (h : r.failed = true) : Operates r (.ok (zero, r)) (zero, r) zero fits where
  checked_eq := rfl
  m_eq := rfl
  stop_eq := rfl
  ge := Nat.le_refl r.pos
  le := hin.pos_le
  kept := fun _ => rfl
  zero_of := fun _ => rfl
  fits_iff := fun hf => not_both hf h

theorem operates_fails (h : r.failed = false) (hge : r.pos ≤ p) (hle : p ≤ r.stop) (hnone : ∀ next, ¬ fits next) :
    Operates r (.ok (zero, { r with pos := p, failed := true })) (zero, { r with pos := p, failed := true }) zero fits where
  checked_eq := rfl
  m_eq := rfl
  stop_eq := rfl
  ge := hge
  le := hle
  kept := not_both h
  zero_of := fun _ => rfl
  fits_iff := by
    intro _ next
    constructor
    · rintro ⟨⟨⟩, -⟩
    · exact fun hf => absurd hf (hnone next)

theorem operates_reads (h : r.failed = false) (hge : r.pos ≤ p) (hle : p ≤ r.stop) (hfits : fits p)
    (honly : ∀ next, fits next → p = next) :
    Operates r (.ok (v, { r with pos := p })) (v, { r with pos := p }) zero fits where
  checked_eq := rfl
  m_eq := rfl
  stop_eq := rfl
  ge := hge
  le := hle
  kept := not_both h
  zero_of := not_both h
  fits_iff := by
    intro _ next
    constructor
    · rintro ⟨-, rfl⟩
      exact hfits
    · exact fun hf => ⟨h, honly next hf⟩

/-- What an operation returns in place of another's value. -/
theorem operates_map {β : Type} {checked : Checked (α × Reader)} {out : α × Reader}
    (h : Operates r checked out zero fits) (f : α → β) :
    Operates r (checked.map fun p => (f p.1, p.2)) (f out.1, out.2) (f zero) fits where
  checked_eq := by
    rw [h.checked_eq]
    rfl
  m_eq := h.m_eq
  stop_eq := h.stop_eq
  ge := h.ge
  le := h.le
  kept := by
    intro hf
    rw [h.kept hf]
  zero_of := fun hf => congrArg f (h.zero_of hf)
  fits_iff := h.fits_iff

end Ways

/-! ### The operations -/

theorem u32_operates (hin : InBody r) :
    Operates r r.u32At r.u32 0 fun next => ∃ start, Word r.m.raw r.stop 4 r.pos start ∧ next = start + 4 := by
  cases h : r.failed with
  | true =>
    obtain ⟨hat, hplain⟩ := u32_failed h
    rw [hat, hplain]
    exact operates_after hin h
  | false =>
    rcases u32_cases hin h with ⟨start, hword, hat, hplain⟩ | ⟨p, hge, hle, hnone, hat, hplain⟩
    · rw [hat, hplain]
      refine operates_reads h (Nat.le_trans (word_ge hword) (Nat.le_add_right _ _)) hword.within ⟨start, hword, rfl⟩ ?_
      rintro next ⟨start', hword', rfl⟩
      rw [word_unique hword hword']
    · rw [hat, hplain]
      refine operates_fails h hge hle ?_
      rintro next ⟨start, hword, -⟩
      exact hnone start hword

theorem i32_operates (hin : InBody r) :
    Operates r r.i32At r.i32 0 fun next => ∃ start, Word r.m.raw r.stop 4 r.pos start ∧ next = start + 4 :=
  operates_map (u32_operates hin) UInt32.toInt32

theorem u16_operates (hin : InBody r) :
    Operates r r.u16At r.u16 0 fun next => ∃ start, Word r.m.raw r.stop 2 r.pos start ∧ next = start + 2 := by
  have hstop := hin.stop_le
  unfold Reader.u16At Reader.u16
  cases h : r.failed with
  | true =>
    obtain ⟨hat, hplain⟩ := align_failed h 2
    rw [hat, hplain]
    dsimp only [Bind.bind, Except.bind]
    rw [failed_same h]
    exact operates_after hin h
  | false =>
    rcases word_cases hin.pos_le r.m.raw 2 with ⟨start, halign, hroom, hword⟩ | ⟨ok, p, halign, hroom, hge, hle, hnone⟩
    · have hwithin := hword.within
      obtain ⟨hat, hplain⟩ := align_eq hin h halign
      rw [hat, hplain]
      dsimp only [Bind.bind, Except.bind]
      rw [subAt_ok (Nat.le_of_add_right_le hwithin), decide_eq_false hroom]
      dsimp only
      rw [if_neg hroom, getAt_ok (by omega), getAt_ok (by omega), drop_take_two (by omega)]
      show Operates r (.ok (_, { r with pos := start + 2, failed := false })) (_, { r with pos := start + 2, failed := false }) 0 _
      rw [← h]
      refine operates_reads h (Nat.le_trans (word_ge hword) (Nat.le_add_right _ _)) hwithin ⟨start, hword, rfl⟩ ?_
      rintro next ⟨start', hword', rfl⟩
      rw [word_unique hword hword']
    · obtain ⟨hat, hplain⟩ := align_eq hin h halign
      have hfails : Operates r (.ok ((0 : UInt16), { r with pos := p, failed := true })) (0, { r with pos := p, failed := true }) 0
          fun next => ∃ start, Word r.m.raw r.stop 2 r.pos start ∧ next = start + 2 := by
        refine operates_fails h hge hle ?_
        rintro next ⟨start, hword, -⟩
        exact hnone start hword
      rw [hat, hplain]
      dsimp only [Bind.bind, Except.bind]
      rcases hroom with rfl | hroom
      · exact hfails
      · cases ok with
        | false => exact hfails
        | true =>
          rw [subAt_ok hle, decide_eq_true hroom]
          dsimp only
          rw [if_pos hroom]
          exact hfails

theorem bool_operates (hin : InBody r) :
    Operates r r.boolAt r.bool false fun next => ∃ start, Word r.m.raw r.stop 4 r.pos start ∧
      load32 r.m.raw start r.m.bigEndian ≤ 1 ∧ next = start + 4 := by
  unfold Reader.boolAt Reader.bool
  cases h : r.failed with
  | true =>
    obtain ⟨hat, hplain⟩ := u32_failed h
    rw [hat, hplain]
    exact operates_after hin h
  | false =>
    rcases u32_cases hin h with ⟨start, hword, hat, hplain⟩ | ⟨p, hge, hle, hnone, hat, hplain⟩
    · rw [hat, hplain]
      dsimp only [Bind.bind, Except.bind]
      have hge := Nat.le_trans (word_ge hword) (Nat.le_add_right start 4)
      by_cases hbig : load32 r.m.raw start r.m.bigEndian > 1
      · have hzero : (load32 r.m.raw start r.m.bigEndian == 1) = false := by
          refine beq_false_of_ne ?_
          intro hone
          rw [hone] at hbig
          exact absurd hbig (by decide)
        rw [if_pos hbig, hzero]
        refine operates_fails h hge hword.within ?_
        rintro next ⟨start', hword', hone, -⟩
        rw [← word_unique hword hword'] at hone
        exact absurd hbig (UInt32.not_lt.mpr hone)
      · rw [if_neg hbig]
        refine operates_reads h hge hword.within ⟨start, hword, UInt32.not_lt.mp hbig, rfl⟩ ?_
        rintro next ⟨start', hword', -, rfl⟩
        rw [word_unique hword hword']
    · rw [hat, hplain]
      refine operates_fails h hge hle ?_
      rintro next ⟨start, hword, -⟩
      exact hnone start hword

theorem string_operates (hin : InBody r) :
    Operates r r.stringAt r.string "" fun next => ∃ s, Str r.m.raw r.m.bigEndian r.stop false r.pos s next := by
  have hstop := hin.stop_le
  unfold Reader.stringAt Reader.string
  by_cases h : r.failed = true
  · rw [if_pos h, if_pos h]
    exact operates_after hin h
  · rw [if_neg h, if_neg h]
    have hread := readStr_reads hin.pos_le hin.stop_le r.m.bigEndian false
    have hge := hread.ge
    have hle := hread.le
    rw [hread.checked_eq]
    dsimp only [Bind.bind, Except.bind]
    cases hout : readStr r.m.raw r.pos r.stop r.m.bigEndian false with
    | mk found p =>
      rw [hout] at hge hle
      have hsame {s : Span} {next : Nat} (hs : Str r.m.raw r.m.bigEndian r.stop false r.pos s next) : (found, p) = (some s, next) := by
        rw [← hout]
        exact (hread.fits_iff s next).mpr hs
      cases found with
      | none =>
        refine operates_fails (Bool.eq_false_iff.mpr h) hge hle ?_
        rintro next ⟨s, hs⟩
        cases hsame hs
      | some s =>
        have hfits := (hread.fits_iff s p).mp hout
        obtain ⟨-, hspan, hlt, hp⟩ := str_next hfits
        dsimp only
        rw [sliceAt_ok hspan (by omega)]
        refine operates_reads (Bool.eq_false_iff.mpr h) hge hle ⟨s, hfits⟩ ?_
        rintro next ⟨s', hs'⟩
        cases hsame hs'
        rfl

theorem innerFit_le {last : Nat} (h : InnerFit raw big stop last pos) : pos ≤ last := by
  cases h with
  | done => exact Nat.le_refl _
  | array hpos => exact Nat.le_of_lt hpos

/-- The inner arrays: either they end where the outer array does, or the reader fails within
the body. Every pass takes at least the four bytes of a length. -/
theorem skipInner_cases {last passes : Nat} (hin : InBody r) (h : r.failed = false) (hlast : last ≤ r.stop)
    (hpasses : last - r.pos < passes) :
    (InnerFit r.m.raw r.m.bigEndian r.stop last r.pos ∧ Reader.skipInnerAt last passes r = .ok { r with pos := last } ∧
      Reader.skipInner last passes r = { r with pos := last }) ∨
    ∃ p, r.pos ≤ p ∧ p ≤ r.stop ∧ ¬ InnerFit r.m.raw r.m.bigEndian r.stop last r.pos ∧
      Reader.skipInnerAt last passes r = .ok { r with pos := p, failed := true } ∧
      Reader.skipInner last passes r = { r with pos := p, failed := true } := by
  induction passes generalizing r with
  | zero => exact absurd hpasses (Nat.not_lt_zero _)
  | succ passes ih =>
    unfold Reader.skipInnerAt Reader.skipInner
    by_cases hpos : r.pos < last
    · rw [if_pos ⟨hpos, h⟩, if_pos ⟨hpos, h⟩]
      rcases u32_cases hin h with ⟨start, hword, hat, hplain⟩ | ⟨p, hge, hle, hnone, hat, hplain⟩
      · have hwithin := hword.within
        have hge := word_ge hword
        rw [hat, hplain]
        dsimp only [Bind.bind, Except.bind]
        rw [h, Bool.false_or]
        by_cases hover : last - (start + 4) < (load32 r.m.raw start r.m.bigEndian).toNat
        · rw [if_pos (decide_eq_true hover), if_pos (decide_eq_true hover)]
          refine .inr ⟨start + 4, by omega, hwithin, ?_, rfl, rfl⟩
          intro hfit
          cases hfit with
          | done => exact absurd hpos (Nat.lt_irrefl _)
          | array hpos' hword' hlen rest =>
            rw [← word_unique hword hword'] at hlen
            omega
        · rw [decide_eq_false hover, if_neg Bool.false_ne_true, if_neg Bool.false_ne_true]
          have hnext : start + 4 + (load32 r.m.raw start r.m.bigEndian).toNat ≤ r.stop := by omega
          have hiff : InnerFit r.m.raw r.m.bigEndian r.stop last r.pos ↔
              InnerFit r.m.raw r.m.bigEndian r.stop last (start + 4 + (load32 r.m.raw start r.m.bigEndian).toNat) := by
            constructor
            · intro hfit
              cases hfit with
              | done => exact absurd hpos (Nat.lt_irrefl _)
              | array hpos' hword' hlen rest =>
                rw [word_unique hword hword']
                exact rest
            · intro hfit
              exact .array hpos hword (innerFit_le hfit) hfit
          rw [hiff]
          rcases @ih { r with pos := start + 4 + (load32 r.m.raw start r.m.bigEndian).toNat, failed := false }
            ⟨hnext, hin.stop_le⟩ rfl hlast (by show last - (start + 4 + _) < passes; omega) with
            ⟨hfit, hat', hplain'⟩ | ⟨p, hp, hp', hno, hat', hplain'⟩
          · exact .inl ⟨hfit, hat', hplain'⟩
          · exact .inr ⟨p, by dsimp only at hp; omega, hp', hno, hat', hplain'⟩
      · rw [hat, hplain]
        refine .inr ⟨p, hge, hle, ?_, rfl, rfl⟩
        intro hfit
        cases hfit with
        | done => exact absurd hpos (Nat.lt_irrefl _)
        | array hpos' hword' hlen rest => exact hnone _ hword'
    · have hguard : ¬ (r.pos < last ∧ r.failed = false) := fun hboth => hpos hboth.1
      rw [if_neg hguard, if_neg hguard]
      by_cases hend : r.pos = last
      · subst hend
        rw [if_neg (not_not_intro rfl)]
        exact .inl ⟨.done, rfl, rfl⟩
      · rw [if_pos hend]
        refine .inr ⟨r.pos, Nat.le_refl _, hin.pos_le, ?_, rfl, rfl⟩
        intro hfit
        have hle := innerFit_le hfit
        omega

/-- The alignment behind a number needs no padding. -/
theorem aligned_after {start : Nat} (h : start = nextMultiple pos 4) : nextMultiple (start + 4) 4 = start + 4 := by
  subst h
  unfold nextMultiple
  omega

theorem skipAay_operates (hin : InBody r) :
    Operates r (r.skipAayAt.map fun r => ((), r)) ((), r.skipAay) () fun next =>
      ∃ start, Word r.m.raw r.stop 4 r.pos start ∧ next = start + 4 + (load32 r.m.raw start r.m.bigEndian).toNat ∧
        next ≤ r.stop ∧ InnerFit r.m.raw r.m.bigEndian r.stop next (start + 4) := by
  unfold Reader.skipAayAt Reader.skipAay
  by_cases h : r.failed = true
  · obtain ⟨hat, hplain⟩ := u32_failed h
    rw [hat, hplain]
    dsimp only [Bind.bind, Except.bind]
    rw [if_pos h, if_pos h]
    exact operates_after hin h
  · have hfailed := Bool.eq_false_iff.mpr h
    rcases u32_cases hin hfailed with ⟨start, hword, hat, hplain⟩ | ⟨p, hge, hle, hnone, hat, hplain⟩
    · have hge := word_ge hword
      have hwithin := hword.within
      have hin' : InBody { r with pos := start + 4 } := ⟨hwithin, hin.stop_le⟩
      have halign : alignTo r.m.raw (start + 4) r.stop 4 = (true, start + 4) := by
        have hsame := aligned_after hword.padded.aligned
        rcases alignTo_cases r.m.raw (start + 4) r.stop 4 with ⟨next, halign, hpad⟩ | ⟨-, hnone⟩
        · rw [halign, hpad.aligned, hsame]
        · refine absurd ⟨hsame.symm, hwithin, ?_⟩ (hnone (start + 4))
          intro i hi hi'
          omega
      obtain ⟨hat', hplain'⟩ := @align_eq { r with pos := start + 4 } hin' hfailed 4 _ _ halign
      rw [hat, hplain]
      dsimp only [Bind.bind, Except.bind]
      rw [if_neg h, if_neg h, hat', hplain']
      dsimp only
      rw [subAt_ok hwithin]
      dsimp only
      rw [Bool.not_true, if_neg Bool.false_ne_true, if_neg Bool.false_ne_true]
      by_cases hover : r.stop - (start + 4) < (load32 r.m.raw start r.m.bigEndian).toNat
      · rw [if_pos hover, if_pos hover]
        refine operates_fails hfailed (Nat.le_trans hge (Nat.le_add_right start 4)) hwithin ?_
        rintro next ⟨start', hword', rfl, hle, -⟩
        rw [← word_unique hword hword'] at hle
        omega
      · rw [if_neg hover, if_neg hover]
        have hend : start + 4 + (load32 r.m.raw start r.m.bigEndian).toNat ≤ r.stop := by omega
        rcases @skipInner_cases { r with pos := start + 4, failed := false }
          (start + 4 + (load32 r.m.raw start r.m.bigEndian).toNat) ((load32 r.m.raw start r.m.bigEndian).toNat + 1)
          ⟨hwithin, hin.stop_le⟩ rfl hend (by show _ - (start + 4) < _; omega) with
          ⟨hfit, hat'', hplain''⟩ | ⟨p, hp, hp', hno, hat'', hplain''⟩
        · rw [hat'', hplain'', ← hfailed]
          refine operates_reads hfailed (by omega) hend ⟨start, hword, rfl, hend, hfit⟩ ?_
          rintro next ⟨start', hword', rfl, -⟩
          rw [word_unique hword hword']
        · rw [hat'', hplain'']
          refine operates_fails hfailed (by dsimp only at hp; omega) hp' ?_
          rintro next ⟨start', hword', rfl, -, hfit⟩
          rw [← word_unique hword hword'] at hfit
          exact hno hfit
    · rw [hat, hplain]
      refine operates_fails hfailed hge hle ?_
      rintro next ⟨start, hword, -⟩
      exact hnone start hword

/-! ## All operations -/

theorem step_operates (hin : InBody r) (op : BodyOp) :
    Operates r (op.stepAt r) (op.step r) op.zero fun next => op.Fits r next := by
  cases op with
  | u32 => exact operates_map (u32_operates hin) BodyItem.u32
  | i32 => exact operates_map (i32_operates hin) BodyItem.i32
  | u16 => exact operates_map (u16_operates hin) BodyItem.u16
  | bool => exact operates_map (bool_operates hin) BodyItem.bool
  | string => exact operates_map (string_operates hin) BodyItem.string
  | skipAay =>
    have h := operates_map (skipAay_operates hin) fun _ => BodyItem.skipped
    refine ⟨Eq.trans ?_ h.checked_eq, h.m_eq, h.stop_eq, h.ge, h.le, h.kept, h.zero_of, h.fits_iff⟩
    unfold BodyOp.stepAt
    cases r.skipAayAt with
    | error e => rfl
    | ok r' => rfl

theorem body_step (hin : InBody r) (op : BodyOp) : InBody (op.step r).2 := by
  have h := step_operates hin op
  refine ⟨?_, ?_⟩
  · rw [h.stop_eq]
    exact h.le
  · rw [h.stop_eq, h.m_eq]
    exact hin.stop_le

/-- A sequence of operations. -/
theorem readBody_within (hin : InBody r) (ops : List BodyOp) :
    readBodyAt r ops = .ok (readBody r ops) ∧ InBody (readBody r ops).2 ∧ (readBody r ops).2.m = r.m ∧
      (readBody r ops).2.stop = r.stop ∧ r.pos ≤ (readBody r ops).2.pos := by
  induction ops generalizing r with
  | nil => exact ⟨rfl, hin, rfl, rfl, Nat.le_refl _⟩
  | cons op ops ih =>
    have h := step_operates hin op
    obtain ⟨hat, hbody, hm, hstop, hge⟩ := ih (body_step hin op)
    refine ⟨?_, hbody, hm.trans h.m_eq, hstop.trans h.stop_eq, Nat.le_trans h.ge hge⟩
    rw [readBodyAt, h.checked_eq]
    show (do let p ← readBodyAt (op.step r).2 ops; Except.ok ((op.step r).1 :: p.1, p.2) : Checked _) = _
    rw [hat]
    rfl

end DbusIndexLemmas

open DbusIndexLemmas

/-- On every byte string, `parse` and any operations on the body after it are at no fault and
end. A message that is accepted is laid out as its lengths say, with its texts within it. The
position stays within the body, and an operation fails exactly when what it reads does not
fit: then it returns the zero value, and all after it do so too and move no further. -/
theorem read_in_range (raw : Bytes) :
    Message.parseAt raw = .ok (Message.parse raw) ∧
      ∀ m, Message.parse raw = some m →
        Laid raw m ∧
        (∀ s ∈ m.spans, s.start ≤ s.stop ∧ s.stop ≤ raw.length ∧ m.textAt (some s) = .ok (m.text (some s))) ∧
        ∀ ops, readBodyAt m.reader ops = .ok (readBody m.reader ops) ∧
          (readBody m.reader ops).2.m = m ∧ (readBody m.reader ops).2.stop = raw.length ∧
          m.body.start ≤ (readBody m.reader ops).2.pos ∧ (readBody m.reader ops).2.pos ≤ raw.length ∧
          ∀ op : BodyOp, Operates (readBody m.reader ops).2 (op.stepAt (readBody m.reader ops).2) (op.step (readBody m.reader ops).2)
            op.zero fun next => op.Fits (readBody m.reader ops).2 next := by
  refine ⟨parseAt_eq raw, ?_⟩
  intro m hm
  have hlaid := parse_laid hm
  refine ⟨hlaid, fun s hs => textAt_eq hm hs, ?_⟩
  intro ops
  have hin : InBody m.reader := by
    refine ⟨?_, ?_⟩
    · show m.body.start ≤ m.body.stop
      rw [hlaid.body_stop]
      exact hlaid.padded.within
    · show m.body.stop ≤ m.raw.length
      rw [hlaid.body_stop, hlaid.raw_eq]
  obtain ⟨hat, hbody, hmsg, hstop, hge⟩ := readBody_within hin ops
  have hstop' : (readBody m.reader ops).2.stop = raw.length := hstop.trans hlaid.body_stop
  refine ⟨hat, hmsg, hstop', hge, ?_, fun op => step_operates hbody op⟩
  rw [← hstop']
  exact hbody.pos_le

/-- A signal whose body is an array of one array of four bytes. -/
def nestedSignal : Bytes :=
  [108, 4, 0, 1, 12, 0, 0, 0, 1, 0, 0, 0, 0, 0, 0, 0, 8, 0, 0, 0, 4, 0, 0, 0, 1, 2, 3, 4]

theorem nested_in_range : ∃ m, Message.parse nestedSignal = some m ∧
    readBodyAt m.reader [.skipAay, .u32] = .ok ([.skipped, .u32 0], ⟨m, 28, 28, true⟩) := by
  have hsome : (Message.parse nestedSignal).isSome = true := by decide
  obtain ⟨m, hm⟩ := Option.isSome_iff_exists.mp hsome
  refine ⟨m, hm, (((read_in_range nestedSignal).2 m hm).2.2 [.skipAay, .u32]).1.trans ?_⟩
  have hmsg : Message.parse nestedSignal = some ⟨nestedSignal, false, 4, 1, 0, none, none, none, none, ⟨16, 28⟩⟩ := by decide
  rw [hmsg] at hm
  cases hm
  decide

end OmtClient.Receiver.Dbus
