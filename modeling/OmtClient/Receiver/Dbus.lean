import OmtClient.Lib.Position
import OmtClient.Lib.Utf8

/-!
# D-Bus messages

The wire protocol of `crates/omt-receiver/src/dbus.rs`: `Message::parse` with the cursors it
reads by, `Reader` over a message's body, and `build_call`, which marshals a method call.

A position is the `usize` that the source moves; functions that take it by reference return
where they leave it. A header text is a range of the message's bytes. `parse` keeps of the
header fields those that a `Message` has a place for; `readFields` is the loop that reads
them all.
-/

namespace OmtClient.Receiver.Dbus

open OmtClient.Lib

def maxMessage : Nat := 256 * 1024

def methodCall : Byte := 1
def methodReturn : Byte := 2
def error : Byte := 3
def signal : Byte := 4

def fieldPath : Byte := 1
def fieldInterface : Byte := 2
def fieldMember : Byte := 3
def fieldErrorName : Byte := 4
def fieldReplySerial : Byte := 5
def fieldDestination : Byte := 6
def fieldSender : Byte := 7
def fieldSignature : Byte := 8
def fieldUnixFds : Byte := 9

/-- The characters of the types that are read and written. -/
def tString : Byte := 115
def tPath : Byte := 111
def tSignature : Byte := 103
def tU32 : Byte := 117
def tI32 : Byte := 105
def tByte : Byte := 121

/-- A `Range<usize>`. -/
structure Span where
  start : Nat
  stop : Nat
  deriving DecidableEq, Repr

def Span.of (raw : Bytes) (r : Span) : Bytes := (raw.take r.stop).drop r.start

/-! ## Reading -/

def load32 (raw : Bytes) (pos : Nat) (big : Bool) : UInt32 :=
  let b := (raw.drop pos).take 4
  UInt32.ofNat (if big then beNat b else leNat b)

/-- Whether the padding was there, and the position after it. -/
def alignTo (raw : Bytes) (pos stop alignment : Nat) : Bool × Nat :=
  let aligned := nextMultiple pos alignment
  if stop < aligned then (false, pos)
  else if ((raw.take aligned).drop pos).any (· != 0) then (false, pos)
  else (true, aligned)

/-- The length at the front of a text: one byte before a signature, four otherwise. -/
def readLength (raw : Bytes) (pos stop : Nat) (big signature : Bool) : Option Nat × Nat :=
  if signature then
    match raw[pos]?.filter fun _ => pos < stop with
    | none => (none, pos)
    | some b => (some b.toNat, pos + 1)
  else
    let (ok, pos) := alignTo raw pos stop 4
    if !ok || stop - pos < 4 then (none, pos) else (some (load32 raw pos big).toNat, pos + 4)

def readStr (raw : Bytes) (pos stop : Nat) (big signature : Bool) : Option Span × Nat :=
  match readLength raw pos stop big signature with
  | (none, pos) => (none, pos)
  | (some len, pos) =>
    if stop - pos ≤ len || raw.getD (pos + len) 0 != 0 then (none, pos)
    else
      let s := (raw.drop pos).take len
      if s.contains 0 || (ofUtf8 s).isNone then (none, pos) else (some ⟨pos, pos + len⟩, pos + len + 1)

def messageLength (data : Bytes) : Option Nat :=
  if data.length < 16 then none
  else
    let first := data.getD 0 0
    if first ≠ 108 ∧ first ≠ 66 then none
    else
      let big := first == 66
      if data.getD 3 0 ≠ 1 then none
      else
        let body := (load32 data 4 big).toNat
        let fields := (load32 data 12 big).toNat
        let total := nextMultiple (16 + fields) 8 + body
        if total ≤ maxMessage then some total else none

/-! ## Header fields -/

/-- What a header field holds, where it holds something that can be kept. -/
inductive Value
  | text (r : Span)
  | word (v : UInt32)
  | skipped
  deriving DecidableEq, Repr

structure Field where
  code : Byte
  value : Value
  deriving DecidableEq, Repr

/-- One pass of the loop in `parse`. -/
def readField (raw : Bytes) (pos stop : Nat) (big : Bool) : Option (Field × Nat) :=
  let (ok, pos) := alignTo raw pos stop 8
  if !ok || stop ≤ pos then none
  else
    let code := raw.getD pos 0
    match readStr raw (pos + 1) stop big true with
    | (none, _) => none
    | (some sig, pos) =>
      if sig.stop - sig.start ≠ 1 then none
      else
        let sig := raw.getD sig.start 0
        let text := fun signature =>
          match readStr raw pos stop big signature with
          | (none, _) => none
          | (some s, pos) => some ((⟨code, .text s⟩ : Field), pos)
        let word := fun (_ : Unit) =>
          let (ok, pos) := alignTo raw pos stop 4
          if !ok || stop - pos < 4 then none else some (load32 raw pos big, pos + 4)
        if code = fieldPath ∨ code = fieldInterface ∨ code = fieldMember ∨ code = fieldErrorName ∨
            code = fieldDestination ∨ code = fieldSender then
          if sig ≠ (if code = fieldPath then tPath else tString) then none else text false
        else if code = fieldSignature then
          if sig ≠ tSignature then none else text true
        else if code = fieldReplySerial ∨ code = fieldUnixFds then
          if sig ≠ tU32 then none
          else
            match word () with
            | none => none
            | some (v, pos) => if code = fieldUnixFds ∧ v ≠ 0 then none else some (⟨code, .word v⟩, pos)
        else if sig = tString ∨ sig = tPath then text false
        else if sig = tSignature then text true
        else if sig = tU32 ∨ sig = tI32 then (word ()).map fun r => (⟨code, .skipped⟩, r.2)
        else if sig = tByte then if stop ≤ pos then none else some (⟨code, .skipped⟩, pos + 1)
        else none

/-- The loop of `parse`. A field has at least one byte, so that there are at most as many
passes as bytes. -/
def readFields (raw : Bytes) (stop : Nat) (big : Bool) : Nat → Nat → Option (List Field)
  | 0, pos => if pos < stop then none else some []
  | passes + 1, pos =>
    if pos < stop then
      match readField raw pos stop big with
      | none => none
      | some (f, pos) => (readFields raw stop big passes pos).map (f :: ·)
    else some []

/-! ## Messages -/

structure Message where
  raw : Bytes
  bigEndian : Bool
  kind : Byte
  serial : UInt32
  replySerial : UInt32
  path : Option Span
  interface : Option Span
  member : Option Span
  signature : Option Span
  body : Span
  deriving DecidableEq, Repr

/-- What `parse` keeps of a field. -/
def Message.keep (m : Message) (f : Field) : Message :=
  match f.value with
  | .text r =>
    if f.code = fieldPath then { m with path := some r }
    else if f.code = fieldInterface then { m with interface := some r }
    else if f.code = fieldMember then { m with member := some r }
    else if f.code = fieldSignature then { m with signature := some r }
    else m
  | .word v => if f.code = fieldReplySerial then { m with replySerial := v } else m
  | .skipped => m

def Message.parse (raw : Bytes) : Option Message :=
  match messageLength raw with
  | none => none
  | some total =>
    if total ≠ raw.length then none
    else
      let big := raw.getD 0 0 == 66
      let kind := raw.getD 1 0
      let serial := load32 raw 8 big
      if ¬ (1 ≤ kind ∧ kind ≤ 4) ∨ serial = 0 then none
      else
        let fieldsLen := (load32 raw 12 big).toNat
        let stop := 16 + fieldsLen
        match readFields raw stop big fieldsLen 16 with
        | none => none
        | some fields =>
          let body := nextMultiple stop 8
          if raw.length < body ∨ ((raw.take body).drop stop).any (· != 0) = true then none
          else
            some (fields.foldl Message.keep
              ⟨raw, big, kind, serial, 0, none, none, none, none, ⟨body, raw.length⟩⟩)

def Message.text (m : Message) (r : Option Span) : Option String := r.bind fun r => ofUtf8 (r.of m.raw)

def Message.signatureText (m : Message) : String := (m.text m.signature).getD ""

/-! ## The body -/

structure Reader where
  m : Message
  pos : Nat
  stop : Nat
  failed : Bool
  deriving DecidableEq, Repr

def Message.reader (m : Message) : Reader := ⟨m, m.body.start, m.body.stop, false⟩

namespace Reader

def align (r : Reader) (n : Nat) : Bool × Reader :=
  if r.failed then (false, r)
  else
    let (ok, pos) := alignTo r.m.raw r.pos r.stop n
    (ok, { r with pos, failed := !ok })

def u32 (r : Reader) : UInt32 × Reader :=
  let (ok, r) := r.align 4
  if !ok || r.stop - r.pos < 4 then (0, { r with failed := true })
  else (load32 r.m.raw r.pos r.m.bigEndian, { r with pos := r.pos + 4 })

def i32 (r : Reader) : Int32 × Reader :=
  let (v, r) := r.u32
  (v.toInt32, r)

def u16 (r : Reader) : UInt16 × Reader :=
  let (ok, r) := r.align 2
  if !ok || r.stop - r.pos < 2 then (0, { r with failed := true })
  else
    let b := (r.m.raw.drop r.pos).take 2
    (UInt16.ofNat (if r.m.bigEndian then beNat b else leNat b), { r with pos := r.pos + 2 })

def bool (r : Reader) : Bool × Reader :=
  let (v, r) := r.u32
  (v == 1, if v > 1 then { r with failed := true } else r)

def string (r : Reader) : String × Reader :=
  if r.failed then ("", r)
  else
    match readStr r.m.raw r.pos r.stop r.m.bigEndian false with
    | (some s, pos) => ((ofUtf8 (s.of r.m.raw)).getD "", { r with pos })
    | (none, pos) => ("", { r with pos, failed := true })

/-- The elements of `skip_aay`; each takes at least the four bytes of its length. -/
def skipInner (stop : Nat) : Nat → Reader → Reader
  | 0, r => r
  | passes + 1, r =>
    if r.pos < stop ∧ r.failed = false then
      let (inner, r) := r.u32
      if r.failed || stop - r.pos < inner.toNat then { r with failed := true }
      else skipInner stop passes { r with pos := r.pos + inner.toNat }
    else if r.pos ≠ stop then { r with failed := true }
    else r

def skipAay (r : Reader) : Reader :=
  let (outer, r) := r.u32
  if r.failed then r
  else
    let (ok, r) := r.align 4
    if !ok then r
    else if r.stop - r.pos < outer.toNat then { r with failed := true }
    else skipInner (r.pos + outer.toNat) (outer.toNat + 1) r

end Reader

/-! ## Writing -/

inductive Arg
  | i32 (v : Int32)
  | u32 (v : UInt32)
  | str (s : String)
  | path (s : String)
  deriving DecidableEq

def wAlign (b : Bytes) (n : Nat) : Bytes := b ++ List.replicate (nextMultiple b.length n - b.length) 0

def wU32 (b : Bytes) (v : UInt32) : Bytes := wAlign b 4 ++ leBytes 4 v.toNat

def wStr (b : Bytes) (s : String) : Option Bytes :=
  let n := (utf8 s).length
  if n < 2 ^ 32 then some (wU32 b (UInt32.ofNat n) ++ utf8 s ++ [0]) else none

def wSig (b : Bytes) (s : String) : Option Bytes :=
  let n := (utf8 s).length
  if n < 2 ^ 8 then some (b ++ [UInt8.ofNat n] ++ utf8 s ++ [0]) else none

def wField (b : Bytes) (code kind : Byte) (s : String) : Option Bytes :=
  let b := wAlign b 8 ++ [code] ++ [1, kind, 0]
  if kind = tSignature then wSig b s else wStr b s

/-- The signature and the body, with one more argument. -/
def wArg (b : String × Bytes) : Arg → Option (String × Bytes)
  | .i32 v => some (b.1.push 'i', wU32 b.2 v.toUInt32)
  | .u32 v => some (b.1.push 'u', wU32 b.2 v)
  | .str s => (wStr b.2 s).map fun body => (b.1.push 's', body)
  | .path s => (wStr b.2 s).map fun body => (b.1.push 'o', body)

/-- A field that a call may have. -/
def wOptional (b : Bytes) (code kind : Byte) : Option String → Option Bytes
  | some s => wField b code kind s
  | none => some b

/-- The header fields of a call. -/
def wFields (out : Bytes) (destination : Option String) (path : String) (interface : Option String) (member : String)
    (signature : Option String) : Option Bytes := do
  let out ← wField out fieldPath tPath path
  let out ← wOptional out fieldInterface tString interface
  let out ← wField out fieldMember tString member
  let out ← wOptional out fieldDestination tString destination
  wOptional out fieldSignature tSignature signature

def buildCall (serial : UInt32) (flags : Byte) (destination : Option String) (path : String) (interface : Option String)
    (member : String) (args : List Arg) : Option Bytes :=
  if 32 ≤ args.length then none
  else
    match args.foldlM wArg ("", []) with
    | none => none
    | some (signature, body) =>
      if 2 ^ 32 ≤ body.length then none
      else
        let out := [108, methodCall, flags, 1] ++ leBytes 4 body.length ++ leBytes 4 serial.toNat
        let out := wU32 out 0
        let fieldsStart := out.length
        match wFields out destination path interface member (if args.isEmpty then none else some signature) with
        | none => none
        | some out =>
          let fieldsLen := out.length - fieldsStart
          if 2 ^ 32 ≤ fieldsLen then none
          else
            let out := wAlign out 8 ++ body
            let out := overwrite out 12 (leBytes 4 fieldsLen)
            if out.length ≤ maxMessage then some out else none

end OmtClient.Receiver.Dbus
