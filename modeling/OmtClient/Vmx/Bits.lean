import OmtClient.Lib.Bytes

/-!
# The bit reader

`crates/omt-vmx/src/bits.rs`: the stored stream of a slice and the Exp-Golomb reader over
it. The reader keeps a window of eight bytes, of which `bitsLeft` bits are unread, and turns
everything the reference codec leaves undefined into `corrupt`.

The window is a number below `2 ^ 64`.

1. `Stream.load_visible`: what a reader sees of a stream is what was loaded last.
-/

namespace OmtClient.Vmx

open OmtClient.Lib

/-- `PADDING`. -/
def padding : Nat := 64

structure Stream where
  buffer : Bytes
  length : Nat
  capacity : Nat
  deriving DecidableEq, Repr

def Stream.new (capacity : Nat) : Stream := ⟨List.replicate padding 0xFF, padding, capacity⟩

/-- The bytes that a reader of the stream is given. -/
def Stream.visible (s : Stream) : Bytes := s.buffer.take s.length

/-- A payload as a reader sees it. -/
def padded (data : Bytes) : Bytes := data ++ List.replicate padding 0xFF

/-- `load`: whether the payload was taken. `alloc` is whether the store can be grown. -/
def Stream.load (s : Stream) (data : Bytes) (alloc : Bool) : Bool × Stream :=
  if s.capacity < data.length then (false, s)
  else
    let needed := data.length + padding
    if s.buffer.length < needed ∧ alloc = false then (false, s)
    else (true, { s with buffer := padded data ++ s.buffer.drop needed, length := needed })

theorem Stream.load_visible {s s' : Stream} {data : Bytes} {alloc : Bool} (h : s.load data alloc = (true, s')) :
    s'.visible = padded data ∧ s'.capacity = s.capacity := by
  unfold Stream.load at h
  split at h
  · exact nomatch (Prod.mk.inj h).1
  · dsimp only at h
    split at h
    · exact nomatch (Prod.mk.inj h).1
    · obtain rfl := (Prod.mk.inj h).2
      refine ⟨?_, rfl⟩
      have hlength : (padded data).length = data.length + padding := by
        rw [padded, List.length_append, List.length_replicate]
      unfold Stream.visible
      dsimp only
      rw [← hlength, List.take_left']
      rfl

/-! ## The reader -/

structure Reader where
  buf : Bytes
  position : Nat
  bitsLeft : Int
  window : Nat
  corrupt : Bool
  deriving DecidableEq, Repr

/-- The reader moved to a position, with the window of `window_at`. -/
def Reader.moveTo (r : Reader) (position : Nat) : Reader :=
  if position + 8 ≤ r.buf.length then { r with position, window := beNat ((r.buf.drop position).take 8) }
  else { r with position, window := 2 ^ 64 - 1, corrupt := true }

/-- `reader`: at the start of a stream. -/
def Reader.start (buf : Bytes) : Reader := Reader.moveTo ⟨buf, 0, 64, 0, false⟩ 0

def shl64 (v n : Nat) : Nat := if 64 ≤ n then 0 else v * 2 ^ n % 2 ^ 64

def clz64 (v : Nat) : Nat := if v = 0 then 64 else 63 - v.log2

def Reader.flush (r : Reader) : Reader :=
  if r.bitsLeft = 0 then Reader.moveTo { r with bitsLeft := 64 } (r.position + 8) else r

def Reader.reload (r : Reader) : Reader :=
  if r.bitsLeft < 32 then
    if r.bitsLeft < 0 then { r with corrupt := true }
    else
      let advance := ((64 - r.bitsLeft) / 8).toNat
      Reader.moveTo { r with bitsLeft := r.bitsLeft + advance * 8 } (r.position + advance)
  else r

/-- `take`: the `count` bits above the new `bitsLeft`. -/
def Reader.take (r : Reader) (count : Int) : Nat × Reader :=
  let left := r.bitsLeft - count
  if left < 0 ∨ count < 0 ∨ 64 < count then (0, { r with bitsLeft := max left 0, corrupt := true })
  else
    let shifted := if 64 ≤ left then 0 else r.window / 2 ^ left.toNat
    (shifted % 2 ^ count.toNat, { r with bitsLeft := left })

/-- `bit`. -/
def Reader.bit (r : Reader) : Nat × Reader :=
  let (v, r) := r.take 1
  (v, r.flush)

/-- `leading_zeros`. -/
def Reader.leadingZeros (r : Reader) : Int × Reader :=
  if r.bitsLeft ≤ 0 ∨ 64 < r.bitsLeft then (0, { r with corrupt := true })
  else (clz64 (shl64 r.window (64 - r.bitsLeft).toNat), r)

/-- `zeros_bare`. -/
def Reader.zerosBare (r : Reader) : Int × Reader :=
  let (count, r) := r.leadingZeros
  if r.bitsLeft < count then (0, { r with corrupt := true }) else (count, { r with bitsLeft := r.bitsLeft - count })

/-- `zeros`. -/
def Reader.zeros (r : Reader) : Int × Reader :=
  let (count, r) := r.leadingZeros
  if r.bitsLeft ≤ count then
    let count := r.bitsLeft
    let r := Reader.flush { r with bitsLeft := 0 }
    let extra : Int := clz64 r.window
    if r.bitsLeft < extra then (0, { r with corrupt := true })
    else (count + extra, { r with bitsLeft := r.bitsLeft - extra })
  else (count, { r with bitsLeft := r.bitsLeft - count })

/-- The loop of `bits`; each pass takes at least one bit. -/
def Reader.bitsLoop : Nat → Int → Nat → Reader → Nat × Reader
  | 0, _, value, r => (value, r)
  | fuel + 1, remaining, value, r =>
    if remaining ≤ 0 then (value, r)
    else
      let count := min remaining r.bitsLeft
      if count ≤ 0 then (value, { r with corrupt := true })
      else
        let value := if value = 0 then value else shl64 value count.toNat
        let (taken, r) := r.take count
        Reader.bitsLoop fuel (remaining - count) (value ||| taken) r.flush

/-- `bits`. -/
def Reader.bits (r : Reader) (count : Int) : Nat × Reader :=
  if count < 0 then (0, { r with corrupt := true }) else Reader.bitsLoop count.toNat count 0 r

/-- `align`. -/
def Reader.align (r : Reader) : Reader :=
  let r := if r.bitsLeft < 64 then (r.bits (r.bitsLeft % 8)).2 else r
  r.flush

end OmtClient.Vmx
