import OmtClient.Lib.Position
import OmtClient.Vmx.Frame

/-!
# Loading a frame

`Decoder::load` of `crates/omt-vmx/src/lib.rs`: the envelope of a compressed frame is checked
and cut into the streams of the slices. `Envelope` is the grammar of a frame.

An index outside the input ends the program; `Stop.outOfBounds` stands for that.

1. `load_exact`: a frame is loaded exactly when it is an envelope of the right size, and then
   every slice has its own streams.
-/

namespace OmtClient.Vmx

open OmtClient.Lib

def maxCompressedBytes : Nat := 10 * 1024 * 1024

def formatProgressive : Byte := 1
def formatInterlaced : Byte := 2
def formatExtended : Byte := 3

def Geometry.dcCapacity (g : Geometry) : Nat := g.lumaStride * sliceHeight * 2
def Geometry.acCapacity (g : Geometry) : Nat := g.lumaStride * sliceHeight * 4

/-- Why `load` does not return `Ok`. -/
inductive Stop
  | status (s : Status)
  | outOfBounds
  deriving DecidableEq, Repr

/-- What `load` reads and writes of a decoder. -/
structure Decoder (g : Geometry) where
  dc : List Stream
  ac : List Stream
  matrix : List Nat
  dcShift : Nat
  loaded : Bool
  hdc : dc.map (·.capacity) = List.replicate g.sliceCount g.dcCapacity
  hac : ac.map (·.capacity) = List.replicate g.sliceCount g.acCapacity

def Decoder.new (g : Geometry) : Decoder g where
  dc := List.replicate g.sliceCount (Stream.new g.dcCapacity)
  ac := List.replicate g.sliceCount (Stream.new g.acCapacity)
  matrix := decodeMatrix 0
  dcShift := 0
  loaded := false
  hdc := List.map_replicate
  hac := List.map_replicate

/-! ## The input -/

/-- `input[i]`. -/
def byteAt (input : Bytes) (i : Nat) : Except Stop Byte :=
  match input[i]? with
  | some b => .ok b
  | none => .error .outOfBounds

def refuseIf (c : Bool) (s : Status) : Except Stop Unit := if c then .error (.status s) else .ok ()

/-- The head of a frame: the DC shift, the quality and how many bytes the head takes. -/
structure Head where
  dcShift : Nat
  quality : Byte
  length : Nat
  deriving DecidableEq, Repr

/-- `load`, up to the first stream. -/
def loadHead (slices : Nat) (input : Bytes) : Except Stop Head := do
  refuseIf input.isEmpty .empty
  refuseIf (maxCompressedBytes < input.length) .oversized
  refuseIf (input.length < 5) .truncated
  let format ← byteAt input 0
  refuseIf (format == formatInterlaced) .unsupportedFormat
  refuseIf (format != formatProgressive && format != formatExtended) .invalidFormat
  let shift ← if format = formatExtended then byteAt input 1 else pure 0
  let offset := if format = formatExtended then 2 else 0
  refuseIf (input.length ≤ offset + 2) .truncated
  let inner ← byteAt input offset
  refuseIf (inner != formatProgressive) .unsupportedFormat
  let quality ← byteAt input (offset + 1)
  let count ← byteAt input (offset + 2)
  refuseIf (count.toNat != slices) .sliceCount
  pure ⟨shift.toNat, quality, 3 + offset⟩

/-- `take_stream`: the stream at `cursor`, and the cursor after it. -/
def takeStream (input : Bytes) (cursor : Nat) : Except Status (Bytes × Nat) :=
  if input.length < cursor then .error .truncated
  else
    let rest := input.drop cursor
    if rest.length < 4 then .error .truncated
    else
      let length := leNat (rest.take 4)
      if (rest.drop 4).length < length then .error .truncated
      else .ok ((rest.drop 4).take length, cursor + 4 + length)

/-- A loop of `load` over the slices: their streams and, when none was refused, the cursor. `alloc i` is
whether the store of the `i`th stream can be grown. -/
def loadPass (alloc : Nat → Bool) (next : Nat → Except Status (Bytes × Nat)) :
    Nat → List Stream → Nat → List Stream × Except Status Nat
  | _, [], cursor => ([], .ok cursor)
  | i, s :: rest, cursor =>
    match next cursor with
    | .error e => (s :: rest, .error e)
    | .ok (data, cursor) =>
      match s.load data (alloc i) with
      | (false, s) => (s :: rest, .error .oversized)
      | (true, s) =>
        let (streams, cursor) := loadPass alloc next (i + 1) rest cursor
        (s :: streams, cursor)

/-- The stream of a slice in the second loop: there are AC streams when anything follows the DC
streams, which end at `start`. -/
def takeAc (input : Bytes) (start cursor : Nat) : Except Status (Bytes × Nat) :=
  if start < input.length then takeStream input cursor else .ok ([], cursor)

theorem load_capacity (s : Stream) (data : Bytes) (alloc : Bool) : (s.load data alloc).2.capacity = s.capacity := by
  unfold Stream.load
  split
  · rfl
  · dsimp only
    split
    · rfl
    · rfl

theorem loadPass_capacity (alloc : Nat → Bool) (next : Nat → Except Status (Bytes × Nat)) (i : Nat)
    (streams : List Stream) (cursor : Nat) :
    (loadPass alloc next i streams cursor).1.map (·.capacity) = streams.map (·.capacity) := by
  induction streams generalizing i cursor with
  | nil => rfl
  | cons s rest ih =>
    rw [loadPass]
    split
    · rfl
    · next data c _ =>
      have hcapacity := load_capacity s data (alloc i)
      split
      · next s' hload =>
        rw [hload] at hcapacity
        rw [List.map_cons, List.map_cons, hcapacity]
      · next s' hload =>
        rw [hload] at hcapacity
        rw [List.map_cons, List.map_cons, hcapacity]
        exact congrArg _ (ih (i + 1) c)

/-- `load`. -/
def Decoder.load {g : Geometry} (d : Decoder g) (input : Bytes) (alloc : Nat → Bool) : Except Stop Unit × Decoder g :=
  let d := { d with loaded := false }
  match loadHead g.sliceCount input with
  | .error e => (.error e, d)
  | .ok head =>
    let dc := loadPass alloc (takeStream input) 0 d.dc head.length
    let d := { d with dc := dc.1, hdc := (loadPass_capacity _ _ _ _ _).trans d.hdc }
    match dc.2 with
    | .error e => (.error (.status e), d)
    | .ok cursor =>
      let ac := loadPass alloc (takeAc input cursor) g.sliceCount d.ac cursor
      let d := { d with ac := ac.1, hac := (loadPass_capacity _ _ _ _ _).trans d.hac }
      match ac.2 with
      | .error e => (.error (.status e), d)
      | .ok _ =>
        (.ok (), { d with matrix := decodeMatrix (qualityIndex head.quality.toNat), dcShift := head.dcShift, loaded := true })

/-- A loaded decoder has what the decode calls read. -/
def Decoder.toLoaded {g : Geometry} (d : Decoder g) : Loaded g where
  streams := d.dc.zip d.ac
  matrix := d.matrix
  dcShift := d.dcShift
  hstreams := by
    have hdc := congrArg List.length d.hdc
    have hac := congrArg List.length d.hac
    simp only [List.length_map, List.length_replicate] at hdc hac
    rw [List.length_zip, hdc, hac, Nat.min_self]

/-! ## The grammar of a frame -/

/-- Streams one after the other, each behind its length. -/
inductive Streams : Bytes → List Bytes → Prop
  | nil : Streams [] []
  | cons {data bytes : Bytes} {rest : List Bytes} (hlength : data.length < 256 ^ 4) (h : Streams bytes rest) :
      Streams (leBytes 4 data.length ++ data ++ bytes) (data :: rest)

/-- The format of a frame, with the shift of its DC terms. -/
inductive Format : Bytes → Nat → Prop
  | progressive : Format [formatProgressive] 0
  | extended (shift : Byte) : Format [formatExtended, shift, formatProgressive] shift.toNat

/-- What follows the DC streams of `n` slices: nothing, or an AC stream for each slice and
whatever comes after them. -/
inductive AcPart (n : Nat) : Bytes → List Bytes → Prop
  | absent : AcPart n [] (List.replicate n [])
  | present {bytes : Bytes} {acs : List Bytes} (h : Streams bytes acs) (hcount : acs.length = n) (ignored : Bytes) :
      AcPart n (bytes ++ ignored) acs

/-- A frame for a geometry: its DC shift, its quality and the streams of its slices. -/
inductive Envelope (g : Geometry) : Bytes → Nat → Byte → List Bytes → List Bytes → Prop
  | mk {format dcPart acPart : Bytes} {shift : Nat} {quality count : Byte} {dcs acs : List Bytes} (hformat : Format format shift)
      (hslices : count.toNat = g.sliceCount) (hdc : Streams dcPart dcs) (hcount : dcs.length = g.sliceCount)
      (hac : AcPart g.sliceCount acPart acs) (hdcRoom : ∀ data ∈ dcs, data.length ≤ g.dcCapacity)
      (hacRoom : ∀ data ∈ acs, data.length ≤ g.acCapacity) :
      Envelope g (format ++ [quality, count] ++ dcPart ++ acPart) shift quality dcs acs

/-- What a decoder holds that was loaded with the streams of an envelope. -/
structure Decoder.Holds {g : Geometry} (d : Decoder g) (shift : Nat) (quality : Byte) (dcs acs : List Bytes) : Prop where
  dc : d.dc.map (·.visible) = dcs.map padded
  ac : d.ac.map (·.visible) = acs.map padded
  matrix : d.matrix = decodeMatrix (qualityIndex quality.toNat)
  dcShift : d.dcShift = shift
  loaded : d.loaded = true

namespace LoadLemmas

variable {g : Geometry} {input before tail bytes data : Bytes} {datas : List Bytes} {streams streams' : List Stream}
  {cursor cursor' capacity i : Nat}

/-! ### One stream -/

theorem takeStream_prefixed (hlength : data.length < 256 ^ 4) :
    takeStream (before ++ (leBytes 4 data.length ++ data ++ tail)) before.length =
      .ok (data, before.length + 4 + data.length) := by
  unfold takeStream
  rw [if_neg (by rw [List.length_append]; omega), List.drop_left]
  dsimp only
  have hhead : (leBytes 4 data.length).length = 4 := length_leBytes 4 _
  have htake : (leBytes 4 data.length ++ data ++ tail).take 4 = leBytes 4 data.length := by
    rw [List.append_assoc, List.take_append_of_le_length (Nat.le_of_eq hhead.symm), List.take_of_length_le (Nat.le_of_eq hhead)]
  have hdrop : (leBytes 4 data.length ++ data ++ tail).drop 4 = data ++ tail := by
    rw [List.append_assoc, List.drop_left' hhead]
  have hlong : ¬ (leBytes 4 data.length ++ data ++ tail).length < 4 := by
    rw [List.length_append, List.length_append, hhead]
    omega
  rw [if_neg hlong, htake, hdrop, leNat_leBytes hlength, if_neg, List.take_left]
  rw [List.length_append]
  omega

theorem takeStream_ok (h : takeStream input cursor = .ok (data, cursor')) :
    cursor ≤ input.length ∧ data.length < 256 ^ 4 ∧ cursor' = cursor + (4 + data.length) ∧
      ∃ tail, input.drop cursor = leBytes 4 data.length ++ data ++ tail := by
  unfold takeStream at h
  split at h
  · cases h
  next hcursor =>
  dsimp only at h
  split at h
  · cases h
  next hhead =>
  split at h
  · cases h
  next hlong =>
  have hfour : ((input.drop cursor).take 4).length = 4 := by
    rw [List.length_take]
    omega
  obtain ⟨rfl, rfl⟩ := Prod.mk.inj (Except.ok.inj h)
  have hdata : (((input.drop cursor).drop 4).take (leNat ((input.drop cursor).take 4))).length =
      leNat ((input.drop cursor).take 4) := by
    rw [List.length_take]
    omega
  have hlt := leNat_lt ((input.drop cursor).take 4)
  have hback := leBytes_leNat ((input.drop cursor).take 4)
  rw [hfour] at hlt hback
  rw [hdata, hback]
  refine ⟨by omega, hlt, by omega, ((input.drop cursor).drop 4).drop (leNat ((input.drop cursor).take 4)), ?_⟩
  rw [List.append_assoc, List.take_append_drop, List.take_append_drop]

theorem load_room {s : Stream} (h : data.length ≤ s.capacity) :
    ∃ s', s.load data true = (true, s') ∧ s'.visible = padded data := by
  have hload : (s.load data true).1 = true := by
    unfold Stream.load
    rw [if_neg (Nat.not_lt.mpr h)]
    dsimp only
    rw [if_neg (by simp)]
  exact ⟨_, Prod.ext hload rfl, (Stream.load_visible (Prod.ext hload rfl)).1⟩

theorem load_taken {s s' : Stream} {alloc : Bool} (h : s.load data alloc = (true, s')) : data.length ≤ s.capacity := by
  unfold Stream.load at h
  split at h
  · cases h
  · omega

/-! ### The loops -/

theorem loadPass_streams (h : Streams bytes datas) (hcount : datas.length = streams.length)
    (hcapacity : ∀ s ∈ streams, s.capacity = capacity) (hroom : ∀ data ∈ datas, data.length ≤ capacity) :
    ∃ streams', loadPass (fun _ => true) (takeStream (before ++ (bytes ++ tail))) i streams before.length =
        (streams', .ok (before.length + bytes.length)) ∧ streams'.map (·.visible) = datas.map padded := by
  induction h generalizing before streams i with
  | nil =>
    obtain rfl := List.length_eq_zero_iff.mp hcount.symm
    exact ⟨[], rfl, rfl⟩
  | @cons data bytes rest hlength _ ih =>
    cases streams with
    | nil => cases hcount
    | cons s streams =>
      obtain ⟨s', hload, hvisible⟩ := (@load_room data s)
        (by rw [hcapacity s List.mem_cons_self]; exact hroom data List.mem_cons_self)
      have hbefore : (before ++ (leBytes 4 data.length ++ data)).length = before.length + 4 + data.length := by
        rw [List.length_append, List.length_append, length_leBytes, Nat.add_assoc]
      obtain ⟨streams', hpass, hmap⟩ := @ih (before ++ (leBytes 4 data.length ++ data)) streams (i + 1) (Nat.succ.inj hcount)
        (fun s hs => hcapacity s (List.mem_cons_of_mem _ hs)) fun d hd => hroom d (List.mem_cons_of_mem _ hd)
      have hinput : before ++ (leBytes 4 data.length ++ data ++ bytes ++ tail) =
          before ++ (leBytes 4 data.length ++ data) ++ (bytes ++ tail) := by
        simp only [List.append_assoc]
      refine ⟨s' :: streams', ?_, congrArg₂ _ hvisible hmap⟩
      have hfirst := @takeStream_prefixed before (bytes ++ tail) data hlength
      rw [← List.append_assoc _ bytes tail] at hfirst
      rw [loadPass, hfirst]
      dsimp only
      rw [hload]
      dsimp only
      rw [hinput, ← hbefore, hpass, hbefore]
      refine Prod.ext rfl (congrArg Except.ok ?_)
      simp only [List.length_append, length_leBytes]
      omega

theorem loadPass_ok (h : loadPass (fun _ => true) (takeStream input) i streams cursor = (streams', .ok cursor'))
    (hcursor : cursor ≤ input.length) (hcapacity : ∀ s ∈ streams, s.capacity = capacity) :
    ∃ bytes tail datas, input.drop cursor = bytes ++ tail ∧ Streams bytes datas ∧ datas.length = streams.length ∧
      (∀ data ∈ datas, data.length ≤ capacity) ∧ cursor' = cursor + bytes.length := by
  induction streams generalizing cursor streams' i with
  | nil =>
    cases h
    exact ⟨[], _, [], rfl, .nil, rfl, List.forall_mem_nil _, rfl⟩
  | cons s rest ih =>
    rw [loadPass] at h
    split at h
    · cases h
    next data c htake =>
    obtain ⟨_, hlength, rfl, tail, hdrop⟩ := takeStream_ok htake
    split at h
    · cases h
    next s' hload =>
    have hroom := load_taken hload
    rw [hcapacity s List.mem_cons_self] at hroom
    have hnext : cursor + (4 + data.length) ≤ input.length := by
      have hlen := congrArg List.length hdrop
      simp only [List.length_drop, List.length_append, length_leBytes] at hlen
      omega
    cases hpass : loadPass (fun _ => true) (takeStream input) (i + 1) rest (cursor + (4 + data.length)) with
    | mk rest' r =>
      rw [hpass] at h
      obtain ⟨rfl, rfl⟩ := Prod.mk.inj h
      obtain ⟨bytes, tail', datas, hrest, hstreams, hcount, hrooms, rfl⟩ := ih hpass hnext
        fun s hs => hcapacity s (List.mem_cons_of_mem _ hs)
      have htail : tail = bytes ++ tail' := by
        have hhead : (leBytes 4 data.length ++ data).length = 4 + data.length := by
          rw [List.length_append, length_leBytes]
        rw [← List.drop_drop, hdrop, List.drop_left' hhead] at hrest
        exact hrest
      refine ⟨leBytes 4 data.length ++ data ++ bytes, tail', data :: datas, ?_, .cons hlength hstreams,
        congrArg (· + 1) hcount, List.forall_mem_cons.mpr ⟨hroom, hrooms⟩, ?_⟩
      · rw [hdrop, htail, List.append_assoc _ bytes]
      · simp only [List.length_append, length_leBytes]
        omega

/-- Without AC streams every slice is given an empty one. -/
theorem loadPass_absent (hshort : input.length ≤ cursor) :
    ∃ streams', loadPass (fun _ => true) (takeAc input cursor) i streams cursor = (streams', .ok cursor) ∧
      streams'.map (·.visible) = (List.replicate streams.length []).map padded := by
  induction streams generalizing i with
  | nil => exact ⟨[], rfl, rfl⟩
  | cons s rest ih =>
    obtain ⟨s', hload, hvisible⟩ := (@load_room [] s) (Nat.zero_le _)
    obtain ⟨streams', hpass, hmap⟩ := @ih (i + 1)
    refine ⟨s' :: streams', ?_, congrArg₂ _ hvisible hmap⟩
    rw [loadPass, takeAc, if_neg (Nat.not_lt.mpr hshort)]
    dsimp only
    rw [hload]
    dsimp only
    rw [hpass]

theorem takeAc_present (h : cursor < input.length) : takeAc input cursor = takeStream input :=
  funext fun _ => if_pos h

/-! ### The head -/

theorem refuseIf_bind {α : Type} (c : Bool) (s : Status) (f : Unit → Except Stop α) :
    (refuseIf c s >>= f) = if c then .error (.status s) else f () := by
  cases c
  · rfl
  · rfl

theorem byteAt_bind {α : Type} {i : Nat} {b : Byte} (h : input[i]? = some b) (f : Byte → Except Stop α) :
    (byteAt input i >>= f) = f b := by
  rw [byteAt, h]
  rfl

theorem loadHead_long (slices : Nat) (a b c d e : Byte) (rest : Bytes) :
    loadHead slices (a :: b :: c :: d :: e :: rest) =
      if maxCompressedBytes < (a :: b :: c :: d :: e :: rest).length then .error (.status .oversized)
      else if a = formatInterlaced then .error (.status .unsupportedFormat)
      else if a = formatExtended then
        if c = formatProgressive then
          if e.toNat = slices then .ok ⟨b.toNat, d, 5⟩ else .error (.status .sliceCount)
        else .error (.status .unsupportedFormat)
      else if a = formatProgressive then
        if c.toNat = slices then .ok ⟨0, b, 3⟩ else .error (.status .sliceCount)
      else .error (.status .invalidFormat) := by
  have hlong : ¬ (a :: b :: c :: d :: e :: rest).length < 5 := by simp
  rw [loadHead, refuseIf_bind, refuseIf_bind, refuseIf_bind, List.isEmpty_cons, if_neg Bool.false_ne_true,
    decide_eq_false hlong, if_neg Bool.false_ne_true]
  by_cases hmax : maxCompressedBytes < (a :: b :: c :: d :: e :: rest).length
  · rw [decide_eq_true hmax, if_pos rfl, if_pos hmax]
  rw [decide_eq_false hmax, if_neg Bool.false_ne_true, if_neg hmax, byteAt_bind (by rfl), refuseIf_bind, refuseIf_bind]
  by_cases hinterlaced : a = formatInterlaced
  · rw [if_pos (by rw [hinterlaced]; rfl), if_pos hinterlaced]
  rw [if_neg (by simp [hinterlaced]), if_neg hinterlaced]
  by_cases hextended : a = formatExtended
  · subst hextended
    rw [if_neg (by decide), if_pos rfl, if_pos rfl, byteAt_bind (by rfl)]
    dsimp only
    rw [if_pos rfl, refuseIf_bind, if_neg (by simp), byteAt_bind (by rfl), refuseIf_bind]
    by_cases hinner : c = formatProgressive
    · rw [if_neg (by simp [hinner]), if_pos hinner, byteAt_bind (by rfl), byteAt_bind (by rfl), refuseIf_bind]
      by_cases hcount : e.toNat = slices
      · rw [if_neg (by simp [hcount]), if_pos hcount]
        rfl
      · rw [if_pos (by simp [hcount]), if_neg hcount]
    · rw [if_pos (by simp [hinner]), if_neg hinner]
  rw [if_neg hextended]
  by_cases hprogressive : a = formatProgressive
  · subst hprogressive
    rw [if_neg (by decide), if_neg hextended, if_pos rfl, pure_bind]
    dsimp only
    rw [if_neg hextended, refuseIf_bind, if_neg (by simp), byteAt_bind (by rfl), refuseIf_bind, if_neg (by decide),
      byteAt_bind (by rfl), byteAt_bind (by rfl), refuseIf_bind]
    by_cases hcount : c.toNat = slices
    · rw [if_neg (by simp [hcount]), if_pos hcount]
      rfl
    · rw [if_pos (by simp [hcount]), if_neg hcount]
  · rw [if_pos (by simp [hprogressive, hextended]), if_neg hextended, if_neg hprogressive]

theorem short_or_long (input : Bytes) : input.length < 5 ∨ ∃ a b c d e rest, input = a :: b :: c :: d :: e :: rest := by
  rcases input with _ | ⟨a, _ | ⟨b, _ | ⟨c, _ | ⟨d, _ | ⟨e, rest⟩⟩⟩⟩⟩
  · exact .inl (by simp)
  · exact .inl (by simp)
  · exact .inl (by simp)
  · exact .inl (by simp)
  · exact .inl (by simp)
  · exact .inr ⟨a, b, c, d, e, rest, rfl⟩

theorem loadHead_short {slices : Nat} (h : input.length < 5) : ∃ s, loadHead slices input = .error (.status s) := by
  rw [loadHead, refuseIf_bind]
  split
  · exact ⟨_, rfl⟩
  rw [refuseIf_bind]
  split
  · exact ⟨_, rfl⟩
  rw [refuseIf_bind, decide_eq_true h]
  exact ⟨_, rfl⟩

/-- The head `load` reads is the one of the grammar. -/
theorem loadHead_iff {slices : Nat} {head : Head} :
    loadHead slices input = .ok head ↔ (5 ≤ input.length ∧ input.length ≤ maxCompressedBytes) ∧
      ∃ format count rest, Format format head.dcShift ∧ UInt8.toNat count = slices ∧
        input = format ++ [head.quality, count] ++ rest ∧ head.length = format.length + 2 := by
  rcases short_or_long input with hshort | ⟨a, b, c, d, e, rest, rfl⟩
  · obtain ⟨s, hs⟩ := (@loadHead_short _ slices) hshort
    rw [hs]
    constructor
    · rintro ⟨⟩
    · exact fun h => absurd hshort (Nat.not_lt.mpr h.1.1)
  have hlong : 5 ≤ (a :: b :: c :: d :: e :: rest).length := by simp
  rw [loadHead_long]
  constructor
  · intro h
    split at h
    · cases h
    next hmax =>
    refine ⟨⟨hlong, Nat.not_lt.mp hmax⟩, ?_⟩
    split at h
    · cases h
    split at h
    · next hextended =>
      subst hextended
      split at h
      · next hinner =>
        subst hinner
        split at h
        · next hcount =>
          cases h
          exact ⟨_, e, rest, .extended b, hcount, rfl, rfl⟩
        · cases h
      · cases h
    · split at h
      · next hprogressive =>
        subst hprogressive
        split at h
        · next hcount =>
          cases h
          exact ⟨_, c, d :: e :: rest, .progressive, hcount, rfl, rfl⟩
        · cases h
      · cases h
  · rintro ⟨⟨_, hmax⟩, format, count, rest', hformat, hcount, hinput, hlength⟩
    rw [if_neg (Nat.not_lt.mpr hmax)]
    obtain ⟨shift, quality, length⟩ := head
    cases hlength
    cases hformat with
    | progressive =>
      simp only [List.cons_append, List.nil_append, List.cons.injEq] at hinput
      obtain ⟨rfl, rfl, rfl, _⟩ := hinput
      rw [if_neg (by decide), if_neg (by decide), if_pos rfl, if_pos hcount]
      rfl
    | extended shift =>
      simp only [List.cons_append, List.nil_append, List.cons.injEq] at hinput
      obtain ⟨rfl, rfl, rfl, rfl, rfl, _⟩ := hinput
      rw [if_neg (by decide), if_pos rfl, if_pos rfl, if_pos hcount]
      rfl

/-- The head is read inside the input. -/
theorem loadHead_inside {slices : Nat} : loadHead slices input ≠ .error .outOfBounds := by
  rcases short_or_long input with hshort | ⟨a, b, c, d, e, rest, rfl⟩
  · obtain ⟨s, hs⟩ := (@loadHead_short _ slices) hshort
    rw [hs]
    rintro ⟨⟩
  rw [loadHead_long]
  intro h
  repeat' split at h
  all_goals cases h

/-! ### The whole frame -/

theorem capacities {capacity n : Nat} (h : streams.map (·.capacity) = List.replicate n capacity) :
    streams.length = n ∧ ∀ s ∈ streams, s.capacity = capacity := by
  constructor
  · have hlen := congrArg List.length h
    rwa [List.length_map, List.length_replicate] at hlen
  · intro s hs
    exact List.eq_of_mem_replicate (h ▸ List.mem_map_of_mem hs)

theorem sliceCount_pos : 0 < g.sliceCount := by
  have := g.hheight.1
  simp only [Geometry.sliceCount, sliceHeight]
  omega

theorem streams_nonempty (h : Streams bytes datas) (hpos : 0 < datas.length) : 0 < bytes.length := by
  cases h with
  | nil => exact absurd hpos (Nat.lt_irrefl _)
  | cons =>
    simp only [List.length_append, length_leBytes]
    omega

/-- The second loop on what follows the DC streams. -/
theorem loadPass_ac {acPart : Bytes} {acs : List Bytes} (h : AcPart streams.length acPart acs) (hpos : 0 < streams.length)
    (hcapacity : ∀ s ∈ streams, s.capacity = capacity) (hroom : ∀ data ∈ acs, data.length ≤ capacity) :
    ∃ streams' cursor', loadPass (fun _ => true) (takeAc (before ++ acPart) before.length) i streams before.length = (streams', .ok cursor') ∧
      streams'.map (·.visible) = acs.map padded := by
  cases h with
  | absent =>
    obtain ⟨streams', hpass, hmap⟩ := (@loadPass_absent (before ++ []) streams before.length) (by simp)
    exact ⟨streams', _, hpass, hmap⟩
  | @present bytes _ hstreams hcount ignored =>
    have hbytes := streams_nonempty hstreams (by rw [hcount]; exact hpos)
    have hmore : before.length < (before ++ (bytes ++ ignored)).length := by
      simp only [List.length_append]
      omega
    obtain ⟨streams', hpass, hmap⟩ := (@loadPass_streams before ignored _ _ _ capacity) hstreams hcount hcapacity hroom
    rw [takeAc_present hmore]
    exact ⟨streams', _, hpass, hmap⟩

theorem loadPass_ac_ok (h : loadPass (fun _ => true) (takeAc input cursor) i streams cursor = (streams', .ok cursor'))
    (hcursor : cursor ≤ input.length) (hcapacity : ∀ s ∈ streams, s.capacity = capacity) :
    ∃ acs, AcPart streams.length (input.drop cursor) acs ∧ ∀ data ∈ acs, data.length ≤ capacity := by
  rcases Nat.lt_or_ge cursor input.length with hmore | hend
  · rw [takeAc_present hmore] at h
    obtain ⟨bytes, tail, acs, hdrop, hstreams, hcount, hroom, _⟩ := loadPass_ok h hcursor hcapacity
    rw [hdrop]
    exact ⟨acs, .present hstreams hcount tail, hroom⟩
  · rw [List.drop_eq_nil_of_le hend]
    refine ⟨_, .absent, fun data hdata => ?_⟩
    rw [List.eq_of_mem_replicate hdata]
    exact Nat.zero_le _

theorem load_envelope {shift : Nat} {quality : Byte} {dcs acs : List Bytes} (d : Decoder g)
    (hlength : 5 ≤ input.length ∧ input.length ≤ maxCompressedBytes) (h : Envelope g input shift quality dcs acs) :
    (d.load input fun _ => true).1 = .ok () ∧ (d.load input fun _ => true).2.Holds shift quality dcs acs := by
  cases h with
  | @mk format dcPart acPart _ _ count _ _ hformat hslices hdc hcount hac hdcRoom hacRoom =>
    obtain ⟨hdcCount, hdcCapacity⟩ := capacities d.hdc
    obtain ⟨hacCount, hacCapacity⟩ := capacities d.hac
    have hhead := (loadHead_iff).mpr ⟨hlength, format, count, dcPart ++ acPart, hformat, hslices,
      by rw [List.append_assoc _ dcPart], (rfl : (⟨shift, quality, format.length + 2⟩ : Head).length = _)⟩
    obtain ⟨dc, hdcPass, hdcMap⟩ := (@loadPass_streams (format ++ [quality, count]) acPart _ _ _ g.dcCapacity) hdc
      (hcount.trans hdcCount.symm) hdcCapacity hdcRoom
    rw [← hacCount] at hac
    obtain ⟨ac, cursor, hacPass, hacMap⟩ := (@loadPass_ac (format ++ [quality, count] ++ dcPart) _ g.acCapacity _ _) hac
      (hacCount ▸ sliceCount_pos) hacCapacity hacRoom
    rw [← List.append_assoc _ dcPart, ← List.length_append] at hdcPass
    have hlen : (format ++ [quality, count]).length = format.length + 2 := List.length_append
    rw [hlen] at hdcPass
    have hdcEnd := congrArg Prod.snd hdcPass
    have hacEnd := congrArg Prod.snd hacPass
    rw [Decoder.load, hhead]
    dsimp only
    rw [hdcEnd]
    dsimp only
    rw [hacEnd]
    refine ⟨rfl, ?_, ?_, rfl, rfl, rfl⟩
    · dsimp only
      rw [hdcPass]
      exact hdcMap
    · dsimp only
      rw [hacPass]
      exact hacMap

theorem load_ok (d : Decoder g) (h : (d.load input fun _ => true).1 = .ok ()) :
    (5 ≤ input.length ∧ input.length ≤ maxCompressedBytes) ∧ ∃ shift quality dcs acs, Envelope g input shift quality dcs acs := by
  obtain ⟨hdcCount, hdcCapacity⟩ := capacities d.hdc
  obtain ⟨hacCount, hacCapacity⟩ := capacities d.hac
  rw [Decoder.load] at h
  cases hhead : loadHead g.sliceCount input with
  | error e =>
    rw [hhead] at h
    cases h
  | ok head =>
    rw [hhead] at h
    dsimp only at h
    obtain ⟨hlength, format, count, rest, hformat, hslices, hinput, hstart⟩ := (loadHead_iff).mp hhead
    have hbefore : head.length = (format ++ [head.quality, count]).length := by
      rw [hstart, List.length_append]
      rfl
    refine ⟨hlength, head.dcShift, head.quality, ?_⟩
    cases hdcEnd : (loadPass (fun _ => true) (takeStream input) 0 d.dc head.length).2 with
    | error e =>
      rw [hdcEnd] at h
      cases h
    | ok cursor =>
      rw [hdcEnd] at h
      dsimp only at h
      have hinside : head.length ≤ input.length := by
        rw [hbefore, hinput]
        simp only [List.length_append]
        omega
      obtain ⟨dcPart, acPart, dcs, hdrop, hdc, hcount, hdcRoom, rfl⟩ := loadPass_ok (Prod.ext rfl hdcEnd) hinside hdcCapacity
      have hrest : rest = dcPart ++ acPart := by
        rw [hbefore, hinput, List.drop_left] at hdrop
        exact hdrop
      have hafter : input.drop (head.length + dcPart.length) = acPart := by
        rw [← List.drop_drop, hdrop, List.drop_left]
      have hlong : head.length + dcPart.length ≤ input.length := by
        rw [hbefore, hinput, hrest]
        simp only [List.length_append]
        omega
      cases hacEnd : (loadPass (fun _ => true) (takeAc input (head.length + dcPart.length)) g.sliceCount d.ac (head.length + dcPart.length)).2 with
      | error e =>
        rw [hacEnd] at h
        cases h
      | ok cursor =>
        obtain ⟨acs, hac, hacRoom⟩ := loadPass_ac_ok (Prod.ext rfl hacEnd) hlong hacCapacity
        rw [hafter, hacCount] at hac
        refine ⟨dcs, acs, ?_⟩
        rw [hinput, hrest, ← List.append_assoc]
        exact .mk hformat hslices hdc (hcount.trans hdcCount) hac hdcRoom hacRoom

theorem load_inside (d : Decoder g) (alloc : Nat → Bool) : (d.load input alloc).1 ≠ .error .outOfBounds := by
  rw [Decoder.load]
  split
  · next e he =>
    rintro ⟨⟩
    exact loadHead_inside he
  · dsimp only
    split
    · rintro ⟨⟩
    · split
      · rintro ⟨⟩
      · rintro ⟨⟩

end LoadLemmas

open LoadLemmas in
/-- **Loading a frame is exact.** When allocation succeeds, a frame is loaded exactly when its
length is in bounds and its bytes are an envelope, and then the slices have the streams of that
envelope and no others. No input is read past its end, whether or not allocation succeeds. -/
theorem load_exact {g : Geometry} (d : Decoder g) (input : Bytes) :
    ((d.load input fun _ => true).1 = .ok () ↔ (5 ≤ input.length ∧ input.length ≤ maxCompressedBytes) ∧
      ∃ shift quality dcs acs, Envelope g input shift quality dcs acs) ∧
    ((d.load input fun _ => true).1 = .ok () → ∀ shift quality dcs acs, Envelope g input shift quality dcs acs →
      (d.load input fun _ => true).2.Holds shift quality dcs acs) ∧
    ∀ alloc, (d.load input alloc).1 ≠ .error .outOfBounds := by
  refine ⟨⟨load_ok d, ?_⟩, ?_, load_inside d⟩
  · rintro ⟨hlength, shift, quality, dcs, acs, h⟩
    exact (load_envelope d hlength h).1
  · intro hok shift quality dcs acs h
    exact (load_envelope d (load_ok d hok).1 h).2

end OmtClient.Vmx
