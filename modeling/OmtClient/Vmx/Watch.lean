import OmtClient.Vmx.Cursor
import OmtClient.Vmx.Slice

/-!
# The plane decoder under watch

`decode_plane_inner` of `crates/omt-vmx/src/plane.rs` a second time, with every index, every
sum that has to fit and every pass of the symbol loop watched. `limit` is what the guard of
the loop allows.

1. `lookup_advances`: a code that is accepted moves on.
2. `decodeBlocks_watched`: nothing is caught but a damaged stream, with any guard from 64 on.
3. `planes_safe`: the same of the planes of a slice, whose last block ends with its buffer.
-/

namespace OmtClient.Vmx

open OmtClient.Lib

/-- What the watch catches. -/
inductive Trap
  | rejected
  | index
  | overflow
  | guard
  | stuck
  deriving DecidableEq, Repr

def watch (c : Bool) (t : Trap) : Except Trap Unit := if c then .ok () else .error t

/-- `l[i]`. -/
def fetch {α : Type} (l : List α) (i : Nat) : Except Trap α :=
  match l[i]? with
  | some a => .ok a
  | none => .error .index

/-- `l[i] = v`. -/
def put {α : Type} (l : List α) (i : Nat) (v : α) : Except Trap (List α) :=
  if i < l.length then .ok (l.set i v) else .error .index

def fits (bits n : Nat) : Except Trap Nat := if n < 2 ^ bits then .ok n else .error .overflow

/-- How many entries the lookahead table has. -/
def lookaheadLength : Nat := (acLookaheadRuns.map Prod.snd).sum

/-! ## Codes -/

def Codes.manualWatched (s : Codes) : Except Trap Codes :=
  let (kind, ac) := s.ac.take 1
  if kind = 1 then
    let (single, ac) := ac.take 1
    if single = 1 then do
      let pending ← fits 32 (s.pending + 1)
      pure { s with ac, pending }
    else
      let (zeros, ac) := ac.zerosBare
      let (run, ac) := ac.take (zeros + 2)
      do
        let pending ← fits 64 (s.pending + run)
        pure { s with ac, pending := min pending (2 ^ 32 - 1) }
  else
    let (zeros, ac) := ac.zerosBare
    let (value, ac) := ac.take (zeros + 2)
    do
      let pending ← fits 32 (s.pending + 1)
      if s.pending < 64 then do
        let place ← fetch zigzagNatural s.pending
        let block ← put s.block (place % 64) (magSign value)
        pure ⟨ac, pending, block, s.pending⟩
      else pure { s with ac, pending }

def Codes.entryWatched (s : Codes) : Except Trap Nat :=
  if lookaheadBits ≤ s.ac.bitsLeft then do
    let shift := 64 - s.ac.bitsLeft
    watch (decide (0 ≤ shift) && decide (shift < 64)) .overflow
    let i := shl64 s.ac.window shift.toNat / 2 ^ (64 - lookaheadBits) % 4096
    watch (decide (i < lookaheadLength)) .index
    pure (acLookahead i)
  else pure 0

def Codes.lookupWatched (s : Codes) : Except Trap Codes := do
  let entry ← s.entryWatched
  if entry ≠ 0 then do
    let coefficient := wrap16 (entry % 65536)
    let place ← fetch zigzagNatural (s.pending % 64)
    let block ← put s.block (place % 64) coefficient
    let pending ← fits 32 (s.pending + entry / 2 ^ 24)
    pure { ac := { s.ac with bitsLeft := s.ac.bitsLeft - (entry / 65536 % 256 : Nat) }
           pending, block, last := if coefficient ≠ 0 then s.pending else s.last }
  else s.manualWatched

/-- The loop over the codes of a block. A code that is accepted has to move on. -/
def Codes.readWatched : Nat → Codes → Except Trap Codes
  | 0, s => if s.pending < 64 then .error .guard else .ok s
  | limit + 1, s =>
    if s.pending < 64 then do
      let t ← s.lookupWatched
      let ac := t.ac.reload
      if ac.corrupt then .error .rejected
      else if t.pending ≤ s.pending then .error .stuck
      else Codes.readWatched limit { t with ac }
    else .ok s

/-! ## Blocks -/

/-- The eight stores of a tile into `room` bytes. -/
def tileRoom (stride room : Nat) : Bool := (List.range 8).all fun row => decide (row * stride + 8 ≤ room)

def dcTermWatched (dc : Reader) (block : List Int) (dcShift : Nat) : Except Trap (Reader × List Int) :=
  let (kind, dc) := dc.bit
  if kind = 1 then pure (dc.bit.2, block)
  else
    let (zeros, dc) := dc.zeros
    let (value, dc) := dc.bits (zeros + 2)
    do
      let block ← put block 0 (shiftSigned (magSign value) dcShift)
      pure (dc, block)

/-- One block of a plane whose destination has `len` bytes. -/
def decodeBlockWatched (limit : Nat) (k : Kernels) (job : PlaneJob) (len offset : Nat) (s : Progress) :
    Except Trap (Progress × Tile) := do
  let codes ← Codes.readWatched limit ⟨s.ac, s.pending, s.block, 0⟩
  watch (decide (64 ≤ codes.pending)) .overflow
  let term ← dcTermWatched s.dc codes.block job.dcShift
  if term.1.corrupt then .error .rejected
  else do
    let first ← fetch term.2 0
    let level := wrap16 (first + s.dcPrediction)
    let block ← put term.2 0 level
    watch (decide (offset ≤ len)) .index
    watch (tileRoom job.stride (len - offset)) .index
    if s.pending < 64 then do
      let rows ← fetch rowsUsed (codes.last % 64)
      watch (decide (rows * 8 ≤ block.length)) .index
      pure (⟨term.1, codes.ac, codes.pending - 64, level, List.replicate (rows * 8) 0 ++ block.drop (rows * 8)⟩,
        k.idct block job.matrix job.bias rows)
    else do
      watch (decide (8 ≤ job.stride) && decide (7 * job.stride + 8 ≤ len - offset)) .index
      let cleared ← put block 0 0
      pure (⟨term.1, codes.ac, codes.pending - 64, level, cleared⟩, broadcastDc level job.bias)

def decodeBlocksWatched (limit : Nat) (k : Kernels) (job : PlaneJob) (len : Nat) :
    List Nat → Progress → List (Nat × Tile) × Except Trap Progress
  | [], s => ([], .ok s)
  | offset :: rest, s =>
    match decodeBlockWatched limit k job len offset s with
    | .error t => ([], .error t)
    | .ok (s', t) =>
      let (tiles, last) := decodeBlocksWatched limit k job len rest s'
      ((offset, t) :: tiles, last)

/-- A verdict as the watch gives it. -/
def verdict {α : Type} : Option α → Except Trap α
  | some a => .ok a
  | none => .error .rejected

def decodePlaneWatched (limit : Nat) (k : Kernels) (job : PlaneJob) (dc ac : Reader) (dst : Bytes) :
    Bytes × Except Trap (Reader × Reader) :=
  if job.stride = 0 ∨ job.stride % 8 ≠ 0 ∨ dst.length / 16 < job.stride then (dst, .error .rejected)
  else
    let (tiles, last) := decodeBlocksWatched limit k job dst.length (blockOffsets job.stride) ⟨dc, ac, 0, 0, List.replicate 64 0⟩
    (applyAll dst (tiles.flatMap (tileWrites job.stride)), last.bind fun s => verdict (finishPlane s))

/-- The three planes of a slice in the scratch. -/
def decodePlanesWatched (limit : Nat) (k : Kernels) (g : Geometry) (job : Job) (slice : Slice) (s : Scratch) :
    Scratch × Except Trap Unit :=
  let plane := fun stride bias => (⟨stride, bias, job.matrix, job.dcShift⟩ : PlaneJob)
  let dc := Reader.start slice.dc.visible
  let ac := Reader.start slice.ac.visible
  match decodePlaneWatched limit k (plane g.lumaStride 128) dc ac s.luma with
  | (luma, .error t) => ({ s with luma }, .error t)
  | (luma, .ok (dc, ac)) =>
    match decodePlaneWatched limit k (plane g.chromaStride 0) dc ac s.blue with
    | (blue, .error t) => ({ s with luma, blue }, .error t)
    | (blue, .ok (dc, ac)) =>
      match decodePlaneWatched limit k (plane g.chromaStride 0) dc ac s.red with
      | (red, .error t) => ({ s with luma, blue, red }, .error t)
      | (red, .ok _) => ({ s with luma, blue, red }, .ok ())

namespace WatchLemmas

open LookaheadLemmas CursorLemmas

variable {s : Codes} {r : Reader}

theorem watch_true {c : Bool} {t : Trap} (h : c = true) : watch c t = .ok () := if_pos h

theorem fits_lt {bits n : Nat} (h : n < 2 ^ bits) : fits bits n = .ok n := if_pos h

theorem fetch_getD {l : List Nat} {i : Nat} (h : i < l.length) : fetch l i = .ok (l.getD i 0) := by
  rw [fetch, List.getD_eq_getElem?_getD, List.getElem?_eq_getElem h]
  rfl

theorem put_set {α : Type} {l : List α} {i : Nat} (h : i < l.length) (v : α) : put l i v = .ok (l.set i v) := if_pos h

theorem zigzag_length : zigzagNatural.length = 64 := by decide

theorem rowsUsed_length : rowsUsed.length = 64 := by decide

theorem lookahead_length : lookaheadLength = 4096 := by decide +kernel

/-! ### What a code reads -/

theorem take_one_left {n : Int} (h : r.bitsLeft ≤ n + 1) (hn : 0 ≤ n) : (r.take 1).2.bitsLeft ≤ n := by
  unfold Reader.take
  dsimp only
  split
  · dsimp only
    omega
  · dsimp only
    omega

theorem zerosBare_kept {n : Int} (h : r.bitsLeft ≤ n) : r.zerosBare.2.bitsLeft ≤ n ∧ 0 ≤ r.zerosBare.1 := by
  have hleading : r.leadingZeros.2.bitsLeft ≤ n ∧ 0 ≤ r.leadingZeros.1 := by
    unfold Reader.leadingZeros
    split
    · exact ⟨h, Int.le_refl 0⟩
    · exact ⟨h, Int.natCast_nonneg _⟩
  unfold Reader.zerosBare
  dsimp only
  split
  · exact ⟨hleading.1, Int.le_refl 0⟩
  · dsimp only
    exact ⟨by omega, hleading.2⟩

/-- What is taken is made of bits of the window. -/
theorem take_lt {n : Nat} {count : Int} (h : r.bitsLeft ≤ n) : (r.take count).1 < 2 ^ n := by
  unfold Reader.take
  dsimp only
  split
  · exact Nat.two_pow_pos n
  · refine Nat.lt_of_lt_of_le (Nat.mod_lt _ (Nat.two_pow_pos _)) (Nat.pow_le_pow_right (by decide) ?_)
    omega

theorem manual_watched (hs : Filled s) (h : s.pending < 64) : s.manualWatched = .ok s.manual := by
  have hsmall : s.pending + 1 < 2 ^ 32 := by omega
  have hkind := (@take_one_left _ 63) hs.left (by decide)
  unfold Codes.manualWatched Codes.manual
  dsimp only
  split
  · have hsingle := (@take_one_left _ 62) hkind (by decide)
    split
    · rw [fits_lt hsmall]
      rfl
    · have hrun := (@take_lt ((s.ac.take 1).2.take 1).2.zerosBare.2 62 (((s.ac.take 1).2.take 1).2.zerosBare.1 + 2))
        (zerosBare_kept hsingle).1
      rw [fits_lt (by omega)]
      rfl
  · have hplace := zigzag_lt h
    rw [fits_lt hsmall, fetch_getD (by rw [zigzag_length]; exact h)]
    dsimp only [bind, Except.bind]
    rw [put_set (by rw [hs.length]; exact Nat.mod_lt _ (by decide))]
    rfl

/-- The zeros in front of a length are followed by a one, so what is taken after them is not zero. -/
theorem run_pos (hleft : r.bitsLeft < 64) (hok : (r.zerosBare.2.take (r.zerosBare.1 + 2)).2.corrupt = false) :
    0 < (r.zerosBare.2.take (r.zerosBare.1 + 2)).1 := by
  have hbare : r.zerosBare.2.corrupt = false := sound_before take_corrupt hok
  have hpos : 0 < r.bitsLeft := by
    by_contra hnot
    have hzero : r.leadingZeros = (0, { r with corrupt := true }) := if_pos (.inl (by omega))
    rw [Reader.zerosBare, hzero] at hbare
    dsimp only at hbare
    split at hbare
    · cases hbare
    · cases hbare
  obtain ⟨n, hn⟩ := Int.eq_ofNat_of_zero_le (Int.le_of_lt hpos)
  have hn0 : 0 < n := by omega
  have hhigh : n < 64 := by omega
  by_cases hone : r.window % 2 ^ n = 0
  · rw [Reader.zerosBare, leadingZeros_field hn (by omega) hn0, if_pos hone] at hbare
    dsimp only at hbare
    rw [if_pos (by omega)] at hbare
    cases hbare
  have hlt : (r.window % 2 ^ n).log2 < n := (Nat.log2_lt hone).mpr (Nat.mod_lt _ (Nat.two_pow_pos n))
  have hlow := Nat.log2_self_le hone
  have hhi := @Nat.lt_log2_self (r.window % 2 ^ n)
  rw [zerosBare_field hn (by omega) hn0 hone] at hok ⊢
  generalize hl : (r.window % 2 ^ n).log2 = l at *
  have hcount : ((n - 1 - l : Nat) : Int) + 2 = ((n + 1 - l : Nat) : Int) := by omega
  dsimp only at hok ⊢
  rw [hcount] at hok ⊢
  have hroom : n + 1 - l ≤ l + 1 := by
    by_contra hnot
    have hnone : (Reader.take { r with bitsLeft := ((l + 1 : Nat) : Int) } ((n + 1 - l : Nat) : Int)).2.corrupt = true := by
      unfold Reader.take
      dsimp only
      rw [if_pos (.inl (by omega))]
    rw [hnone] at hok
    cases hok
  rw [take_field (n := l + 1) rfl (by omega) (by omega) hroom]
  dsimp only
  -- the upper part of what is left, down to the place where the taken bits end
  have hfield : r.window / 2 ^ (l + 1 - (n + 1 - l)) % 2 ^ (n + 1 - l) = r.window % 2 ^ n / 2 ^ (l + 1 - (n + 1 - l)) := by
    have hmod : r.window % 2 ^ n % 2 ^ (l + 1) = r.window % 2 ^ n := Nat.mod_eq_of_lt hhi
    have hsplit : l + 1 = l + 1 - (n + 1 - l) + (n + 1 - l) := by omega
    rw [← mod_div_pow, ← hsplit, ← mod_pow_mod (w := r.window) (m := l + 1) (n := n) (by omega), hmod]
  rw [hfield]
  refine Nat.div_pos (Nat.le_trans (Nat.pow_le_pow_right (by decide) ?_) hlow) (Nat.two_pow_pos _)
  omega

/-- A code bit by bit that leaves the reader sound moves on. -/
theorem manual_advances (hleft : s.ac.bitsLeft ≤ 64) (h : s.pending < 64) (hok : s.manual.ac.reload.corrupt = false) :
    s.pending < s.manual.pending := by
  have hac : s.manual.ac.corrupt = false := sound_before reload_corrupt hok
  have hkind := (@take_one_left _ 63) hleft (by decide)
  unfold Codes.manual at hac ⊢
  dsimp only at hac ⊢
  split
  · next h1 =>
    rw [if_pos h1] at hac
    have hsingle := (@take_one_left _ 62) hkind (by decide)
    split
    · exact Nat.lt_succ_self _
    · next h2 =>
      rw [if_neg h2] at hac
      have hrun := run_pos (by omega) hac
      dsimp only
      omega
  · exact Nat.lt_succ_self _

/-- A code of the table moves on by less than a thousand. -/
theorem advance_lt (t : Nat) : acLookahead t / 2 ^ 24 < 2 ^ 11 := by
  have hok := table_ok t
  rw [entryOk, Bool.or_eq_true, beq_iff_eq, Bool.and_eq_true, Bool.and_eq_true] at hok
  rcases hok with hzero | ⟨⟨_, hcode⟩, _⟩
  · rw [hzero]
    exact Nat.two_pow_pos 11
  · have hcode : unpack (acLookahead t) = codeAt t := eq_of_beq hcode
    have hadvance : acLookahead t / 2 ^ 24 = (codeAt t).2.1 := by rw [← hcode, unpack]
    rw [hadvance, codeAt]
    split
    · split
      · exact Nat.one_lt_two_pow (by decide)
      · exact Nat.lt_of_lt_of_le (Nat.mod_lt _ (Nat.two_pow_pos _)) (Nat.pow_le_pow_right (by decide) (Nat.sub_le _ _))
    · exact Nat.one_lt_two_pow (by decide)

theorem entry_watched (hleft : s.ac.bitsLeft ≤ 64) : s.entryWatched = .ok s.entry := by
  unfold Codes.entryWatched Codes.entry
  split
  · next hlow =>
    have hshift : (decide (0 ≤ 64 - s.ac.bitsLeft) && decide (64 - s.ac.bitsLeft < 64)) = true := by
      rw [Bool.and_eq_true, decide_eq_true_eq, decide_eq_true_eq]
      unfold lookaheadBits at hlow
      omega
    dsimp only
    rw [watch_true hshift]
    dsimp only [bind, Except.bind]
    rw [watch_true (decide_eq_true (by rw [lookahead_length]; exact Nat.mod_lt _ (by decide)))]
    rfl
  · rfl

theorem lookup_watched (hs : Filled s) (h : s.pending < 64) : s.lookupWatched = .ok s.lookup := by
  unfold Codes.lookupWatched Codes.lookup
  rw [entry_watched hs.left]
  dsimp only [bind, Except.bind]
  split
  · have hadvance : s.entry / 2 ^ 24 < 2 ^ 11 := by
      unfold Codes.entry
      split
      · exact advance_lt _
      · exact Nat.two_pow_pos 11
    rw [fetch_getD (by rw [zigzag_length]; exact Nat.mod_lt _ (by decide))]
    dsimp only
    rw [put_set (by rw [hs.length]; exact Nat.mod_lt _ (by decide))]
    dsimp only
    rw [fits_lt (by omega)]
    rfl
  · exact manual_watched hs h

end WatchLemmas

open LookaheadLemmas WatchLemmas

/-- A code that is accepted moves on in the block. -/
theorem lookup_advances {s : Codes} (hs : Filled s) (h : s.pending < 64) (hok : s.lookup.ac.reload.corrupt = false) :
    s.pending < s.lookup.pending := by
  rw [lookup_eq_manual hs.left h (set_empty hs h)] at hok ⊢
  exact manual_advances hs.left h hok

namespace WatchLemmas

/-- The loop under watch, where the guard of either loop allows a code for every place that is left. -/
theorem read_watched {s : Codes} (hs : Filled s) {limit fuel : Nat} (hlimit : 64 ≤ s.pending + limit) (hfuel : 64 ≤ s.pending + fuel) :
    Codes.readWatched limit s = verdict (Codes.read Codes.lookup fuel s) := by
  induction limit generalizing s fuel with
  | zero =>
    have hdone : ¬ s.pending < 64 := by omega
    rw [Codes.readWatched, if_neg hdone]
    cases fuel with
    | zero => rw [Codes.read, if_neg hdone]; rfl
    | succ fuel => rw [Codes.read, if_neg hdone]; rfl
  | succ limit ih =>
    rw [Codes.readWatched]
    by_cases hpending : s.pending < 64
    · obtain ⟨fuel, rfl⟩ : ∃ n, fuel = n + 1 := ⟨fuel - 1, by omega⟩
      rw [Codes.read, if_pos hpending, if_pos hpending, lookup_watched hs hpending]
      dsimp only [bind, Except.bind]
      cases hok : s.lookup.ac.reload.corrupt with
      | true => rfl
      | false =>
        have hmoves := lookup_advances hs hpending hok
        rw [if_neg Bool.false_ne_true, if_neg Bool.false_ne_true, if_neg (Nat.not_le.mpr hmoves)]
        have hnext := manual_filled hs hpending
        rw [← lookup_eq_manual hs.left hpending (set_empty hs hpending)] at hnext
        exact ih hnext (by dsimp only; omega) (by dsimp only; omega)
    · rw [if_neg hpending]
      cases fuel with
      | zero => rw [Codes.read, if_neg hpending]; rfl
      | succ fuel => rw [Codes.read, if_neg hpending]; rfl

theorem read_done {code : Codes → Codes} {fuel : Nat} {s s' : Codes} (h : Codes.read code fuel s = some s') : 64 ≤ s'.pending := by
  induction fuel generalizing s with
  | zero =>
    rw [Codes.read] at h
    split at h
    · cases h
    · next hdone =>
      cases h
      exact Nat.not_lt.mp hdone
  | succ fuel ih =>
    rw [Codes.read] at h
    split at h
    · dsimp only at h
      split at h
      · cases h
      · exact ih h
    · next hdone =>
      cases h
      exact Nat.not_lt.mp hdone

/-! ### Blocks -/

variable {k : Kernels} {job : PlaneJob} {limit len offset : Nat}

theorem dcTerm_watched {dc : Reader} {block : List Int} (hlength : block.length = 64) (dcShift : Nat) :
    dcTermWatched dc block dcShift = .ok (dcTerm dc block dcShift) ∧ (dcTerm dc block dcShift).2.length = 64 := by
  unfold dcTermWatched dcTerm
  dsimp only
  split
  · exact ⟨rfl, hlength⟩
  · rw [put_set (by rw [hlength]; decide)]
    exact ⟨rfl, (List.length_set ..).trans hlength⟩

theorem tile_room {stride room : Nat} (h : 7 * stride + 8 ≤ room) : tileRoom stride room = true := by
  refine List.all_eq_true.mpr fun row hrow => decide_eq_true ?_
  have hle : row * stride ≤ 7 * stride := Nat.mul_le_mul_right _ (Nat.le_of_lt_succ (List.mem_range.mp hrow))
  omega

theorem block_watched (hlimit : 64 ≤ limit) {s : Progress} (hac : s.ac.bitsLeft ≤ 64) (hblock : s.block = zeroBlock)
    (hstride : 8 ≤ job.stride) (hroom : offset + (7 * job.stride + 8) ≤ len) :
    decodeBlockWatched limit k job len offset s = verdict (decodeBlock k job s) := by
  have hstart := (@filled_start s.ac) hac s.pending
  unfold decodeBlockWatched decodeBlock
  have hfuel : 64 ≤ s.pending + maxSymbolsPerBlock := by
    unfold maxSymbolsPerBlock
    omega
  rw [hblock, read_watched hstart (Nat.le_add_left_of_le hlimit) hfuel]
  cases hread : Codes.read Codes.lookup maxSymbolsPerBlock ⟨s.ac, s.pending, zeroBlock, 0⟩ with
  | none => rfl
  | some codes =>
    have hs : Filled codes := by
      obtain ⟨hsame, hfilled⟩ := read_eq hstart maxSymbolsPerBlock
      exact hfilled codes (hsame.symm.trans hread)
    obtain ⟨hterm, hlength⟩ := (@dcTerm_watched s.dc codes.block) hs.length job.dcShift
    dsimp only [verdict, bind, Except.bind, Option.bind]
    rw [watch_true (decide_eq_true (read_done hread)), hterm]
    dsimp only
    generalize dcTerm s.dc codes.block job.dcShift = term at hlength ⊢
    cases term.1.corrupt with
    | true => rfl
    | false =>
      have hfetch : fetch term.2 0 = .ok (term.2.getD 0 0) := by
        rw [fetch, List.getD_eq_getElem?_getD, List.getElem?_eq_getElem (by rw [hlength]; decide)]
        rfl
      rw [if_neg Bool.false_ne_true, if_neg Bool.false_ne_true, hfetch]
      dsimp only
      generalize wrap16 (term.2.getD 0 0 + s.dcPrediction) = level
      have hset : (term.2.set 0 level).length = 64 := (List.length_set ..).trans hlength
      rw [put_set (by rw [hlength]; decide)]
      dsimp only
      rw [watch_true (decide_eq_true (by omega)), watch_true (tile_room (by omega))]
      dsimp only
      split
      · rw [fetch_getD (by rw [rowsUsed_length]; exact Nat.mod_lt _ (by decide))]
        dsimp only
        rw [watch_true (decide_eq_true (by rw [hset]; exact rows_le (Nat.mod_lt _ (by decide))))]
        rfl
      · have hcheck : (decide (8 ≤ job.stride) && decide (7 * job.stride + 8 ≤ len - offset)) = true := by
          rw [Bool.and_eq_true, decide_eq_true_eq, decide_eq_true_eq]
          omega
        rw [watch_true hcheck, put_set (by rw [hset]; decide)]
        rfl

/-- The kernels have no part in how far the streams are read. -/
theorem block_progress (k k' : Kernels) (job : PlaneJob) (s : Progress) :
    (decodeBlock k job s).map Prod.fst = (decodeBlock k' job s).map Prod.fst := by
  unfold decodeBlock
  cases Codes.read Codes.lookup maxSymbolsPerBlock ⟨s.ac, s.pending, s.block, 0⟩ with
  | none => rfl
  | some codes =>
    dsimp only [bind, Option.bind]
    split
    · rfl
    · split
      · rfl
      · rfl

theorem block_kept {s s' : Progress} {t : Tile} (hac : s.ac.bitsLeft ≤ 64) (hblock : s.block = zeroBlock)
    (h : decodeBlock k job s = some (s', t)) : s'.ac.bitsLeft ≤ 64 ∧ s'.block = zeroBlock := by
  obtain ⟨hsame, hkept⟩ := decodeBlock_reference exact_portable job hac hblock
  have hmap := block_progress k portable job s
  rw [h, hsame] at hmap
  obtain ⟨⟨s'', t'⟩, href, rfl⟩ := Option.map_eq_some_iff.mp hmap.symm
  exact hkept _ _ href

theorem offset_room {stride : Nat} (hstride : stride % 8 = 0) (h : offset ∈ blockOffsets stride) :
    offset + (7 * stride + 8) ≤ 16 * stride := by
  obtain ⟨row, hrow, hcolumn⟩ := List.mem_flatMap.mp h
  obtain ⟨column, hin, rfl⟩ := List.mem_map.mp hcolumn
  have := List.mem_range.mp hin
  have hrow : row * stride ≤ 8 * stride := Nat.mul_le_mul_right _ (by
    rcases List.mem_cons.mp hrow with rfl | hrow
    · decide
    · exact Nat.le_of_eq (List.mem_singleton.mp hrow))
  omega

end WatchLemmas

/-- Blocks under watch: the watch catches nothing that the decoder does not reject. -/
theorem decodeBlocks_watched {k : Kernels} {job : PlaneJob} {limit len : Nat} (hlimit : 64 ≤ limit) (hstride : 8 ≤ job.stride)
    {offsets : List Nat} (hroom : ∀ offset ∈ offsets, offset + (7 * job.stride + 8) ≤ len) {s : Progress}
    (hac : s.ac.bitsLeft ≤ 64) (hblock : s.block = zeroBlock) :
    decodeBlocksWatched limit k job len offsets s =
      ((decodeBlocks k job offsets s).1, verdict (decodeBlocks k job offsets s).2) ∧
    ∀ s', (decodeBlocks k job offsets s).2 = some s' → s'.ac.bitsLeft ≤ 64 := by
  induction offsets generalizing s with
  | nil => exact ⟨rfl, fun s' h => Option.some.inj h ▸ hac⟩
  | cons offset rest ih =>
    rw [decodeBlocksWatched, decodeBlocks, block_watched hlimit hac hblock hstride (hroom offset List.mem_cons_self)]
    cases hdecode : decodeBlock k job s with
    | none => exact ⟨rfl, by rintro _ ⟨⟩⟩
    | some p =>
      obtain ⟨hac', hblock'⟩ := block_kept hac hblock hdecode
      obtain ⟨hrest, hlast⟩ := ih (fun o ho => hroom o (List.mem_cons_of_mem _ ho)) hac' hblock'
      dsimp only [verdict]
      rw [hrest]
      exact ⟨rfl, hlast⟩

namespace WatchLemmas

variable {k : Kernels} {job : PlaneJob} {limit : Nat}

/-! ### The reader that goes on to the next plane -/

theorem flush_left {r : Reader} (h : r.bitsLeft ≤ 64) : r.flush.bitsLeft ≤ 64 := by
  unfold Reader.flush
  split
  · rw [moveTo_left]
  · exact h

theorem bitsLoop_left (fuel : Nat) (remaining : Int) (value : Nat) {r : Reader} (h : r.bitsLeft ≤ 64) :
    (Reader.bitsLoop fuel remaining value r).2.bitsLeft ≤ 64 := by
  induction fuel generalizing remaining value r with
  | zero => exact h
  | succ fuel ih =>
    unfold Reader.bitsLoop
    split
    · exact h
    · dsimp only
      split
      · exact h
      · exact ih _ _ (flush_left (take_left h (by omega)))

theorem align_left {r : Reader} (h : r.bitsLeft ≤ 64) : r.align.bitsLeft ≤ 64 := by
  unfold Reader.align
  refine flush_left ?_
  split
  · unfold Reader.bits
    split
    · exact h
    · exact bitsLoop_left _ _ _ h
  · exact h

/-! ### Planes -/

theorem plane_watched (hlimit : 64 ≤ limit) (dc : Reader) {ac : Reader} (hac : ac.bitsLeft ≤ 64) (dst : Bytes) :
    decodePlaneWatched limit k job dc ac dst = ((decodePlane k job dc ac dst).1, verdict (decodePlane k job dc ac dst).2) ∧
      ∀ dc' ac', (decodePlane k job dc ac dst).2 = some (dc', ac') → ac'.bitsLeft ≤ 64 := by
  unfold decodePlaneWatched decodePlane
  split
  · exact ⟨rfl, by rintro _ _ ⟨⟩⟩
  · next hstride =>
    obtain ⟨hblocks, hkept⟩ := (@decodeBlocks_watched k job _ dst.length) hlimit (by omega)
      (fun offset hoffset => Nat.le_trans (offset_room (by omega) hoffset) (by omega))
      (s := ⟨dc, ac, 0, 0, zeroBlock⟩) hac rfl
    rw [← zeroBlock, hblocks]
    dsimp only
    generalize decodeBlocks k job (blockOffsets job.stride) ⟨dc, ac, 0, 0, zeroBlock⟩ = blocks at hkept
    obtain ⟨tiles, last⟩ := blocks
    cases last with
    | none => exact ⟨rfl, by rintro _ _ ⟨⟩⟩
    | some s =>
      refine ⟨rfl, fun dc' ac' h => ?_⟩
      replace h : finishPlane s = some (dc', ac') := h
      unfold finishPlane at h
      dsimp only at h
      split at h
      · cases h
      · cases h
        exact align_left (hkept s rfl)

/-- A plane under watch and unwatched: both are rejected, or both end alike. -/
theorem plane_cases (hlimit : 64 ≤ limit) (dc : Reader) {ac : Reader} (hac : ac.bitsLeft ≤ 64) (dst : Bytes) :
    (∃ a, decodePlaneWatched limit k job dc ac dst = (a, .error .rejected) ∧ decodePlane k job dc ac dst = (a, none)) ∨
    ∃ a dc' ac', decodePlaneWatched limit k job dc ac dst = (a, .ok (dc', ac')) ∧
      decodePlane k job dc ac dst = (a, some (dc', ac')) ∧ ac'.bitsLeft ≤ 64 := by
  obtain ⟨hwatched, hkept⟩ := (@plane_watched k job _) hlimit dc hac dst
  rw [hwatched]
  cases hplane : decodePlane k job dc ac dst with
  | mk a verdict =>
    cases verdict with
    | none => exact .inl ⟨a, rfl, rfl⟩
    | some readers => exact .inr ⟨a, readers.1, readers.2, rfl, rfl, hkept _ _ (by rw [hplane])⟩

/-- The last block of a plane ends where its rows end. -/
theorem last_block {stride : Nat} (hpos : 0 < stride) (hstride : stride % 8 = 0) :
    ∃ last, (blockOffsets stride).getLast? = some last ∧ last + (7 * stride + 8) = 16 * stride := by
  obtain ⟨n, hn⟩ : ∃ n, stride / 8 = n + 1 := ⟨stride / 8 - 1, by omega⟩
  refine ⟨8 * stride + n * 8, ?_, by omega⟩
  rw [blockOffsets, List.flatMap_cons, List.flatMap_singleton, hn, List.range_succ, List.map_append, List.map_append,
    List.map_singleton, List.map_singleton, ← List.append_assoc, List.getLast?_concat]

theorem lumaStride_fits (g : Geometry) : 0 < g.lumaStride ∧ g.lumaStride % 8 = 0 := by
  have := g.hwidth.1
  unfold Geometry.lumaStride align8
  omega

theorem chromaStride_fits (g : Geometry) : 0 < g.chromaStride ∧ g.chromaStride % 8 = 0 := by
  have := g.hwidth.1
  unfold Geometry.chromaStride align8
  omega

end WatchLemmas

/-- **Decoding a slice is safe.** Whatever its streams and the scratch hold, and with any guard from
64 on (the code's is 4096), the watch over its planes catches a damaged stream and nothing else, and
the planes come out as they do unwatched. The last block of each plane ends where its buffer ends. -/
theorem planes_safe (k : Kernels) (g : Geometry) (job : Job) (slice : Slice) (s : Scratch) (more : Nat) :
    decodePlanesWatched (64 + more) k g job slice s =
      ((decodePlanes k g job slice s).1, bif (decodePlanes k g job slice s).2 then .ok () else .error .rejected) ∧
    ∀ stride ∈ [g.lumaStride, g.chromaStride],
      ∃ last, (blockOffsets stride).getLast? = some last ∧ last + (7 * stride + 8) = 16 * stride := by
  have hlimit : 64 ≤ 64 + more := Nat.le_add_right 64 more
  refine ⟨?_, fun stride hstride => ?_⟩
  · unfold decodePlanesWatched decodePlanes
    extract_lets plane dc ac
    rcases (@plane_cases k (plane g.lumaStride 128) _) hlimit dc (start_left _ : ac.bitsLeft ≤ 64) s.luma with
      ⟨luma, h, h'⟩ | ⟨luma, dc, ac, h, h', hac⟩
    · rw [h, h']
      rfl
    rw [h, h']
    dsimp only
    rcases (@plane_cases k (plane g.chromaStride 0) _) hlimit dc hac s.blue with ⟨blue, h, h'⟩ | ⟨blue, dc, ac, h, h', hac⟩
    · rw [h, h']
      rfl
    rw [h, h']
    dsimp only
    rcases (@plane_cases k (plane g.chromaStride 0) _) hlimit dc hac s.red with ⟨red, h, h'⟩ | ⟨red, dc, ac, h, h', -⟩
    · rw [h, h']
      rfl
    · rw [h, h']
      rfl
  · rcases List.mem_cons.mp hstride with rfl | hstride
    · exact last_block (lumaStride_fits g).1 (lumaStride_fits g).2
    · rw [List.mem_singleton.mp hstride]
      exact last_block (chromaStride_fits g).1 (chromaStride_fits g).2

end OmtClient.Vmx
