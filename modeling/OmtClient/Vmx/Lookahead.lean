import OmtClient.Lib.Bits
import OmtClient.Vmx.Plane

/-!
# The lookahead table

The plane decoder of `crates/omt-vmx/src/plane.rs` against the bit-by-bit decoder that its
tests hold it to (`reference_plane`): one code at a time, the whole block zeroed, the full
inverse transform.

`codeAt` is the code at the front of twelve bits.

1. `lookup_eq_manual`: a code by the table is the code bit by bit.
2. `decodeBlock_reference`: the block is all zero between blocks, and a block decodes as the
   reference decodes it.
3. `decodePlane_reference`: so does a plane.
-/

namespace OmtClient.Vmx

open OmtClient.Lib

/-! ## The table -/

/-- The code at the front of twelve bits: its length, how far it moves, and its coefficient. -/
def codeAt (t : Nat) : Nat × Nat × Int :=
  if t / 2 ^ 11 % 2 = 1 then
    if t / 2 ^ 10 % 2 = 1 then (2, 1, 0)
    else
      let l := (t % 2 ^ 10).log2
      (22 - 2 * l, t / 2 ^ (2 * l - 10) % 2 ^ (11 - l), 0)
  else
    let l := (t % 2 ^ 11).log2
    (23 - 2 * l, 1, magSign (t / 2 ^ (2 * l - 11) % 2 ^ (12 - l)))

/-- The code is whole: its first one bit after the zeros is early enough. -/
def whole (t : Nat) : Bool :=
  if t / 2 ^ 11 % 2 = 1 then t / 2 ^ 10 % 2 == 1 || decide (32 ≤ t % 2 ^ 10) else decide (64 ≤ t % 2 ^ 11)

/-- The parts of an entry. -/
def unpack (entry : Nat) : Nat × Nat × Int := (entry / 65536 % 256, entry / 2 ^ 24, wrap16 (entry % 65536))

/-- An entry says the code at its index, or nothing. -/
def entryOk (entry t : Nat) : Bool :=
  entry == 0 || (whole t && unpack entry == codeAt t && (t / 2 ^ 11 % 2 == 1 || (codeAt t).2.2 != 0))

/-- A table given by its runs, checked from an index on. -/
def runsOk (ok : Nat → Nat → Bool) : Nat → List (Nat × Nat) → Bool
  | _, [] => true
  | start, (entry, n) :: rest => (List.range n).all (fun i => ok entry (start + i)) && runsOk ok (start + n) rest

namespace LookaheadLemmas

theorem runAt_ok {ok : Nat → Nat → Bool} (hzero : ∀ t, ok 0 t = true) {runs : List (Nat × Nat)} {start : Nat}
    (h : runsOk ok start runs = true) (i : Nat) : ok (runAt runs i) (start + i) = true := by
  induction runs generalizing start i with
  | nil => exact hzero _
  | cons run rest ih =>
    obtain ⟨entry, n⟩ := run
    rw [runsOk, Bool.and_eq_true] at h
    rw [runAt]
    split
    · next hi => exact List.all_eq_true.mp h.1 i (List.mem_range.mpr hi)
    · next hi =>
      have hrest := ih h.2 (i - n)
      rwa [Nat.add_assoc, Nat.add_sub_cancel' (Nat.le_of_not_lt hi)] at hrest

theorem table_ok (t : Nat) : entryOk (acLookahead t) t = true := by
  have hruns : runsOk entryOk 0 acLookaheadRuns = true := by decide +kernel
  have h := runAt_ok (fun _ => rfl) hruns t
  rwa [Nat.zero_add] at h

/-! ## Fields of the window -/

variable {r : Reader} {n m w : Nat}

/-- What is left of the window, moved to the top. -/
theorem shl64_left (h : n ≤ 64) (hpos : 0 < n) : shl64 w (64 - n) = w % 2 ^ n * 2 ^ (64 - n) := by
  have hpow : 2 ^ 64 = 2 ^ n * 2 ^ (64 - n) := by rw [← Nat.pow_add, Nat.add_sub_cancel' h]
  rw [shl64, if_neg (by omega), hpow, Nat.mul_mod_mul_right]

/-- The twelve bits that the table is asked about. -/
theorem index_eq (hlow : 12 ≤ n) (hhigh : n ≤ 64) :
    shl64 w (64 - n) / 2 ^ (64 - lookaheadBits) % 4096 = w / 2 ^ (n - 12) % 2 ^ 12 := by
  have hpow : 2 ^ (64 - lookaheadBits) = 2 ^ (n - 12) * 2 ^ (64 - n) := by
    rw [← Nat.pow_add]
    congr 1
    unfold lookaheadBits
    omega
  have hfield : w % 2 ^ n / 2 ^ (n - 12) = w / 2 ^ (n - 12) % 2 ^ 12 := by
    rw [← mod_div_pow, Nat.sub_add_cancel hlow]
  rw [shl64_left hhigh (by omega), hpow, Nat.mul_div_mul_right _ _ (Nat.two_pow_pos _), hfield]
  exact Nat.mod_mod _ _

theorem take_field (hn : r.bitsLeft = n) (hhigh : n ≤ 64) (hpos : 0 < m) (hm : m ≤ n) :
    r.take (m : Int) = (r.window / 2 ^ (n - m) % 2 ^ m, { r with bitsLeft := ((n - m : Nat) : Int) }) := by
  have hleft : r.bitsLeft - (m : Int) = ((n - m : Nat) : Int) := by omega
  rw [Reader.take, hleft]
  dsimp only
  rw [if_neg (by omega), if_neg (by omega), Int.toNat_natCast, Int.toNat_natCast]

theorem leadingZeros_field (hn : r.bitsLeft = n) (hhigh : n ≤ 64) (hpos : 0 < n) :
    r.leadingZeros = (if r.window % 2 ^ n = 0 then 64 else ((n - 1 - (r.window % 2 ^ n).log2 : Nat) : Int), r) := by
  have hshift : (64 - r.bitsLeft).toNat = 64 - n := by omega
  have hpowpos := Nat.two_pow_pos (64 - n)
  rw [Reader.leadingZeros, if_neg (by omega), hshift, shl64_left hhigh hpos, clz64]
  by_cases hone : r.window % 2 ^ n = 0
  · rw [hone, Nat.zero_mul, if_pos rfl, if_pos rfl]
    rfl
  · have hlt : (r.window % 2 ^ n).log2 < n := (Nat.log2_lt hone).mpr (Nat.mod_lt _ (Nat.two_pow_pos n))
    have hlog : (r.window % 2 ^ n * 2 ^ (64 - n)).log2 = (r.window % 2 ^ n).log2 + (64 - n) :=
      log2_of_div (Nat.mul_div_cancel _ hpowpos) hone
    have hcount : 63 - ((r.window % 2 ^ n).log2 + (64 - n)) = n - 1 - (r.window % 2 ^ n).log2 := by omega
    rw [if_neg (Nat.mul_ne_zero hone (Nat.ne_of_gt hpowpos)), hlog, if_neg hone, hcount]

/-- The zeros at the front of what is left, when there is a one behind them. -/
theorem zerosBare_field (hn : r.bitsLeft = n) (hhigh : n ≤ 64) (hpos : 0 < n) (hone : r.window % 2 ^ n ≠ 0) :
    r.zerosBare = (((n - 1 - (r.window % 2 ^ n).log2 : Nat) : Int),
      { r with bitsLeft := (((r.window % 2 ^ n).log2 + 1 : Nat) : Int) }) := by
  have hlt : (r.window % 2 ^ n).log2 < n := (Nat.log2_lt hone).mpr (Nat.mod_lt _ (Nat.two_pow_pos n))
  rw [Reader.zerosBare, leadingZeros_field hn hhigh hpos, if_neg hone]
  dsimp only
  rw [if_neg (by omega)]
  have hleft : r.bitsLeft - ((n - 1 - (r.window % 2 ^ n).log2 : Nat) : Int) =
      (((r.window % 2 ^ n).log2 + 1 : Nat) : Int) := by omega
  rw [hleft]

/-- The rest of a code of which `j` bits were read, in terms of the twelve bits at its front. -/
theorem zeros_take {j t : Nat} (hlow : 12 ≤ n) (hhigh : n ≤ 64) (hj : j < 12) (hn : r.bitsLeft = ((n - j : Nat) : Int))
    (ht : r.window / 2 ^ (n - 12) % 2 ^ 12 = t) (hone : t % 2 ^ (12 - j) ≠ 0)
    (hwhole : 12 ≤ 2 * (t % 2 ^ (12 - j)).log2 + j) :
    r.zerosBare.2.take (r.zerosBare.1 + 2) =
      (t / 2 ^ (2 * (t % 2 ^ (12 - j)).log2 + j - 12) % 2 ^ (13 - j - (t % 2 ^ (12 - j)).log2),
        { r with bitsLeft := ((n + 2 * (t % 2 ^ (12 - j)).log2 + j - 24 : Nat) : Int) }) := by
  have hlt : (t % 2 ^ (12 - j)).log2 < 12 - j := (Nat.log2_lt hone).mpr (Nat.mod_lt _ (Nat.two_pow_pos _))
  -- the upper part of what is left
  have hupper : r.window % 2 ^ (n - j) / 2 ^ (n - 12) = t % 2 ^ (12 - j) := by
    have hsplit : n - j = n - 12 + (12 - j) := by omega
    rw [hsplit, mod_div_pow, ← ht, mod_pow_mod (Nat.sub_le 12 j)]
  have hlog := log2_of_div hupper hone
  have hleft : r.window % 2 ^ (n - j) ≠ 0 := by
    intro hzero
    rw [hzero, Nat.zero_div] at hupper
    exact hone hupper.symm
  generalize (t % 2 ^ (12 - j)).log2 = l at *
  rw [zerosBare_field hn (by omega) (by omega) hleft, hlog]
  have hcount : ((n - j - 1 - (l + (n - 12)) : Nat) : Int) + 2 = ((13 - j - l : Nat) : Int) := by omega
  dsimp only
  rw [hcount, take_field (n := l + (n - 12) + 1) rfl (by omega) (by omega) (by omega)]
  have hplace : l + (n - 12) + 1 - (13 - j - l) = n - 12 + (2 * l + j - 12) := by omega
  have hbits : l + (n - 12) + 1 - (13 - j - l) = n + 2 * l + j - 24 := by omega
  have hvalue := field_field (w := r.window) (p := n - 12) (n := 12) (q := 2 * l + j - 12) (m := 13 - j - l) (by omega)
  rw [ht] at hvalue
  rw [hvalue]
  dsimp only
  rw [← hplace, ← hbits]

/-! ## One code -/

variable {s : Codes} {t : Nat}

/-- The first bits of a code, as the two takes read them. -/
theorem take_first (hn : s.ac.bitsLeft = n) (hlow : 12 ≤ n) (hhigh : n ≤ 64) (ht : s.ac.window / 2 ^ (n - 12) % 2 ^ 12 = t) :
    s.ac.take 1 = (t / 2 ^ 11 % 2, { s.ac with bitsLeft := ((n - 1 : Nat) : Int) }) ∧
      ({ s.ac with bitsLeft := ((n - 1 : Nat) : Int) } : Reader).take 1 =
        (t / 2 ^ 10 % 2, { s.ac with bitsLeft := ((n - 2 : Nat) : Int) }) := by
  have hbit (q : Nat) (hq : q < 12) : t / 2 ^ q % 2 = s.ac.window / 2 ^ (n - 12 + q) % 2 := by
    have := field_field (w := s.ac.window) (p := n - 12) (n := 12) (q := q) (m := 1) (by omega)
    rwa [ht, Nat.pow_one] at this
  constructor
  · have hplace : n - 1 = n - 12 + 11 := by omega
    rw [hbit 11 (by decide), ← hplace]
    exact take_field (m := 1) hn hhigh (by decide) (by omega)
  · have hplace : n - 1 - 1 = n - 12 + 10 := by omega
    have hbits : n - 2 = n - 1 - 1 := by omega
    rw [hbit 10 (by decide), hbits, ← hplace]
    exact take_field (r := { s.ac with bitsLeft := ((n - 1 : Nat) : Int) }) (n := n - 1) (m := 1) rfl (by omega) (by decide)
      (by omega)

/-- A code bit by bit, when the twelve bits at the front hold it whole. -/
theorem manual_eq (hn : s.ac.bitsLeft = n) (hlow : 12 ≤ n) (hhigh : n ≤ 64) (ht : s.ac.window / 2 ^ (n - 12) % 2 ^ 12 = t)
    (hpending : s.pending < 64) (hwhole : whole t = true) :
    s.manual = { ac := { s.ac with bitsLeft := ((n - (codeAt t).1 : Nat) : Int) }
                 pending := s.pending + (codeAt t).2.1
                 block := if t / 2 ^ 11 % 2 = 1 then s.block
                   else s.block.set (zigzagNatural.getD s.pending 0 % 64) (codeAt t).2.2
                 last := if t / 2 ^ 11 % 2 = 1 then s.last else s.pending } ∧ (codeAt t).1 ≤ 12 := by
  obtain ⟨hkind, hsingle⟩ := take_first hn hlow hhigh ht
  have ht12 : t < 2 ^ 12 := ht ▸ Nat.mod_lt _ (by decide)
  unfold Codes.manual codeAt
  rw [hkind]
  dsimp only
  by_cases h1 : t / 2 ^ 11 % 2 = 1
  · rw [if_pos h1, if_pos h1, if_pos h1, if_pos h1, hsingle]
    dsimp only
    by_cases h2 : t / 2 ^ 10 % 2 = 1
    · rw [if_pos h2, if_pos h2]
      exact ⟨rfl, by decide⟩
    · rw [if_neg h2, if_neg h2]
      have hlarge : 32 ≤ t % 2 ^ 10 := by
        rw [whole, if_pos h1, Bool.or_eq_true, beq_iff_eq, decide_eq_true_eq] at hwhole
        exact hwhole.resolve_left h2
      have hne : t % 2 ^ 10 ≠ 0 := by omega
      have hl : 5 ≤ (t % 2 ^ 10).log2 := (Nat.le_log2 hne).mpr hlarge
      have hlt : (t % 2 ^ 10).log2 < 10 := (Nat.log2_lt hne).mpr (Nat.mod_lt _ (by decide))
      have hrest := zeros_take (r := { s.ac with bitsLeft := ((n - 2 : Nat) : Int) }) (j := 2) hlow hhigh (by decide) rfl ht hne
        (by simp only [Nat.reduceSub]; omega)
      simp only [Nat.reduceSub] at hrest
      generalize (t % 2 ^ 10).log2 = l at *
      have hshift : 2 * l + 2 - 12 = 2 * l - 10 := by omega
      have hbits : n + 2 * l + 2 - 24 = n - (22 - 2 * l) := by omega
      rw [hshift, hbits] at hrest
      rcases hzeros : ({ s.ac with bitsLeft := ((n - 2 : Nat) : Int) } : Reader).zerosBare with ⟨zeros, ac⟩
      rw [hzeros] at hrest
      dsimp only at hrest ⊢
      rw [hrest]
      have hrun : t / 2 ^ (2 * l - 10) % 2 ^ (11 - l) < 2 ^ 6 :=
        Nat.lt_of_lt_of_le (Nat.mod_lt _ (Nat.two_pow_pos _)) (Nat.pow_le_pow_right (by decide) (by omega))
      dsimp only
      rw [Nat.min_eq_left (by omega)]
      exact ⟨rfl, by omega⟩
  · rw [if_neg h1, if_neg h1, if_neg h1, if_neg h1]
    have hlarge : 64 ≤ t % 2 ^ 11 := by
      rw [whole, if_neg h1] at hwhole
      exact of_decide_eq_true hwhole
    have hne : t % 2 ^ 11 ≠ 0 := by omega
    have hl : 6 ≤ (t % 2 ^ 11).log2 := (Nat.le_log2 hne).mpr hlarge
    have hlt : (t % 2 ^ 11).log2 < 11 := (Nat.log2_lt hne).mpr (Nat.mod_lt _ (by decide))
    have hrest := zeros_take (r := { s.ac with bitsLeft := ((n - 1 : Nat) : Int) }) (j := 1) hlow hhigh (by decide) rfl ht hne
      (by simp only [Nat.reduceSub]; omega)
    simp only [Nat.reduceSub] at hrest
    generalize (t % 2 ^ 11).log2 = l at *
    have hshift : 2 * l + 1 - 12 = 2 * l - 11 := by omega
    have hbits : n + 2 * l + 1 - 24 = n - (23 - 2 * l) := by omega
    rw [hshift, hbits] at hrest
    rcases hzeros : ({ s.ac with bitsLeft := ((n - 1 : Nat) : Int) } : Reader).zerosBare with ⟨zeros, ac⟩
    rw [hzeros] at hrest
    dsimp only at hrest ⊢
    rw [hrest]
    dsimp only
    rw [if_pos hpending]
    exact ⟨rfl, by omega⟩

theorem codeAt_run (h : t / 2 ^ 11 % 2 = 1) : (codeAt t).2.2 = 0 := by
  rw [codeAt, if_pos h]
  split
  · rfl
  · rfl

end LookaheadLemmas

open LookaheadLemmas

/-- A code by the table is the code bit by bit, where the block has no coefficient yet. -/
theorem lookup_eq_manual {s : Codes} (hleft : s.ac.bitsLeft ≤ 64) (hpending : s.pending < 64)
    (hempty : s.block.set (zigzagNatural.getD s.pending 0 % 64) 0 = s.block) : s.lookup = s.manual := by
  unfold Codes.lookup
  dsimp only
  split
  · next hentry =>
    have hlow : (lookaheadBits : Int) ≤ s.ac.bitsLeft := by
      by_contra hshort
      exact hentry (if_neg hshort)
    obtain ⟨n, hn⟩ := Int.eq_ofNat_of_zero_le (a := s.ac.bitsLeft) (by unfold lookaheadBits at hlow; omega)
    have hn12 : 12 ≤ n := by
      unfold lookaheadBits at hlow
      omega
    have hshift : (64 - s.ac.bitsLeft).toNat = 64 - n := by omega
    have hindex : s.entry = acLookahead (s.ac.window / 2 ^ (n - 12) % 2 ^ 12) := by
      rw [Codes.entry, if_pos hlow, hshift, index_eq hn12 (by omega)]
    have hok := table_ok (s.ac.window / 2 ^ (n - 12) % 2 ^ 12)
    rw [← hindex] at hok
    generalize ht : s.ac.window / 2 ^ (n - 12) % 2 ^ 12 = t at *
    rw [entryOk, Bool.or_eq_true, beq_iff_eq, Bool.and_eq_true, Bool.and_eq_true] at hok
    obtain ⟨⟨hwhole, hcode⟩, hkind⟩ := hok.resolve_left hentry
    have hcode : unpack s.entry = codeAt t := eq_of_beq hcode
    obtain ⟨hmanual, hshort⟩ := manual_eq hn hn12 (by omega) ht hpending hwhole
    have hlength : s.entry / 65536 % 256 = (codeAt t).1 := by rw [← hcode, unpack]
    have hadvance : s.entry / 2 ^ 24 = (codeAt t).2.1 := by rw [← hcode, unpack]
    have hcoefficient : wrap16 (s.entry % 65536) = (codeAt t).2.2 := by rw [← hcode, unpack]
    have hbits : s.ac.bitsLeft - ((codeAt t).1 : Int) = ((n - (codeAt t).1 : Nat) : Int) := by omega
    rw [hmanual, hlength, hadvance, hcoefficient, hbits, Nat.mod_eq_of_lt hpending]
    by_cases hrun : t / 2 ^ 11 % 2 = 1
    · have hzero : (codeAt t).2.2 = 0 := codeAt_run hrun
      rw [if_pos hrun, if_pos hrun, hzero, hempty, if_neg (fun h => h rfl)]
    · rw [Bool.or_eq_true, beq_iff_eq, bne_iff_ne] at hkind
      have hvalue := hkind.resolve_left hrun
      rw [if_neg hrun, if_neg hrun, if_pos hvalue]
  · rfl

/-! ## The reference -/

def zeroBlock : List Int := List.replicate 64 0

/-- One block of the reference, which zeroes the whole block and transforms all of it; it keeps no
block, so the one of the state is left zero. -/
def referenceBlock (job : PlaneJob) (s : Progress) : Option (Progress × Tile) := do
  let codes ← Codes.read Codes.manual maxSymbolsPerBlock ⟨s.ac, s.pending, zeroBlock, 0⟩
  let (dc, block) := dcTerm s.dc codes.block job.dcShift
  if dc.corrupt then none
  else
    let level := wrap16 (block.getD 0 0 + s.dcPrediction)
    let block := block.set 0 level
    let tile := if s.pending < 64 then idctScalar block job.matrix job.bias else broadcastDc level job.bias
    some (⟨dc, codes.ac, codes.pending - 64, level, zeroBlock⟩, tile)

def referenceBlocks (job : PlaneJob) : List Nat → Progress → List (Nat × Tile) × Option Progress
  | [], s => ([], some s)
  | offset :: rest, s =>
    match referenceBlock job s with
    | none => ([], none)
    | some (s', t) =>
      let (tiles, last) := referenceBlocks job rest s'
      ((offset, t) :: tiles, last)

/-- `reference_plane`, with the DC shift: the destination and, when the stream was not rejected,
the readers. -/
def referencePlane (job : PlaneJob) (dc ac : Reader) (dst : Bytes) : Bytes × Option (Reader × Reader) :=
  let (tiles, last) := referenceBlocks job (blockOffsets job.stride) ⟨dc, ac, 0, 0, zeroBlock⟩
  (applyAll dst (tiles.flatMap (tileWrites job.stride)), last.bind finishPlane)

/-- A transform that is told how many rows may be nonzero gives what the full one gives. -/
def Exact (k : Kernels) : Prop :=
  ∀ (block : List Int) (matrix : List Nat) (bias : Int) (rows : Nat), block.length = 64 →
    (∀ i, rows * 8 ≤ i → block.getD i 0 = 0) → k.idct block matrix bias rows = idctScalar block matrix bias

/-- What holds of a block while its codes are read: nothing is written from `pending` on, and
nothing but zeros behind `last`. -/
structure Filled (s : Codes) : Prop where
  left : s.ac.bitsLeft ≤ 64
  length : s.block.length = 64
  empty : ∀ p, s.pending ≤ p → p < 64 → s.block.getD (zigzagNatural.getD p 0) 0 = 0
  behind : ∀ p, s.last < p → p < 64 → s.block.getD (zigzagNatural.getD p 0) 0 = 0
  last : s.last < 64

namespace LookaheadLemmas

/-! ## The window never grows past its size -/

theorem moveTo_left (r : Reader) (position : Nat) : (r.moveTo position).bitsLeft = r.bitsLeft := by
  unfold Reader.moveTo
  split
  · rfl
  · rfl

theorem reload_left {r : Reader} (h : r.bitsLeft ≤ 64) : r.reload.bitsLeft ≤ 64 := by
  unfold Reader.reload
  split
  · split
    · exact h
    · dsimp only
      rw [moveTo_left]
      dsimp only
      omega
  · exact h

theorem take_left {r : Reader} {count : Int} (h : r.bitsLeft ≤ 64) (hcount : 0 ≤ count) : (r.take count).2.bitsLeft ≤ 64 := by
  unfold Reader.take
  dsimp only
  split
  · dsimp only
    omega
  · dsimp only
    omega

theorem zerosBare_left {r : Reader} (h : r.bitsLeft ≤ 64) : r.zerosBare.2.bitsLeft ≤ 64 ∧ 0 ≤ r.zerosBare.1 := by
  have hleading : r.leadingZeros.2.bitsLeft ≤ 64 ∧ 0 ≤ r.leadingZeros.1 := by
    unfold Reader.leadingZeros
    split
    · exact ⟨h, Int.le_refl 0⟩
    · exact ⟨h, Int.natCast_nonneg _⟩
  unfold Reader.zerosBare
  dsimp only
  split
  · exact ⟨hleading.1, Int.le_refl 0⟩
  · dsimp only
    exact ⟨by omega, hleading.2⟩

theorem manual_left {s : Codes} (h : s.ac.bitsLeft ≤ 64) : s.manual.ac.bitsLeft ≤ 64 := by
  have hkind := (@take_left _ 1) h (by decide)
  unfold Codes.manual
  dsimp only
  split
  · have hsingle := (@take_left _ 1) hkind (by decide)
    split
    · exact hsingle
    · obtain ⟨hzeros, hcount⟩ := zerosBare_left hsingle
      exact take_left hzeros (by omega)
  · obtain ⟨hzeros, hcount⟩ := zerosBare_left hkind
    have hvalue := (@take_left _ ((s.ac.take 1).2.zerosBare.1 + 2)) hzeros (by omega)
    split
    · exact hvalue
    · exact hvalue

/-! ## The zig-zag order -/

theorem zigzag_lt {p : Nat} (h : p < 64) : zigzagNatural.getD p 0 < 64 := by
  have hall : ∀ p < 64, zigzagNatural.getD p 0 < 64 := by decide
  exact hall p h

theorem zigzag_injective {p q : Nat} (hp : p < 64) (hq : q < 64) (h : zigzagNatural.getD p 0 = zigzagNatural.getD q 0) :
    p = q := by
  have hall : ∀ p < 64, zigzagNatural.idxOf (zigzagNatural.getD p 0) = p := by decide +kernel
  rw [← hall p hp, h, hall q hq]

/-- Every place of a block behind the rows of a position stands behind the position. -/
theorem zigzag_behind {last i : Nat} (hlast : last < 64) (hi : rowsUsed.getD last 0 * 8 ≤ i) (hlt : i < 64) :
    ∃ p, last < p ∧ p < 64 ∧ zigzagNatural.getD p 0 = i := by
  have hfound : ∀ i < 64, zigzagNatural.idxOf i < 64 ∧ zigzagNatural.getD (zigzagNatural.idxOf i) 0 = i := by decide +kernel
  have hrows : ∀ last < 64, ∀ p < 64, p ≤ last → zigzagNatural.getD p 0 < rowsUsed.getD last 0 * 8 := by decide +kernel
  obtain ⟨hp, heq⟩ := hfound i hlt
  refine ⟨zigzagNatural.idxOf i, Nat.lt_of_not_le fun hle => ?_, hp, heq⟩
  have := hrows last hlast _ hp hle
  omega

theorem getD_set_ne {l : List Int} {i j : Nat} (h : i ≠ j) (v : Int) : (l.set i v).getD j 0 = l.getD j 0 := by
  rw [List.getD_eq_getElem?_getD, List.getD_eq_getElem?_getD, List.getElem?_set_ne h]

theorem getD_lt {l : List Int} {i : Nat} (h : i < l.length) : l.getD i 0 = l[i] := by
  rw [List.getD_eq_getElem?_getD, List.getElem?_eq_getElem h]
  rfl

theorem getD_zeroBlock (i : Nat) : zeroBlock.getD i 0 = 0 := by
  rw [zeroBlock, List.getD_eq_getElem?_getD, List.getElem?_replicate]
  split
  · rfl
  · rfl

/-! ## The codes of a block -/

/-- A code is a coefficient at `pending`, or only moves on. -/
theorem manual_cases {s : Codes} (h : s.pending < 64) :
    (∃ v, s.manual.block = s.block.set (zigzagNatural.getD s.pending 0) v ∧ s.manual.pending = s.pending + 1 ∧
      s.manual.last = s.pending) ∨
    (s.manual.block = s.block ∧ s.pending ≤ s.manual.pending ∧ s.manual.last = s.last) := by
  unfold Codes.manual
  dsimp only
  split
  · right
    split
    · exact ⟨rfl, Nat.le_succ _, rfl⟩
    · exact ⟨rfl, Nat.le_min.mpr ⟨Nat.le_add_right _ _, by omega⟩, rfl⟩
  · left
    rw [Nat.mod_eq_of_lt (zigzag_lt h)]
    exact ⟨_, rfl, rfl, rfl⟩

theorem manual_filled {s : Codes} (hs : Filled s) (h : s.pending < 64) : Filled { s.manual with ac := s.manual.ac.reload } := by
  have hleft := reload_left (manual_left hs.left)
  rcases manual_cases h with ⟨v, hblock, hpending, hlast⟩ | ⟨hblock, hpending, hlast⟩
  · have hother (p : Nat) (hp : p < 64) (hne : s.pending < p) :
        (s.block.set (zigzagNatural.getD s.pending 0) v).getD (zigzagNatural.getD p 0) 0 = 0 := by
      rw [getD_set_ne fun heq => Nat.ne_of_lt hne (zigzag_injective h hp heq)]
      exact hs.empty p (Nat.le_of_lt hne) hp
    refine ⟨hleft, ?_, ?_, ?_, ?_⟩
    · show s.manual.block.length = 64
      rw [hblock, List.length_set, hs.length]
    · intro p hle hp
      replace hle : s.manual.pending ≤ p := hle
      show s.manual.block.getD _ 0 = 0
      rw [hblock]
      exact hother p hp (by omega)
    · intro p hlt hp
      replace hlt : s.manual.last < p := hlt
      show s.manual.block.getD _ 0 = 0
      rw [hblock]
      exact hother p hp (by omega)
    · show s.manual.last < 64
      rw [hlast]
      exact h
  · refine ⟨hleft, ?_, ?_, ?_, ?_⟩
    · show s.manual.block.length = 64
      rw [hblock, hs.length]
    · intro p hle hp
      replace hle : s.manual.pending ≤ p := hle
      show s.manual.block.getD _ 0 = 0
      rw [hblock]
      exact hs.empty p (Nat.le_trans hpending hle) hp
    · intro p hlt hp
      replace hlt : s.manual.last < p := hlt
      show s.manual.block.getD _ 0 = 0
      rw [hblock]
      exact hs.behind p (hlast ▸ hlt) hp
    · show s.manual.last < 64
      rw [hlast]
      exact hs.last

theorem set_empty {s : Codes} (hs : Filled s) (h : s.pending < 64) :
    s.block.set (zigzagNatural.getD s.pending 0 % 64) 0 = s.block := by
  have hlt := zigzag_lt h
  rw [Nat.mod_eq_of_lt hlt]
  have hzero := hs.empty s.pending (Nat.le_refl _) h
  rw [getD_lt (by rw [hs.length]; exact hlt)] at hzero
  conv => rhs; rw [← (@List.set_getElem_self _ s.block (zigzagNatural.getD s.pending 0)) (by rw [hs.length]; exact hlt)]
  rw [hzero]

/-- The codes of a block by the table are its codes bit by bit. -/
theorem read_eq {s : Codes} (hs : Filled s) (fuel : Nat) :
    Codes.read Codes.lookup fuel s = Codes.read Codes.manual fuel s ∧
      ∀ s', Codes.read Codes.manual fuel s = some s' → Filled s' := by
  induction fuel generalizing s with
  | zero =>
    refine ⟨rfl, fun s' h => ?_⟩
    rw [Codes.read] at h
    split at h
    · exact nomatch h
    · exact Option.some.inj h ▸ hs
  | succ fuel ih =>
    rw [Codes.read, Codes.read]
    by_cases hpending : s.pending < 64
    · rw [if_pos hpending, if_pos hpending, lookup_eq_manual hs.left hpending (set_empty hs hpending)]
      dsimp only
      split
      · exact ⟨rfl, nofun⟩
      · exact ih (manual_filled hs hpending)
    · rw [if_neg hpending, if_neg hpending]
      exact ⟨rfl, fun s' h => Option.some.inj h ▸ hs⟩

theorem filled_start {ac : Reader} (h : ac.bitsLeft ≤ 64) (pending : Nat) : Filled ⟨ac, pending, zeroBlock, 0⟩ :=
  ⟨h, List.length_replicate, fun _ _ _ => getD_zeroBlock _, fun _ _ _ => getD_zeroBlock _, Nat.zero_lt_succ _⟩

/-! ## Blocks -/

theorem dcTerm_set (dc : Reader) (block : List Int) (dcShift : Nat) (v : Int) :
    (dcTerm dc block dcShift).2.set 0 v = block.set 0 v := by
  unfold dcTerm
  dsimp only
  split
  · rfl
  · exact List.set_set _

/-- What the transform may not see is zero. -/
theorem behind_rows {s : Codes} (hs : Filled s) (v : Int) {i : Nat} (hi : rowsUsed.getD (s.last % 64) 0 * 8 ≤ i) :
    (s.block.set 0 v).getD i 0 = 0 := by
  have hlast := hs.last
  rw [Nat.mod_eq_of_lt hlast] at hi
  have hrows : ∀ p < 64, 1 ≤ rowsUsed.getD p 0 := by decide
  have hpos := hrows s.last hlast
  rw [getD_set_ne (by omega)]
  by_cases hlt : i < 64
  · obtain ⟨p, hbehind, hp, rfl⟩ := zigzag_behind hlast hi hlt
    exact hs.behind p hbehind hp
  · rw [List.getD_eq_getElem?_getD, List.getElem?_eq_none (by rw [hs.length]; omega)]
    rfl

theorem clear_rows {block : List Int} {n : Nat} (hlength : block.length = 64) (hn : n ≤ 64)
    (hzero : ∀ i, n ≤ i → block.getD i 0 = 0) : List.replicate n 0 ++ block.drop n = zeroBlock := by
  have hdrop : block.drop n = List.replicate (64 - n) 0 := by
    refine List.eq_replicate_iff.mpr ⟨by rw [List.length_drop, hlength], fun v hv => ?_⟩
    obtain ⟨i, hi, rfl⟩ := List.mem_iff_getElem.mp hv
    rw [List.length_drop] at hi
    rw [List.getElem_drop, ← getD_lt]
    exact hzero (n + i) (Nat.le_add_right n i)
  rw [hdrop, List.replicate_append_replicate, Nat.add_sub_cancel' hn]
  rfl

theorem rows_le {last : Nat} (h : last < 64) : rowsUsed.getD last 0 * 8 ≤ 64 := by
  have hall : ∀ p < 64, rowsUsed.getD p 0 * 8 ≤ 64 := by decide
  exact hall last h

end LookaheadLemmas

/-- A block decodes as the reference decodes it, and leaves the block all zero. -/
theorem decodeBlock_reference {k : Kernels} (hk : Exact k) (job : PlaneJob) {s : Progress} (hac : s.ac.bitsLeft ≤ 64)
    (hblock : s.block = zeroBlock) :
    decodeBlock k job s = referenceBlock job s ∧
      ∀ s' t, referenceBlock job s = some (s', t) → s'.ac.bitsLeft ≤ 64 ∧ s'.block = zeroBlock := by
  obtain ⟨hread, hfilled⟩ := read_eq (filled_start hac s.pending) maxSymbolsPerBlock
  unfold decodeBlock referenceBlock
  rw [hblock, hread]
  cases hcodes : Codes.read Codes.manual maxSymbolsPerBlock ⟨s.ac, s.pending, zeroBlock, 0⟩ with
  | none => exact ⟨rfl, nofun⟩
  | some codes =>
    have hs := hfilled codes hcodes
    simp only [Option.bind_eq_bind, Option.bind_some, dcTerm_set]
    generalize dcTerm s.dc codes.block job.dcShift = term
    split
    · exact ⟨rfl, nofun⟩
    · generalize wrap16 (term.2.getD 0 0 + s.dcPrediction) = level
      refine ⟨?_, fun s' t h => ?_⟩
      · by_cases hpending : s.pending < 64
        · have hrows (i : Nat) (hi : rowsUsed.getD (codes.last % 64) 0 * 8 ≤ i) := behind_rows hs level hi
          have hlength : (codes.block.set 0 level).length = 64 := (List.length_set ..).trans hs.length
          have hfit : rowsUsed.getD (codes.last % 64) 0 * 8 ≤ 64 := rows_le (Nat.mod_lt _ (by decide))
          rw [if_pos hpending, if_pos hpending, hk _ _ _ _ hlength hrows, clear_rows hlength hfit hrows]
        · -- no code was read, so the block is still zero
          have hsame : some codes = some ⟨s.ac, s.pending, zeroBlock, 0⟩ := hcodes.symm.trans (if_neg hpending)
          have hzero : (codes.block.set 0 level).set 0 0 = zeroBlock := by
            rw [Option.some.inj hsame, List.set_set]
            rfl
          rw [if_neg hpending, if_neg hpending, hzero]
      · obtain ⟨rfl, rfl⟩ := Prod.mk.inj (Option.some.inj h)
        exact ⟨hs.left, rfl⟩

namespace LookaheadLemmas

theorem decodeBlocks_reference {k : Kernels} (hk : Exact k) (job : PlaneJob) (offsets : List Nat) {s : Progress}
    (hac : s.ac.bitsLeft ≤ 64) (hblock : s.block = zeroBlock) :
    decodeBlocks k job offsets s = referenceBlocks job offsets s := by
  induction offsets generalizing s with
  | nil => rfl
  | cons offset rest ih =>
    obtain ⟨hsame, hkept⟩ := decodeBlock_reference hk job hac hblock
    rw [decodeBlocks, referenceBlocks, hsame]
    cases h : referenceBlock job s with
    | none => rfl
    | some p =>
      obtain ⟨hac', hblock'⟩ := hkept p.1 p.2 h
      dsimp only
      rw [ih hac' hblock']

theorem start_left (buf : Bytes) : (Reader.start buf).bitsLeft ≤ 64 := by
  rw [Reader.start, moveTo_left]

end LookaheadLemmas

/-- A plane decodes as the reference decodes it, with any reader whose window is in bounds. -/
theorem decodePlane_eq_reference {k : Kernels} (hk : Exact k) {job : PlaneJob} (hpos : 0 < job.stride)
    (hstride : job.stride % 8 = 0) (dc : Reader) {ac : Reader} (hac : ac.bitsLeft ≤ 64) {dst : Bytes}
    (hdst : 16 * job.stride ≤ dst.length) : decodePlane k job dc ac dst = referencePlane job dc ac dst := by
  have hroom : ¬ (job.stride = 0 ∨ job.stride % 8 ≠ 0 ∨ dst.length / 16 < job.stride) := by omega
  have hblocks := decodeBlocks_reference hk job (blockOffsets job.stride) (s := ⟨dc, ac, 0, 0, zeroBlock⟩) hac rfl
  rw [decodePlane, if_neg hroom, referencePlane, ← hblocks]
  rfl

/-- For every two streams, the plane decoder gives the verdict of the reference and, with it, the
same pixels and the same readers. -/
theorem decodePlane_reference (k : Kernels) (hk : Exact k) (job : PlaneJob) (hpos : 0 < job.stride)
    (hstride : job.stride % 8 = 0) (dcStream acStream dst : Bytes) (hdst : 16 * job.stride ≤ dst.length) :
    decodePlane k job (Reader.start dcStream) (Reader.start acStream) dst =
      referencePlane job (Reader.start dcStream) (Reader.start acStream) dst :=
  decodePlane_eq_reference hk hpos hstride _ (start_left acStream) hdst

/-- The portable transform is the full one. -/
theorem exact_portable : Exact portable := fun _ _ _ _ _ _ => rfl

/-- A plane of one column of blocks, which both decode. -/
theorem small_plane_reference :
    (decodePlane portable ⟨8, 128, decodeMatrix 0, 0⟩ (Reader.start (padded [0x5A, 0x81]))
      (Reader.start (padded [0x33, 0x0F])) (List.replicate 128 0)).2.isSome = true ∧
    decodePlane portable ⟨8, 128, decodeMatrix 0, 0⟩ (Reader.start (padded [0x5A, 0x81])) (Reader.start (padded [0x33, 0x0F]))
        (List.replicate 128 0) =
      referencePlane ⟨8, 128, decodeMatrix 0, 0⟩ (Reader.start (padded [0x5A, 0x81])) (Reader.start (padded [0x33, 0x0F]))
        (List.replicate 128 0) :=
  ⟨by decide +kernel, decodePlane_reference portable exact_portable ⟨8, 128, decodeMatrix 0, 0⟩ (by decide) (by decide) _ _ _
    (Nat.le_of_eq (List.length_replicate ..).symm)⟩

end OmtClient.Vmx
