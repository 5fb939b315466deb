import Mathlib.Data.List.Forall2
import OmtClient.Lib.Archive
import OmtClient.Lib.Loop
import OmtClient.Web.Inflate

/-!
# The ZIP writer of the support bundle

`crc32` and `Zip` of `crates/omt-web/src/zip.rs`: members are added one after the other,
each with a local header, and `finish` writes the central directory and the end record.

A `none` of `add` is a panic of the encoder; `run` is any sequence of calls.

1. `crc32_eq`: the table computes the check of the standard.
2. `add_written`: what an addition leaves is a failure or one more record.
3. `archive_reads_back`: an archive that is returned reads back as what was added.
-/

namespace OmtClient.Web

namespace Zip

open OmtClient.Lib Archive

inductive Method
  | stored
  | deflated
  deriving DecidableEq, Repr

def Method.code : Method → Nat
  | .stored => 0
  | .deflated => 8

def maxMembers : Nat := 64

structure Member where
  name : String
  crc : BitVec 32
  compressed : Nat
  size : Nat
  offset : Nat
  method : Method
  deriving DecidableEq

/-! ## The check -/

/-- One turn of the inner loop of `crc_table`. -/
def crcTurn (c : BitVec 32) : BitVec 32 := if c &&& 1 ≠ 0 then 0xEDB88320 ^^^ (c >>> 1) else c >>> 1

def crcTable : List (BitVec 32) := (List.range 256).map fun i => (List.range 8).foldl (fun c _ => crcTurn c) (BitVec.ofNat 32 i)

def crc32 (data : Bytes) : BitVec 32 :=
  data.foldl (fun crc b => crcTable.getD ((crc ^^^ BitVec.ofNat 32 b.toNat) &&& 0xFF).toNat 0 ^^^ (crc >>> 8)) 0xFFFFFFFF ^^^
    0xFFFFFFFF

/-! ## The writer -/

def dosTime : Nat := 0x0000
def dosDate : Nat := 0x0021

def le16 (v : Nat) : Bytes := leBytes 2 v
def le32 (v : Nat) : Bytes := leBytes 4 v

end Zip

open Zip in
structure Zip where
  out : Bytes
  limit : Nat
  members : List Member
  failed : Bool

namespace Zip

open OmtClient.Lib Archive

def new (limit : Nat) : Zip := ⟨[], limit, [], false⟩

/-- The body of a member. -/
def compress (method : Method) (data : Bytes) : Option Bytes :=
  match method with
  | .deflated => deflate data
  | .stored => some data

def localHeader (m : Member) : Bytes :=
  le32 0x04034b50 ++ le16 20 ++ le16 0x0800 ++ le16 m.method.code ++ le16 dosTime ++ le16 dosDate ++ le32 m.crc.toNat ++
    le32 m.compressed ++ le32 m.size ++ le16 (utf8 m.name).length ++ le16 0

/-- The arguments of a call of `add`. -/
structure Addition where
  name : String
  data : Bytes
  method : Method
  deriving DecidableEq

def add (z : Zip) (a : Addition) : Option Zip :=
  if 2 ^ 32 ≤ a.data.length ∨ 2 ^ 32 ≤ z.out.length then some { z with failed := true }
  else if z.failed = true ∨ z.members.length = maxMembers ∨ 128 ≤ (utf8 a.name).length then some { z with failed := true }
  else
    match compress a.method a.data with
    | none => none
    | some body =>
      if 2 ^ 32 ≤ body.length then some { z with failed := true }
      else if z.limit < z.out.length + 30 + (utf8 a.name).length + body.length then some { z with failed := true }
      else
        let m := ⟨a.name, crc32 a.data, body.length, a.data.length, z.out.length, a.method⟩
        some { z with out := z.out ++ localHeader m ++ utf8 a.name ++ body, members := z.members ++ [m] }

def centralRecord (m : Member) : Bytes :=
  le32 0x02014b50 ++ le16 0x0314 ++ le16 20 ++ le16 0x0800 ++ le16 m.method.code ++ le16 dosTime ++ le16 dosDate ++
    le32 m.crc.toNat ++ le32 m.compressed ++ le32 m.size ++ le16 (utf8 m.name).length ++ le16 0 ++ le16 0 ++ le16 0 ++
    le16 0 ++ le32 (0o100644 <<< 16) ++ le32 m.offset ++ utf8 m.name

def finish (z : Zip) : Option Bytes :=
  let directory := z.out.length
  if 2 ^ 32 ≤ directory ∨ z.failed = true then none
  else
    let out := z.out ++ z.members.flatMap centralRecord
    if 2 ^ 32 ≤ out.length then none
    else
      let size := out.length - directory
      let out := out ++ le32 0x06054b50 ++ le16 0 ++ le16 0 ++ le16 z.members.length ++ le16 z.members.length ++
        le32 size ++ le32 directory ++ le16 0
      if out.length ≤ z.limit then some out else none

/-- Any sequence of calls of `add`. -/
def run (limit : Nat) (adds : List Addition) : Option Zip := adds.foldlM Zip.add (Zip.new limit)

/-! ## What the archive is -/

/-- An addition that cannot be made: too large, too many, a name too long or no room. -/
def Refused (z : Zip) (a : Addition) : Prop :=
  2 ^ 32 ≤ a.data.length ∨ 2 ^ 32 ≤ z.out.length ∨ z.members.length = maxMembers ∨ 128 ≤ (utf8 a.name).length ∨
    ∃ body, compress a.method a.data = some body ∧
      (2 ^ 32 ≤ body.length ∨ z.limit < z.out.length + 30 + (utf8 a.name).length + body.length)

/-- An entry that was read, with its data, is the one that was added. -/
structure Same (a : Addition) (e : Entry × Bytes) : Prop where
  name : e.1.name = utf8 a.name
  data : e.2 = a.data
  method : e.1.method = a.method.code
  crc : e.1.crc = (crc ieee a.data).toNat
  size : e.1.size = a.data.length
  compressed : ∃ body, compress a.method a.data = some body ∧ e.1.compressed = body.length

/-- What a sequence of calls comes to. -/
structure ReadsBack (adds : List Addition) (limit : Nat) (z : Zip) : Prop where
  /-- The archive reads back through its end record and directory, as what was added. -/
  entries : ∀ archive, z.finish = some archive → ∃ es, readArchive archive = some es ∧ List.Forall₂ Same adds es
  /-- One addition that was refused is enough for no archive. -/
  refused : ∀ before a after z', adds = before ++ a :: after → run limit before = some z' → Refused z' a → z.finish = none

namespace ZipLemmas

/-! ### The check -/

theorem crcTurn_eq (c : BitVec 32) : crcTurn c = crcShift ieee c := by
  have hbit : c &&& 1 ≠ 0 ↔ c.getLsbD 0 = true := by
    rw [show (1 : BitVec 32) = 1#32 from rfl, BitVec.and_one_eq_setWidth_ofBool_getLsbD]
    cases c.getLsbD 0 <;> decide
  unfold crcTurn crcShift
  by_cases h : c.getLsbD 0 = true
  · rw [if_pos (hbit.mpr h), if_pos h]
    rfl
  · rw [if_neg fun hne => h (hbit.mp hne), if_neg h]

theorem foldl_turns (c : BitVec 32) (l : List Nat) : l.foldl (fun c _ => crcTurn c) c = crcShifts ieee l.length c := by
  induction l generalizing c with
  | nil => rfl
  | cons _ l ih => rw [List.foldl_cons, ih, crcTurn_eq, List.length_cons, crcShifts]

theorem crcTable_get {i : Nat} (h : i < 256) : crcTable.getD i 0 = crcShifts ieee 8 (BitVec.ofNat 32 i) := by
  rw [crcTable, List.getD_eq_getElem?_getD, List.getElem?_map, List.getElem?_range h, Option.map_some, Option.getD_some,
    foldl_turns, List.length_range]

/-- A byte from the table is its eight bits. -/
theorem crc_byte (c : BitVec 32) (b : Byte) :
    crcTable.getD ((c ^^^ BitVec.ofNat 32 b.toNat) &&& 0xFF).toNat 0 ^^^ (c >>> 8) =
      (lsb 8 b.toNat).foldl (crcBit ieee) c := by
  have hlow : ((c ^^^ BitVec.ofNat 32 b.toNat) &&& 0xFF).toNat < 256 := by
    rw [BitVec.toNat_and]
    exact Nat.lt_succ_of_le Nat.and_le_right
  have hhigh : (c ^^^ BitVec.ofNat 32 b.toNat) >>> 8 = c >>> 8 := by
    have hzero : BitVec.ofNat 32 b.toNat >>> 8 = 0 := by
      refine BitVec.eq_of_toNat_eq ?_
      have hb := b.toNat_lt
      rw [BitVec.toNat_ushiftRight, BitVec.toNat_ofNat, Nat.mod_eq_of_lt (by omega), Nat.shiftRight_eq_div_pow]
      exact Nat.div_eq_of_lt hb
    rw [BitVec.ushiftRight_xor_distrib, hzero]
    exact BitVec.xor_zero
  rw [foldl_crcBit ieee (by decide) b.toNat_lt, crcShifts_split ieee _ 8, crcTable_get hlow, hhigh, BitVec.ofNat_toNat,
    BitVec.setWidth_eq]
  rfl

/-- The table computes the check of the standard. -/
theorem crc32_eq (data : Bytes) : crc32 data = crc ieee data := by
  have hfold : ∀ c : BitVec 32, data.foldl (fun crc b =>
      crcTable.getD ((crc ^^^ BitVec.ofNat 32 b.toNat) &&& 0xFF).toNat 0 ^^^ (crc >>> 8)) c =
      (bitsOf data).foldl (crcBit ieee) c := by
    induction data with
    | nil => exact fun c => rfl
    | cons b data ih =>
      intro c
      have hbits : bitsOf (b :: data) = lsb 8 b.toNat ++ bitsOf data := rfl
      rw [List.foldl_cons, ih, crc_byte, hbits, List.foldl_append]
  unfold crc32 crc
  rw [hfold]
  rfl

/-! ### Records -/

def entryOf (m : Member) : Entry :=
  ⟨utf8 m.name, 0x0800, m.method.code, m.crc.toNat, m.compressed, m.size, m.offset⟩

/-- The record of an entry in the directory. -/
def directoryRecord (e : Entry) : Bytes :=
  writeWords (centralWords e 0x0314 20 dosTime dosDate 0 (0o100644 <<< 16)) ++ e.name

theorem localHeader_eq (m : Member) : localHeader m = writeWords (localWords (entryOf m) 20 dosTime dosDate) := by
  unfold localHeader writeWords localWords entryOf
  simp only [List.flatMap_cons, List.flatMap_nil, List.append_nil, List.append_assoc]
  rfl

theorem centralRecord_eq (m : Member) : centralRecord m = directoryRecord (entryOf m) := by
  unfold centralRecord directoryRecord writeWords centralWords entryOf
  simp only [List.flatMap_cons, List.flatMap_nil, List.append_nil, List.append_assoc]
  rfl

/-- A member of an archive and the addition that it was made by. -/
structure Written (out : Bytes) (a : Addition) (m : Member) : Prop where
  name : m.name = a.name
  crc : m.crc = crc32 a.data
  size : m.size = a.data.length
  method : m.method = a.method
  room : (utf8 a.name).length < 128 ∧ a.data.length < 2 ^ 32 ∧ m.compressed < 2 ^ 32 ∧ m.offset < 2 ^ 32 ∧
    m.offset ≤ out.length
  body : ∃ body, compress a.method a.data = some body ∧ m.compressed = body.length ∧
    Holds out m.offset (localHeader m ++ (utf8 m.name ++ body))

theorem written_mono {out : Bytes} {a : Addition} {m : Member} (more : Bytes) (h : Written out a m) :
    Written (out ++ more) a m := by
  obtain ⟨hname, hdata, hcompressed, hoffset, hinside⟩ := h.room
  obtain ⟨body, hbody, hlength, hholds⟩ := h.body
  refine ⟨h.name, h.crc, h.size, h.method, ⟨hname, hdata, hcompressed, hoffset, ?_⟩, body, hbody, hlength,
    hholds.mono more hinside⟩
  rw [List.length_append]
  exact Nat.le_add_right_of_le hinside

theorem written_of_mem {out : Bytes} {adds : List Addition} {members : List Member}
    (h : List.Forall₂ (Written out) adds members) {m : Member} (hm : m ∈ members) : ∃ a, Written out a m := by
  induction h with
  | nil => cases hm
  | cons hfirst _ ih =>
    rcases List.mem_cons.mp hm with rfl | hm
    · exact ⟨_, hfirst⟩
    · exact ih hm

theorem compress_expands (method : Method) (data : Bytes) :
    ∃ body, compress method data = some body ∧ expand method.code body = some data := by
  cases method with
  | stored => exact ⟨data, rfl, rfl⟩
  | deflated => exact deflate_inflates data

theorem entry_fits {out : Bytes} {a : Addition} {m : Member} (h : Written out a m) : (entryOf m).Fits := by
  obtain ⟨hname, hdata, hcompressed, hoffset, -⟩ := h.room
  have hcode : m.method.code < 2 ^ 16 := by cases m.method <;> decide
  refine ⟨?_, (by decide : 0x0800 < 2 ^ 16), hcode, m.crc.isLt, hcompressed, Nat.lt_of_le_of_lt (Nat.le_of_eq h.size) hdata, hoffset⟩
  rw [entryOf, h.name]
  exact Nat.lt_trans hname (by decide)

/-- A member that was written is opened. -/
theorem openEntry_written {out : Bytes} {a : Addition} {m : Member} (h : Written out a m) :
    openEntry out (entryOf m) = some a.data := by
  obtain ⟨body, hbody, hlength, hholds⟩ := h.body
  obtain ⟨body', hbody', hexpand⟩ := compress_expands a.method a.data
  obtain rfl := Option.some.inj (hbody.symm.trans hbody')
  rw [localHeader_eq] at hholds
  refine openEntry_at (entry_fits h) (by decide) (by decide) (by decide) hholds h.room.2.2.2.2 hlength ?_ h.size.symm ?_
  · rw [entryOf, h.method]
    exact hexpand
  · rw [entryOf, h.crc, crc32_eq]

/-! ### Additions -/

theorem add_failed {z z' : Zip} {a : Addition} (h : z.add a = some z') (hfailed : z.failed = true) : z'.failed = true := by
  unfold Zip.add at h
  split at h
  · exact Option.some.inj h ▸ rfl
  · rw [if_pos (.inl hfailed)] at h
    exact Option.some.inj h ▸ rfl

/-- What an addition comes to: a failure, or one more record. -/
theorem add_written (z : Zip) (a : Addition) : ∃ z', z.add a = some z' ∧
    (z'.failed = true ∨ z.failed = false ∧ z'.failed = false ∧ ¬ Refused z a ∧ ∃ m more, z'.out = z.out ++ more ∧
      z'.members = z.members ++ [m] ∧ z.members.length ≠ maxMembers ∧ Written z'.out a m) := by
  obtain ⟨body, hbody, -⟩ := compress_expands a.method a.data
  unfold Zip.add
  split
  · exact ⟨_, rfl, .inl rfl⟩
  · next hsize =>
    split
    · exact ⟨_, rfl, .inl rfl⟩
    · next hcheck =>
      rw [hbody]
      dsimp only
      split
      · exact ⟨_, rfl, .inl rfl⟩
      · next hcompressed =>
        split
        · exact ⟨_, rfl, .inl rfl⟩
        · next hroom =>
          obtain ⟨hfailed, hmembers, hname⟩ : z.failed ≠ true ∧ z.members.length ≠ maxMembers ∧
              ¬ 128 ≤ (utf8 a.name).length :=
            ⟨fun h => hcheck (.inl h), fun h => hcheck (.inr (.inl h)), fun h => hcheck (.inr (.inr h))⟩
          have hsplit : ∀ header : Bytes, z.out ++ header ++ utf8 a.name ++ body = z.out ++ (header ++ (utf8 a.name ++ body)) :=
            fun header => (List.append_assoc _ _ _).trans (List.append_assoc _ _ _)
          refine ⟨_, rfl, .inr ⟨Bool.eq_false_iff.mpr hfailed, Bool.eq_false_iff.mpr hfailed, ?_,
            ⟨a.name, crc32 a.data, body.length, a.data.length, z.out.length, a.method⟩, _, hsplit _, rfl, hmembers, ?_⟩⟩
          · rintro (h | h | h | h | ⟨body', hbody', h⟩)
            · exact hsize (.inl h)
            · exact hsize (.inr h)
            · exact hmembers h
            · exact hname h
            · obtain rfl := Option.some.inj (hbody.symm.trans hbody')
              exact h.elim hcompressed hroom
          · dsimp only
            rw [hsplit]
            refine ⟨rfl, rfl, rfl, rfl, ⟨Nat.not_le.mp hname, Nat.not_le.mp fun h => hsize (.inl h), Nat.not_le.mp hcompressed,
              Nat.not_le.mp fun h => hsize (.inr h), ?_⟩, body, hbody, rfl, ?_⟩
            · rw [List.length_append]
              exact Nat.le_add_right _ _
            · have hself := holds_self z.out (localHeader ⟨a.name, crc32 a.data, body.length, a.data.length, z.out.length,
                a.method⟩ ++ (utf8 a.name ++ body)) []
              rwa [List.append_nil] at hself

theorem run_failed {z z' : Zip} {adds : List Addition} (h : adds.foldlM Zip.add z = some z') (hfailed : z.failed = true) :
    z'.failed = true :=
  foldlM_invariant (P := fun z => z.failed = true) (fun _ _ _ hz hstep => add_failed hstep hz) hfailed h

/-- The members of a writer that has not failed are the additions. -/
def Holding (adds : List Addition) (z : Zip) : Prop :=
  z.failed = false → List.Forall₂ (Written z.out) adds z.members ∧ z.members.length ≤ maxMembers

theorem holding_add {adds : List Addition} {z z' : Zip} {a : Addition} (hz : Holding adds z) (h : z.add a = some z') :
    Holding (adds ++ [a]) z' := by
  obtain ⟨_, hadd, hcases⟩ := add_written z a
  obtain rfl := Option.some.inj (hadd.symm.trans h)
  intro hgood
  rcases hcases with hfailed | ⟨hbefore, -, -, m, more, hout, hmembers, hfew, hwritten⟩
  · exact absurd (hfailed.symm.trans hgood) (by decide)
  · obtain ⟨hall, hcount⟩ := hz hbefore
    rw [hmembers, hout]
    rw [hout] at hwritten
    refine ⟨List.rel_append (hall.imp fun _ _ h => written_mono more h) (.cons hwritten .nil), ?_⟩
    rw [List.length_append]
    exact Nat.lt_of_le_of_ne hcount hfew

theorem run_holding {done : List Addition} {z : Zip} (hz : Holding done z) (adds : List Addition) :
    ∃ z', adds.foldlM Zip.add z = some z' ∧ Holding (done ++ adds) z' := by
  induction adds generalizing done z with
  | nil => exact ⟨z, rfl, (List.append_nil done).symm ▸ hz⟩
  | cons a adds ih =>
    obtain ⟨z₁, hadd, -⟩ := add_written z a
    obtain ⟨z', hrun, hz'⟩ := ih (holding_add hz hadd)
    refine ⟨z', ?_, ?_⟩
    · rw [List.foldlM_cons, hadd]
      exact hrun
    · rwa [List.append_assoc] at hz'

/-! ### The archive -/

theorem finish_failed {z : Zip} (h : z.failed = true) : z.finish = none := by
  unfold Zip.finish
  dsimp only
  rw [if_pos (.inr h)]

/-- The bytes of an archive. -/
theorem finish_bytes {z : Zip} {archive : Bytes} (h : z.finish = some archive) :
    z.failed = false ∧ z.out.length < 2 ^ 32 ∧ ((z.members.map entryOf).flatMap directoryRecord).length < 2 ^ 32 ∧
      archive = z.out ++ (z.members.map entryOf).flatMap directoryRecord ++ writeWords (endWords (z.members.map entryOf).length
        ((z.members.map entryOf).flatMap directoryRecord).length z.out.length) := by
  have hdirectory : z.members.flatMap centralRecord = (z.members.map entryOf).flatMap directoryRecord := by
    rw [List.flatMap_map]
    exact congrArg (z.members.flatMap ·) (funext centralRecord_eq)
  unfold Zip.finish at h
  dsimp only at h
  rw [hdirectory] at h
  split at h
  · cases h
  · next hgood =>
    split at h
    · cases h
    · next hfits =>
      split at h
      · rw [List.length_append] at hfits h
        rw [Nat.add_sub_cancel_left] at h
        refine ⟨Bool.eq_false_iff.mpr fun hfailed => hgood (.inr hfailed), by omega, by omega, ?_⟩
        rw [← Option.some.inj h, List.length_map]
        unfold writeWords endWords
        simp only [List.flatMap_cons, List.flatMap_nil, List.append_nil, List.append_assoc]
        rfl
      · cases h

theorem readCentral_record {raw : Bytes} {e : Entry} (hfits : e.Fits) {pos : Nat} (h : Holds raw pos (directoryRecord e))
    (hpos : pos ≤ raw.length) : readCentral raw pos = some (e, pos + (directoryRecord e).length) := by
  have hlength : (directoryRecord e).length = 46 + e.name.length := by
    rw [directoryRecord, List.length_append, length_central]
  rw [hlength]
  refine readCentral_at (centralWords_fit hfits ?_ ?_ ?_ ?_ ?_ ?_) h hpos
  all_goals decide

/-- The archive of some members reads back. -/
theorem archive_read {adds : List Addition} {z : Zip} {archive : Bytes} (hz : Holding adds z)
    (h : z.finish = some archive) : ∃ es, readArchive archive = some es ∧ List.Forall₂ Same adds es := by
  obtain ⟨hgood, hout, hdirectory, harchive⟩ := finish_bytes h
  obtain ⟨hall, hcount⟩ := hz hgood
  have hwritten : List.Forall₂ (Written archive) adds z.members := by
    refine hall.imp fun a m hm => ?_
    rw [harchive, List.append_assoc]
    exact written_mono _ hm
  have hentry : ∀ e ∈ z.members.map entryOf, ∃ a m, e = entryOf m ∧ Written archive a m := by
    intro e he
    obtain ⟨m, hm, rfl⟩ := List.mem_map.mp he
    obtain ⟨a, ha⟩ := written_of_mem hwritten hm
    exact ⟨a, m, rfl, ha⟩
  have hread := (@readArchive_at _ directoryRecord _ (fun e => (openEntry archive e).getD [])) harchive ?_ hout
    hdirectory ?_ ?_
  · refine ⟨_, hread, List.forall₂_map_right_iff.mpr (List.forall₂_map_right_iff.mpr (hwritten.imp fun a m hm => ?_))⟩
    obtain ⟨body, hbody, hlength, -⟩ := hm.body
    refine ⟨congrArg utf8 hm.name, ?_, congrArg Method.code hm.method, ?_, hm.size, body, hbody, hlength⟩
    · dsimp only
      rw [openEntry_written hm]
      rfl
    · rw [← crc32_eq, ← hm.crc]
      rfl
  · rw [List.length_map]
    exact Nat.lt_of_le_of_lt hcount (by decide)
  · intro e he pos hrecord hpos
    obtain ⟨a, m, rfl, ha⟩ := hentry e he
    exact readCentral_record (entry_fits ha) hrecord hpos
  · intro e he
    obtain ⟨a, m, rfl, ha⟩ := hentry e he
    rw [openEntry_written ha]
    rfl

end ZipLemmas

open ZipLemmas

/-- Whatever is added: an archive that `finish` returns reads back, through its end record,
its directory and the local headers, as the additions in order; and one addition that was
refused is enough for there to be none. -/
theorem archive_reads_back (limit : Nat) (adds : List Addition) :
    ∃ z, run limit adds = some z ∧ ReadsBack adds limit z := by
  have hnew : Holding [] (Zip.new limit) := fun _ => ⟨.nil, Nat.zero_le _⟩
  obtain ⟨z, hrun, hz⟩ := run_holding hnew adds
  refine ⟨z, hrun, fun archive => archive_read hz, ?_⟩
  intro before a after z' hadds hbefore hrefused
  obtain ⟨z₁, hadd, hcases⟩ := add_written z' a
  have hfailed : z₁.failed = true := hcases.elim id fun h => absurd hrefused h.2.2.1
  rw [hadds, List.foldlM_append, show before.foldlM Zip.add (Zip.new limit) = some z' from hbefore] at hrun
  have hrest : after.foldlM Zip.add z₁ = some z := by
    change (z'.add a).bind _ = _ at hrun
    rw [hadd] at hrun
    exact hrun
  exact finish_failed (run_failed hrest hfailed)

/-- Two members, one of them twice under the same name. -/
theorem stored_members_read_back :
    ∃ z archive, run 1000 [⟨"a", [1, 2, 3], .stored⟩, ⟨"b", [], .stored⟩, ⟨"a", [4], .stored⟩] = some z ∧
      z.finish = some archive ∧ ∃ es, readArchive archive = some es ∧
        List.Forall₂ Same [⟨"a", [1, 2, 3], .stored⟩, ⟨"b", [], .stored⟩, ⟨"a", [4], .stored⟩] es := by
  obtain ⟨z, hrun, hback⟩ := archive_reads_back 1000 [⟨"a", [1, 2, 3], .stored⟩, ⟨"b", [], .stored⟩, ⟨"a", [4], .stored⟩]
  have hsome : ((run 1000 [⟨"a", [1, 2, 3], .stored⟩, ⟨"b", [], .stored⟩, ⟨"a", [4], .stored⟩]).bind Zip.finish).isSome = true := by
    decide +kernel
  rw [hrun] at hsome
  obtain ⟨archive, harchive⟩ := Option.isSome_iff_exists.mp hsome
  exact ⟨z, archive, hrun, harchive, hback.entries archive harchive⟩

end Zip

end OmtClient.Web
