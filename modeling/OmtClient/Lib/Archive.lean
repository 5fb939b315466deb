import OmtClient.Lib.Crc
import OmtClient.Lib.Inflate
import OmtClient.Lib.Position

/-!
# ZIP archives

A reader of archives of one part, without encryption and without the 64-bit extension: it
looks for the end record from the end of the file on, follows it to the central directory,
and each entry of that to its local header. An entry is opened when the local header says
what the directory says and the data have the size and the check that both give.

1. `directory_at`: a directory that was written is read.
2. `openEntry_at`: an entry whose local record was written is opened.
3. `readArchive_at`: an archive made of local records, their directory and an end record.
-/

namespace OmtClient.Lib.Archive

/-- The polynomial of CRC-32, reflected. -/
def ieee : BitVec 32 := 0xEDB88320

structure Entry where
  name : Bytes
  flags : Nat
  method : Nat
  crc : Nat
  compressed : Nat
  size : Nat
  offset : Nat
  deriving DecidableEq, Repr

/-- Signature, version, flags, method, time, date, check, sizes, lengths of name and extra. -/
def localWidths : List Nat := [4, 2, 2, 2, 2, 2, 4, 4, 4, 2, 2]

/-- Signature, made by, version, flags, method, time, date, check, sizes, lengths of name, extra
and comment, disk, attributes, offset. -/
def centralWidths : List Nat := [4, 2, 2, 2, 2, 2, 2, 4, 4, 4, 2, 2, 2, 2, 2, 4, 4]

/-- Signature, disks, numbers of entries, size and offset of the directory, length of the comment. -/
def endWidths : List Nat := [4, 2, 2, 2, 2, 4, 4, 2]

/-! ## The end record -/

/-- The number of entries, the size of the directory and where it is, if an end record that
ends the file stands here. -/
def endAt (raw : Bytes) (pos : Nat) : Option (Nat × Nat × Nat) := do
  let (v, stop) ← readWords raw endWidths pos
  let field := fun i => v.getD i 0
  if field 0 = 0x06054b50 ∧ field 1 = 0 ∧ field 2 = 0 ∧ field 3 = field 4 ∧ stop + field 7 = raw.length then
    some (field 4, field 5, field 6)
  else none

/-- The last end record at or before a position. -/
def findEnd (raw : Bytes) : Nat → Option (Nat × Nat × Nat)
  | 0 => endAt raw 0
  | pos + 1 => (endAt raw (pos + 1)).or (findEnd raw pos)

/-! ## The central directory -/

def readCentral (raw : Bytes) (pos : Nat) : Option (Entry × Nat) := do
  let (v, pos) ← readWords raw centralWidths pos
  let field := fun i => v.getD i 0
  if field 0 = 0x02014b50 then
    let name ← takeBytes raw pos (field 10)
    some (⟨name, field 3, field 4, field 7, field 8, field 9, field 16⟩, pos + field 10 + field 11 + field 12)
  else none

def readDirectory (raw : Bytes) : Nat → Nat → Option (List Entry × Nat)
  | 0, pos => some ([], pos)
  | count + 1, pos => do
    let (e, pos) ← readCentral raw pos
    let (es, pos) ← readDirectory raw count pos
    pure (e :: es, pos)

/-! ## An entry -/

/-- The compressed data behind a local header that says what the directory says. -/
def readLocal (raw : Bytes) (e : Entry) : Option Bytes := do
  let (v, pos) ← readWords raw localWidths e.offset
  let field := fun i => v.getD i 0
  if field 0 = 0x04034b50 ∧ field 2 = e.flags ∧ field 3 = e.method ∧ field 6 = e.crc ∧ field 7 = e.compressed ∧
      field 8 = e.size ∧ takeBytes raw pos (field 9) = some e.name then
    takeBytes raw (pos + field 9 + field 10) (field 7)
  else none

/-- The methods that are known: stored and deflated. -/
def expand (method : Nat) (body : Bytes) : Option Bytes :=
  if method = 0 then some body else if method = 8 then Inflate.inflate body else none

def openEntry (raw : Bytes) (e : Entry) : Option Bytes := do
  let body ← readLocal raw e
  let data ← expand e.method body
  if data.length = e.size ∧ (crc ieee data).toNat = e.crc then some data else none

/-- The entries of an archive with their data. -/
def readArchive (raw : Bytes) : Option (List (Entry × Bytes)) := do
  let (count, size, directory) ← findEnd raw (raw.length - 22)
  let (entries, stop) ← readDirectory raw count directory
  if stop = directory + size then entries.mapM fun e => (openEntry raw e).map (e, ·) else none

/-! ## Records as they are written -/

/-- The numbers of a local header; the version and the time may be any. -/
def localWords (e : Entry) (version time date : Nat) : List (Nat × Nat) :=
  [(4, 0x04034b50), (2, version), (2, e.flags), (2, e.method), (2, time), (2, date), (4, e.crc), (4, e.compressed),
    (4, e.size), (2, e.name.length), (2, 0)]

def centralWords (e : Entry) (made version time date internal external : Nat) : List (Nat × Nat) :=
  [(4, 0x02014b50), (2, made), (2, version), (2, e.flags), (2, e.method), (2, time), (2, date), (4, e.crc),
    (4, e.compressed), (4, e.size), (2, e.name.length), (2, 0), (2, 0), (2, 0), (2, internal), (4, external), (4, e.offset)]

def endWords (count size directory : Nat) : List (Nat × Nat) :=
  [(4, 0x06054b50), (2, 0), (2, 0), (2, count), (2, count), (4, size), (4, directory), (2, 0)]

/-- The numbers of an entry fit into the fields of its records. -/
structure Entry.Fits (e : Entry) : Prop where
  name : e.name.length < 2 ^ 16
  flags : e.flags < 2 ^ 16
  method : e.method < 2 ^ 16
  crc : e.crc < 2 ^ 32
  compressed : e.compressed < 2 ^ 32
  size : e.size < 2 ^ 32
  offset : e.offset < 2 ^ 32

section

variable {raw body data : Bytes} {pos : Nat} {e : Entry} {version time date : Nat}

theorem short {v : Nat} (h : v < 2 ^ 16) : v < 256 ^ 2 := Nat.lt_of_lt_of_eq h (by decide)

theorem long {v : Nat} (h : v < 2 ^ 32) : v < 256 ^ 4 := Nat.lt_of_lt_of_eq h (by decide)

theorem length_local (e : Entry) (version time date : Nat) : (writeWords (localWords e version time date)).length = 30 :=
  (length_writeWords _).trans (by decide : localWidths.sum = 30)

theorem length_central (e : Entry) (made version time date internal external : Nat) :
    (writeWords (centralWords e made version time date internal external)).length = 46 :=
  (length_writeWords _).trans (by decide : centralWidths.sum = 46)

theorem length_end (count size directory : Nat) : (writeWords (endWords count size directory)).length = 22 :=
  (length_writeWords _).trans (by decide : endWidths.sum = 22)

theorem localWords_fit (hfits : e.Fits) (hversion : version < 2 ^ 16) (htime : time < 2 ^ 16) (hdate : date < 2 ^ 16) :
    ∀ f ∈ localWords e version time date, f.2 < 256 ^ f.1 := by
  obtain ⟨hname, hflags, hmethod, hcrc, hcompressed, hsize, -⟩ := hfits
  simp only [localWords, List.forall_mem_cons, List.not_mem_nil, IsEmpty.forall_iff, implies_true, and_true]
  exact ⟨by decide, short hversion, short hflags, short hmethod, short htime, short hdate, long hcrc, long hcompressed,
    long hsize, short hname, by decide⟩

/-- An entry whose local record was written is opened. -/
theorem openEntry_at (hfits : e.Fits) (hversion : version < 2 ^ 16) (htime : time < 2 ^ 16) (hdate : date < 2 ^ 16)
    (h : Holds raw e.offset (writeWords (localWords e version time date) ++ (e.name ++ body))) (hoffset : e.offset ≤ raw.length)
    (hbody : e.compressed = body.length) (hexpand : expand e.method body = some data) (hsize : data.length = e.size)
    (hcrc : (crc ieee data).toNat = e.crc) : openEntry raw e = some data := by
  obtain ⟨hwords, hrest⟩ := holds_append.mp h
  obtain ⟨hname, hdata⟩ := holds_append.mp hrest
  have hread := readWords_at hwords hoffset (localWords_fit hfits hversion htime hdate)
  have hlength := length_local e version time date
  have hroom := hwords.length_le
  have hnameRoom := hname.length_le
  rw [hlength] at hread hname hdata hroom hnameRoom
  have htake : takeBytes raw (e.offset + 30) e.name.length = some e.name := takeBytes_at hname (by omega)
  have hlocal : readLocal raw e = some body := by
    unfold readLocal
    rw [show localWidths = (localWords e version time date).map Prod.fst from rfl, hread]
    show (if _ then takeBytes raw (e.offset + 30 + e.name.length + 0) e.compressed else none) = _
    rw [if_pos ⟨rfl, rfl, rfl, rfl, rfl, rfl, htake⟩, Nat.add_zero, hbody]
    exact takeBytes_at hdata (by omega)
  unfold openEntry
  rw [hlocal]
  show (expand e.method body).bind _ = _
  rw [hexpand]
  show (if _ then _ else _) = _
  rw [if_pos ⟨hsize, hcrc⟩]

/-! ## The directory -/

theorem centralWords_fit {made internal external : Nat} (hfits : e.Fits) (hmade : made < 2 ^ 16) (hversion : version < 2 ^ 16)
    (htime : time < 2 ^ 16) (hdate : date < 2 ^ 16) (hinternal : internal < 2 ^ 16) (hexternal : external < 2 ^ 32) :
    ∀ f ∈ centralWords e made version time date internal external, f.2 < 256 ^ f.1 := by
  obtain ⟨hname, hflags, hmethod, hcrc, hcompressed, hsize, hoffset⟩ := hfits
  simp only [centralWords, List.forall_mem_cons, List.not_mem_nil, IsEmpty.forall_iff, implies_true, and_true]
  exact ⟨by decide, short hmade, short hversion, short hflags, short hmethod, short htime, short hdate, long hcrc,
    long hcompressed, long hsize, short hname, by decide, by decide, by decide, short hinternal, long hexternal, long hoffset⟩

theorem readCentral_at {made internal external : Nat}
    (hwords : ∀ f ∈ centralWords e made version time date internal external, f.2 < 256 ^ f.1)
    (h : Holds raw pos (writeWords (centralWords e made version time date internal external) ++ e.name))
    (hpos : pos ≤ raw.length) :
    readCentral raw pos = some (e, pos + (46 + e.name.length)) := by
  obtain ⟨hnumbers, hname⟩ := holds_append.mp h
  have hread := readWords_at hnumbers hpos hwords
  have hlength := length_central e made version time date internal external
  have hroom := hnumbers.length_le
  rw [hlength] at hread hname hroom
  unfold readCentral
  rw [show centralWidths = (centralWords e made version time date internal external).map Prod.fst from rfl, hread]
  show (if 0x02014b50 = 0x02014b50 then (takeBytes raw (pos + 46) e.name.length).bind fun name =>
    some ((⟨name, e.flags, e.method, e.crc, e.compressed, e.size, e.offset⟩ : Entry), pos + 46 + e.name.length + 0 + 0)
    else none) = _
  rw [if_pos rfl, takeBytes_at hname (by omega), ← Nat.add_assoc]
  rfl

/-- A directory that was written is read, to its end. -/
theorem directory_at {record : Entry → Bytes} {es : List Entry}
    (hrecord : ∀ e ∈ es, ∀ pos, Holds raw pos (record e) → pos ≤ raw.length →
      readCentral raw pos = some (e, pos + (record e).length))
    (h : Holds raw pos (es.flatMap record)) (hpos : pos ≤ raw.length) :
    readDirectory raw es.length pos = some (es, pos + (es.flatMap record).length) := by
  induction es generalizing pos with
  | nil => rfl
  | cons e es ih =>
    obtain ⟨hfirst, hrest⟩ := holds_append.mp h
    have hroom := hfirst.length_le
    rw [List.length_cons, readDirectory, hrecord e List.mem_cons_self pos hfirst hpos]
    show (readDirectory raw es.length (pos + (record e).length)).bind _ = _
    rw [ih (fun e' he' => hrecord e' (List.mem_cons_of_mem e he')) hrest (by omega), List.flatMap_cons, List.length_append,
      ← Nat.add_assoc]
    rfl

/-! ## The archive -/

theorem endAt_at {count size directory : Nat} (hcount : count < 2 ^ 16) (hsize : size < 2 ^ 32) (hdirectory : directory < 2 ^ 32)
    (h : Holds raw pos (writeWords (endWords count size directory))) (hend : pos + 22 = raw.length) :
    endAt raw pos = some (count, size, directory) := by
  have hwords : ∀ f ∈ endWords count size directory, f.2 < 256 ^ f.1 := by
    simp only [endWords, List.forall_mem_cons, List.not_mem_nil, IsEmpty.forall_iff, implies_true, and_true]
    exact ⟨by decide, by decide, by decide, short hcount, short hcount, long hsize, long hdirectory, by decide⟩
  have hread := readWords_at h (by omega) hwords
  have hlength := length_end count size directory
  rw [hlength] at hread
  unfold endAt
  rw [show endWidths = (endWords count size directory).map Prod.fst from rfl, hread]
  show (if _ then some (count, size, directory) else none) = _
  rw [if_pos ⟨rfl, rfl, rfl, rfl, hend⟩]

theorem findEnd_here {r : Nat × Nat × Nat} (h : endAt raw pos = some r) : findEnd raw pos = some r := by
  cases pos with
  | zero => exact h
  | succ pos =>
    rw [findEnd, h]
    rfl

/-- An archive made of local records, their directory and an end record. -/
theorem readArchive_at {record : Entry → Bytes} {es : List Entry} {contents : Entry → Bytes} {records : Bytes}
    (hraw : raw = records ++ es.flatMap record ++
      writeWords (endWords es.length (es.flatMap record).length records.length))
    (hcount : es.length < 2 ^ 16) (hrecords : records.length < 2 ^ 32) (hdirectory : (es.flatMap record).length < 2 ^ 32)
    (hrecord : ∀ e ∈ es, ∀ pos, Holds raw pos (record e) → pos ≤ raw.length →
      readCentral raw pos = some (e, pos + (record e).length))
    (hopen : ∀ e ∈ es, openEntry raw e = some (contents e)) :
    readArchive raw = some (es.map fun e => (e, contents e)) := by
  have hend := length_end es.length (es.flatMap record).length records.length
  have hlength : raw.length = (records ++ es.flatMap record).length + 22 := by rw [hraw, List.length_append, hend]
  have hrecordsEnd : records.length ≤ raw.length := by
    rw [hlength, List.length_append]
    omega
  have hfind : findEnd raw (raw.length - 22) = some (es.length, (es.flatMap record).length, records.length) := by
    refine findEnd_here (endAt_at hcount hdirectory hrecords ?_ ?_)
    · rw [hlength, Nat.add_sub_cancel]
      have hself := holds_self (records ++ es.flatMap record)
        (writeWords (endWords es.length (es.flatMap record).length records.length)) []
      rw [List.append_nil, ← hraw] at hself
      exact hself
    · omega
  have hdir : Holds raw records.length (es.flatMap record) := by
    rw [hraw]
    exact holds_self _ _ _
  have hmap : es.mapM (fun e => (openEntry raw e).map (e, ·)) = some (es.map fun e => (e, contents e)) := by
    clear hraw hend hlength hrecordsEnd hfind hdir hcount hdirectory hrecord
    induction es with
    | nil => rfl
    | cons e es ih =>
      rw [List.mapM_cons, hopen e List.mem_cons_self]
      show (List.mapM (fun e => (openEntry raw e).map (e, ·)) es).bind _ = _
      rw [ih fun e' he' => hopen e' (List.mem_cons_of_mem e he')]
      rfl
  unfold readArchive
  rw [hfind]
  show (readDirectory raw es.length records.length).bind _ = _
  rw [directory_at hrecord hdir hrecordsEnd]
  show (if _ then _ else _) = _
  rw [if_pos rfl, hmap]

end

end OmtClient.Lib.Archive
