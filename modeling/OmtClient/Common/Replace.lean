import OmtClient.Lib.Durable
import OmtClient.Lib.Prog
import OmtClient.Lib.Utf8

/-!
# Atomic replacement

`atomic_replace` of `crates/omt-common/src/fsio.rs` over the directory of the target. Each system
call ends as the outside decides, and the disk behind it is kept in the trace: a crash between two
calls meets one of these disks.

1. `replace_exact`: the content of the target at every step, and what is left behind.
2. `staged_remains`: a staged file whose removal fails.
-/

namespace OmtClient.Common.Replace

open OmtClient.Lib Durable Prog

/-! ## The program -/

/-- A path as the standard library takes it apart. -/
structure Path where
  text : Bytes
  fileName : Option Bytes
  parent : Option Bytes

/-- `split_path`: the directory a path lives in and its final component. -/
def splitPath (path : Path) : Option (Bytes × Bytes) := do
  let name ← path.fileName
  let parent ← path.parent
  some (if parent = [] then utf8 "." else parent, name)

inductive Call
  | statDirectory
  | statTarget
  | create
  | write
  | flush
  | rename
  | openDirectory
  | flushDirectory
  | remove
  deriving DecidableEq, Repr

/-- A system call, whether it went well, and the disk behind it. -/
structure Step where
  call : Call
  done : Bool
  disk : Disk Bytes

/-- What one write of a buffer does. -/
inductive Wrote
  | bytes (n : Nat)
  | interrupted
  | failed (text : String)
  deriving DecidableEq, Repr

inductive Error
  | tooLarge
  | invalidPath
  | unsafeDirectory
  | unsafeTarget
  | os (text : String)
  deriving DecidableEq, Repr

structure State where
  disk : Disk Bytes
  /-- Whether the directory of the path is one. -/
  isDirectory : Bool
  nonce : Except String Bytes
  /-- What the next system calls fail with, if they do. -/
  faults : List (Option String)
  writes : List Wrote
  trace : List Step

abbrev Io := Prog State Error

def State.start (disk : Disk Bytes) (isDirectory : Bool) (nonce : Except String Bytes) (faults : List (Option String))
    (writes : List Wrote) : State :=
  { disk, isDirectory, nonce, faults, writes, trace := [] }

/-- A system call has ended. -/
def State.after (s : State) (call : Call) (done : Bool) (disk : Disk Bytes) : State :=
  { s with disk, trace := s.trace ++ [⟨call, done, disk⟩] }

/-- A system call: it fails as the outside decides, or for what it finds, and changes nothing then. -/
def system (call : Call) (act : Disk Bytes → Except String (Disk Bytes)) : Io Unit := do
  let s ← get
  modify fun s => { s with faults := s.faults.drop 1 }
  match s.faults.headD none, act s.disk with
  | none, .ok disk => modify fun s => s.after call true disk
  | none, .error text | some text, _ => do
    modify fun s => s.after call false s.disk
    raise (.os text)

/-- `symlink_metadata(&dir)`. -/
def checkDirectory : Io Unit := do
  system .statDirectory .ok
  let s ← get
  if s.isDirectory = true then pure () else raise .unsafeDirectory

/-- `symlink_metadata(path)`, whose failure does not matter. -/
def checkTarget (name : Bytes) : Io Unit := do
  let r ← attempt (system .statTarget fun d => if (d.entry name).isSome then .ok d else .error "No such file or directory (os error 2)")
  let s ← get
  match r, s.disk.entry name with
  | .ok (), some i => if (s.disk.file i).regular = true then pure () else raise .unsafeTarget
  | _, _ => pure ()

/-- The name of the staged file. -/
def stagedName (name nonce : Bytes) : Bytes := utf8 "." ++ name ++ (utf8 "." ++ nonce ++ utf8 ".tmp")

/-- `create_new`. -/
def createNew (staged : Bytes) : Io Nat := do
  let s ← get
  system .create fun d => if (d.entry staged).isSome then .error "File exists (os error 17)" else .ok (d.create staged)
  pure s.disk.next

/-- `write_all`. -/
def writeAll (i : Nat) : List Wrote → Bytes → Io Unit
  | _, [] => pure ()
  | [], b :: bs => modify fun s => s.after .write true (s.disk.append i (b :: bs))
  | .interrupted :: ws, b :: bs => do
    modify fun s => s.after .write false s.disk
    writeAll i ws (b :: bs)
  | .failed text :: _, _ :: _ => do
    modify fun s => s.after .write false s.disk
    raise (.os text)
  | .bytes 0 :: _, _ :: _ => raise (.os "failed to write whole buffer")
  | .bytes (n + 1) :: ws, b :: bs => do
    modify fun s => s.after .write true (s.disk.append i ((b :: bs).take (n + 1)))
    writeAll i ws ((b :: bs).drop (n + 1))

/-- `sync_directory`. -/
def syncDirectory : Io Unit := do
  system .openDirectory .ok
  system .flushDirectory fun d => .ok d.flushDirectory

/-- What may fail once the staged file is there. -/
def publish (i : Nat) (staged name data : Bytes) : Io Unit := do
  let s ← get
  writeAll i s.writes data
  system .flush fun d => .ok (d.flush i)
  system .rename fun d =>
    if (d.entry staged).isSome then .ok (d.rename staged name) else .error "No such file or directory (os error 2)"
  syncDirectory

def removeFile (name : Bytes) : Io Unit :=
  system .remove fun d => if (d.entry name).isSome then .ok (d.unlink name) else .error "No such file or directory (os error 2)"

def randomHex : Io Bytes := do
  let s ← get
  match s.nonce with
  | .ok nonce => pure nonce
  | .error text => raise (.os text)

def atomicReplace (path : Path) (data : Bytes) (maximum : Nat) : Io Unit :=
  if maximum < data.length then raise .tooLarge
  else if path.text.getLast? = some 47 then raise .invalidPath
  else do
    let (_, name) ← orRaise (splitPath path) .invalidPath
    checkDirectory
    checkTarget name
    let nonce ← randomHex
    let staged := stagedName name nonce
    let i ← createNew staged
    let result ← attempt (publish i staged name data)
    match result with
    | .ok () => pure ()
    | .error e => do
      let _ ← attempt (removeFile staged)
      raise e

/-! ## What its calls do -/

/-- The component that is replaced. -/
def Path.target (path : Path) : Bytes := path.fileName.getD []

/-- The name of the file that is staged for it. -/
def Path.staged (path : Path) (nonce : Except String Bytes) : Bytes := stagedName path.target (nonce.toOption.getD [])

/-- `P` holds of the disk behind each call. -/
def Seen (P : Disk Bytes → Prop) (s : State) : Prop := ∀ step ∈ s.trace, P step.disk

/-- How a replacement that went well ends. -/
def Ended (before : Disk Bytes) (name staged data : Bytes) (s : State) : Prop :=
  ∃ earlier flushed renamed, s.trace = earlier ++ [⟨.flush, true, flushed⟩, ⟨.rename, true, renamed⟩,
    ⟨.openDirectory, true, renamed⟩, ⟨.flushDirectory, true, s.disk⟩] ∧ Staged before name staged data true flushed

namespace ReplaceLemmas

variable {P : Disk Bytes → Prop} {s : State} {d d' : Disk Bytes} {name staged data : Bytes} {call : Call}

theorem seen_after {done : Bool} (h : Seen P s) (hd : P d) : Seen P (s.after call done d) := by
  intro step hstep
  rcases List.mem_append.mp hstep with hold | hnew
  · exact h step hold
  · rw [List.mem_singleton.mp hnew]
    exact hd

theorem seen_system {done : Bool} {faults : List (Option String)} (h : Seen P s) (hd : P d) :
    Seen P ({ s with faults }.after call done d) := @seen_after P { s with faults } d call done h hd

theorem system_spec (act : Disk Bytes → Except String (Disk Bytes)) : wp (system call act)
    (fun _ s' => ∃ d, act s.disk = .ok d ∧ s' = { s with faults := s.faults.drop 1 }.after call true d)
    (fun e s' => (∃ text, e = .os text) ∧ s' = { s with faults := s.faults.drop 1 }.after call false s.disk) s := by
  rw [system, wp_bind, wp_get, wp_bind, wp_modify]
  split
  · next disk _ hact =>
    rw [wp_modify]
    exact ⟨disk, hact, rfl⟩
  · rw [wp_bind, wp_modify, wp_raise]
    exact ⟨⟨_, rfl⟩, rfl⟩
  · rw [wp_bind, wp_modify, wp_raise]
    exact ⟨⟨_, rfl⟩, rfl⟩

theorem staged_ne (name nonce : Bytes) : name ≠ stagedName name nonce := by
  intro h
  have hlength := congrArg List.length h
  rw [stagedName, List.length_append, List.length_append] at hlength
  have hdot : (utf8 ".").length = 1 := by decide
  omega

/-- Checking the directory leaves the disk alone. -/
theorem checkDirectory_spec (h : Seen P s) (hd : P s.disk) : wp checkDirectory
    (fun _ s' => Seen P s' ∧ s'.disk = s.disk ∧ s'.nonce = s.nonce) (fun _ s' => Seen P s' ∧ s'.disk = s.disk) s := by
  rw [checkDirectory, wp_bind]
  refine wp_mono (system_spec _) ?_ ?_
  · rintro _ _ ⟨d, hact, rfl⟩
    obtain rfl := Except.ok.inj hact
    rw [wp_bind, wp_get, wp_ite]
    exact ⟨fun _ => ⟨seen_system h hd, rfl, rfl⟩, fun _ => ⟨seen_system h hd, rfl⟩⟩
  · rintro _ _ ⟨_, rfl⟩
    exact ⟨seen_system h hd, rfl⟩

theorem checkTarget_spec (h : Seen P s) (hd : P s.disk) : wp (checkTarget name)
    (fun _ s' => Seen P s' ∧ s'.disk = s.disk ∧ s'.nonce = s.nonce) (fun _ s' => Seen P s' ∧ s'.disk = s.disk) s := by
  rw [checkTarget, wp_bind, wp_attempt]
  have hrest (r : Except Error Unit) {s' : State} (hs' : Seen P s') (hdisk : s'.disk = s.disk) (hnonce : s'.nonce = s.nonce) :
      wp (get >>= fun s : State => match r, s.disk.entry name with
        | .ok (), some i => if (s.disk.file i).regular = true then pure () else raise Error.unsafeTarget
        | _, _ => pure ())
      (fun _ s' => Seen P s' ∧ s'.disk = s.disk ∧ s'.nonce = s.nonce) (fun _ s' => Seen P s' ∧ s'.disk = s.disk) s' := by
    rw [wp_bind, wp_get]
    split
    · rw [wp_ite]
      exact ⟨fun _ => ⟨hs', hdisk, hnonce⟩, fun _ => ⟨hs', hdisk⟩⟩
    · exact ⟨hs', hdisk, hnonce⟩
  refine wp_mono (system_spec _) ?_ ?_
  · rintro _ _ ⟨d, hact, rfl⟩
    have hsame : d = s.disk := by
      split at hact
      · exact (Except.ok.inj hact).symm
      · cases hact
    exact hrest (.ok ()) (seen_system h (hsame ▸ hd)) hsame rfl
  · rintro e _ ⟨_, rfl⟩
    exact hrest (.error e) (seen_system h hd) rfl rfl

/-- Creating the staged file. -/
theorem createNew_spec (h : Seen P s) (hd : P s.disk) (hnew : P (s.disk.create staged)) : wp (createNew staged)
    (fun i s' => i = s.disk.next ∧ s.disk.entry staged = none ∧ Seen P s' ∧ s'.disk = s.disk.create staged)
    (fun _ s' => Seen P s' ∧ s'.disk = s.disk) s := by
  rw [createNew, wp_bind, wp_get, wp_bind]
  refine wp_mono (system_spec _) ?_ ?_
  · rintro _ _ ⟨d, hact, rfl⟩
    split at hact
    · cases hact
    · next hnone =>
      obtain rfl := Except.ok.inj hact
      exact ⟨rfl, Option.not_isSome_iff_eq_none.mp hnone, seen_system h hnew, rfl⟩
  · rintro _ _ ⟨_, rfl⟩
    exact ⟨seen_system h hd, rfl⟩

section

variable {before : Disk Bytes} {written : Bytes}

/-- Writing goes on where it stopped. -/
theorem writeAll_spec (ws : List Wrote) {rest : Bytes} {flushed : Bool} (h : Seen (Whole before name data) s)
    (hstaged : Staged before name staged written flushed s.disk) : wp (writeAll before.next ws rest)
    (fun _ s' => Seen (Whole before name data) s' ∧ ∃ flushed, Staged before name staged (written ++ rest) flushed s'.disk)
    (fun _ s' => Seen (Whole before name data) s' ∧ Kept before name s'.disk) s := by
  induction ws generalizing s written rest flushed with
  | nil =>
    cases rest with
    | nil =>
      rw [writeAll, wp_pure, List.append_nil]
      exact ⟨h, flushed, hstaged⟩
    | cons b bs =>
      rw [writeAll, wp_modify]
      have hmore := hstaged.append (b :: bs)
      exact ⟨seen_after h hmore.kept.whole, false, hmore⟩
  | cons w ws ih =>
    cases rest with
    | nil =>
      rw [writeAll, wp_pure, List.append_nil]
      exact ⟨h, flushed, hstaged⟩
    | cons b bs =>
      cases w with
      | interrupted =>
        rw [writeAll, wp_bind, wp_modify]
        exact ih (seen_after h hstaged.kept.whole) hstaged
      | failed text =>
        rw [writeAll, wp_bind, wp_modify, wp_raise]
        exact ⟨seen_after h hstaged.kept.whole, hstaged.kept⟩
      | bytes n =>
        cases n with
        | zero =>
          rw [writeAll, wp_raise]
          exact ⟨h, hstaged.kept⟩
        | succ n =>
          rw [writeAll, wp_bind, wp_modify]
          have hmore := hstaged.append ((b :: bs).take (n + 1))
          refine wp_mono (ih (seen_after h hmore.kept.whole) hmore) ?_ (fun _ _ h => h)
          rintro _ s' ⟨hseen, flushed', hall⟩
          rw [List.append_assoc, List.take_append_drop] at hall
          exact ⟨hseen, flushed', hall⟩

theorem publish_spec (hne : name ≠ staged) (h : Seen (Whole before name data) s)
    (hstaged : Staged before name staged [] false s.disk) : wp (publish before.next staged name data)
    (fun _ s' => Seen (Whole before name data) s' ∧ Replaced before name data s'.disk ∧ s'.disk.Settled name ∧
      s'.disk.entry staged = none ∧ Ended before name staged data s')
    (fun _ s' => Seen (Whole before name data) s' ∧
      (Kept before name s'.disk ∨ Replaced before name data s'.disk ∧ s'.disk.entry staged = none)) s := by
  rw [publish, wp_bind, wp_get, wp_bind]
  refine wp_mono (writeAll_spec s.writes h hstaged) ?_ (fun _ _ h => ⟨h.1, .inl h.2⟩)
  rintro _ s₁ ⟨h₁, flushed, hstaged₁⟩
  rw [List.nil_append] at hstaged₁
  rw [wp_bind]
  refine wp_mono (system_spec _) ?_ ?_
  · rintro _ _ ⟨d₂, hact₂, rfl⟩
    obtain rfl := Except.ok.inj hact₂
    have hstaged₂ := hstaged₁.flush
    rw [wp_bind]
    refine wp_mono (system_spec _) ?_ ?_
    · rintro _ _ ⟨d₃, hact₃, rfl⟩
      have hentry : ((s₁.disk.flush before.next).entry staged).isSome := by rw [hstaged₂.entry]; rfl
      have hact₃' : (Except.ok ((s₁.disk.flush before.next).rename staged name) : Except String (Disk Bytes)) = .ok d₃ :=
        (if_pos hentry).symm.trans hact₃
      obtain rfl := Except.ok.inj hact₃'
      obtain ⟨hreplaced, hgone⟩ := hstaged₂.rename hne
      have hwhole₂ : Whole before name data (s₁.disk.flush before.next) := hstaged₂.kept.whole
      have hwhole₃ := hreplaced.whole
      rw [syncDirectory, wp_bind]
      refine wp_mono (system_spec _) ?_ ?_
      · rintro _ _ ⟨d₄, hact₄, rfl⟩
        obtain rfl := Except.ok.inj hact₄
        refine wp_mono (system_spec _) ?_ ?_
        · rintro _ _ ⟨d₅, hact₅, rfl⟩
          obtain rfl := Except.ok.inj hact₅
          obtain ⟨hplaced, hsettled⟩ := hreplaced.flushDirectory
          refine ⟨seen_system (seen_system (seen_system (seen_system h₁ hwhole₂) hwhole₃) hwhole₃) hplaced.whole, hplaced, hsettled, hgone, s₁.trace,
            s₁.disk.flush before.next, (s₁.disk.flush before.next).rename staged name, ?_, hstaged₂⟩
          simp [State.after]
        · rintro _ _ ⟨_, rfl⟩
          exact ⟨seen_system (seen_system (seen_system (seen_system h₁ hwhole₂) hwhole₃) hwhole₃) hwhole₃, .inr ⟨hreplaced, hgone⟩⟩
      · rintro _ _ ⟨_, rfl⟩
        exact ⟨seen_system (seen_system (seen_system h₁ hwhole₂) hwhole₃) hwhole₃, .inr ⟨hreplaced, hgone⟩⟩
    · rintro _ _ ⟨_, rfl⟩
      exact ⟨seen_system (seen_system h₁ hstaged₂.kept.whole) hstaged₂.kept.whole, .inl hstaged₂.kept⟩
  · rintro _ _ ⟨_, rfl⟩
    exact ⟨seen_system h₁ hstaged₁.kept.whole, .inl hstaged₁.kept⟩

/-- Removing the staged file. -/
theorem removeFile_spec (hne : name ≠ staged) (h : Seen (Whole before name data) s)
    (hstate : Kept before name s.disk ∨ Replaced before name data s.disk ∧ s.disk.entry staged = none) :
    wp (removeFile staged)
    (fun _ s' => Seen (Whole before name data) s' ∧ Whole before name data s'.disk ∧ s'.disk.entry staged = none)
    (fun _ s' => Seen (Whole before name data) s' ∧ Whole before name data s'.disk ∧
      (s'.disk.entry staged = none ∨
        Kept before name s'.disk ∧ ∃ d, s'.trace.getLast? = some ⟨.remove, false, d⟩)) s := by
  have hwhole : Whole before name data s.disk := hstate.elim Kept.whole fun h => h.1.whole
  refine wp_mono (system_spec _) ?_ ?_
  · rintro _ _ ⟨d, hact, rfl⟩
    split at hact
    · obtain rfl := Except.ok.inj hact
      have hwhole' : Whole before name data (s.disk.unlink staged) :=
        hstate.elim (fun h => (h.unlink hne).whole) fun h => (h.1.unlink hne).whole
      exact ⟨seen_system h hwhole', hwhole', Disk.unlink_entry⟩
    · cases hact
  · rintro _ _ ⟨_, rfl⟩
    refine ⟨seen_system h hwhole, hwhole, ?_⟩
    rcases hstate with hkept | ⟨-, hgone⟩
    · exact .inr ⟨hkept, s.disk, by simp [State.after]⟩
    · exact .inl hgone

end

theorem splitPath_target {path : Path} {dir : Bytes} (h : splitPath path = some (dir, name)) : path.target = name := by
  rw [splitPath] at h
  cases hname : path.fileName with
  | none =>
    rw [hname] at h
    cases h
  | some n =>
    rw [hname] at h
    cases hparent : path.parent with
    | none =>
      rw [hparent] at h
      cases h
    | some p =>
      rw [hparent] at h
      rw [Path.target, hname]
      exact congrArg Prod.snd (Option.some.inj h)

/-- The whole replacement, call by call. -/
theorem atomicReplace_spec {path : Path} {maximum : Nat} {disk : Disk Bytes} {isDirectory : Bool}
    {nonce : Except String Bytes} {faults : List (Option String)} {writes : List Wrote} : wp (atomicReplace path data maximum)
      (fun _ s => Seen (Whole disk path.target data) s ∧ Replaced disk path.target data s.disk ∧ s.disk.Settled path.target ∧
        s.disk.entry (path.staged nonce) = none ∧ Ended disk path.target (path.staged nonce) data s)
      (fun _ s => Seen (Whole disk path.target data) s ∧ Whole disk path.target data s.disk ∧
        (s.disk.entry (path.staged nonce) = disk.entry (path.staged nonce) ∨
          Kept disk path.target s.disk ∧ ∃ d, s.trace.getLast? = some ⟨.remove, false, d⟩))
      (.start disk isDirectory nonce faults writes) := by
  have hfirst : Seen (Whole disk path.target data) (.start disk isDirectory nonce faults writes) := by
    intro step hstep
    cases hstep
  have hkept : Whole disk path.target data disk := Kept.refl.whole
  -- until the staged file is there, the disk is as it was
  have huntouched {s : State} (hseen : Seen (Whole disk path.target data) s) (hdisk : s.disk = disk) :
      Seen (Whole disk path.target data) s ∧ Whole disk path.target data s.disk ∧
        (s.disk.entry (path.staged nonce) = disk.entry (path.staged nonce) ∨
          Kept disk path.target s.disk ∧ ∃ d, s.trace.getLast? = some ⟨.remove, false, d⟩) :=
    ⟨hseen, hdisk ▸ hkept, .inl (by rw [hdisk])⟩
  rw [atomicReplace, wp_ite]
  refine ⟨fun _ => huntouched hfirst rfl, fun _ => ?_⟩
  rw [wp_ite]
  refine ⟨fun _ => huntouched hfirst rfl, fun _ => ?_⟩
  rw [wp_bind, wp_orRaise]
  refine ⟨?_, fun _ => huntouched hfirst rfl⟩
  rintro ⟨dir, name⟩ hsplit
  have htarget := splitPath_target hsplit
  subst htarget
  dsimp only
  rw [wp_bind]
  refine wp_mono (checkDirectory_spec hfirst hkept) ?_ (fun _ _ h => huntouched h.1 h.2)
  rintro _ s₁ ⟨h₁, hdisk₁, hnonce₁⟩
  have hdisk₁ : s₁.disk = disk := hdisk₁
  rw [wp_bind]
  refine wp_mono (checkTarget_spec h₁ (hdisk₁ ▸ hkept)) ?_ (fun _ _ h => huntouched h.1 (h.2.trans hdisk₁))
  rintro _ s₂ ⟨h₂, hdisk₂, hnonce₂⟩
  have hdisk₂ : s₂.disk = disk := hdisk₂.trans hdisk₁
  have hnonce₂ : s₂.nonce = nonce := hnonce₂.trans hnonce₁
  rw [wp_bind, randomHex, wp_bind, wp_get, hnonce₂]
  cases hrandom : nonce with
  | error text =>
    rw [wp_raise, ← hrandom]
    exact huntouched h₂ hdisk₂
  | ok random =>
    rw [wp_pure, ← hrandom]
    have hname : stagedName path.target random = path.staged nonce := by rw [hrandom]; rfl
    rw [hname, wp_bind]
    have hne : path.target ≠ path.staged nonce := staged_ne _ _
    have hcreated : Staged disk path.target (path.staged nonce) [] false (s₂.disk.create (path.staged nonce)) :=
      hdisk₂ ▸ Kept.create hne
    refine wp_mono (createNew_spec h₂ (hdisk₂ ▸ hkept) hcreated.kept.whole) ?_ (fun _ _ h => huntouched h.1 (h.2.trans hdisk₂))
    rintro _ s₃ ⟨rfl, hnone, h₃, hdisk₃⟩
    rw [hdisk₂] at hnone hcreated ⊢
    rw [hdisk₂] at hdisk₃
    rw [wp_bind, wp_attempt]
    refine wp_mono (publish_spec hne h₃ (hdisk₃ ▸ hcreated)) ?_ ?_
    · rintro _ s₄ hall
      exact hall
    · rintro e s₄ ⟨h₄, hstate⟩
      dsimp only
      rw [wp_bind, wp_attempt]
      refine wp_mono (removeFile_spec hne h₄ hstate) ?_ ?_
      · rintro _ s₅ ⟨h₅, hwhole, hgone⟩
        rw [wp_raise]
        exact ⟨h₅, hwhole, .inl (hgone.trans hnone.symm)⟩
      · rintro _ s₅ ⟨h₅, hwhole, hlast⟩
        rw [wp_raise]
        exact ⟨h₅, hwhole, hlast.imp_left fun hgone => hgone.trans hnone.symm⟩

end ReplaceLemmas

open ReplaceLemmas

/-- Whatever fails, and wherever a crash comes: under the target stand the old bytes or the new
ones, at each step and after a crash there. When it ends well the new bytes are there, and were
flushed before the rename; when it fails the staged file is gone, but for a removal that fails
before the rename. -/
theorem replace_exact (path : Path) (data : Bytes) (maximum : Nat) (disk : Disk Bytes) (isDirectory : Bool)
    (nonce : Except String Bytes) (faults : List (Option String)) (writes : List Wrote) :
    ∃ result s, (atomicReplace path data maximum).run (.start disk isDirectory nonce faults writes) = (result, s) ∧
      (∀ step ∈ s.trace, Whole disk path.target data step.disk) ∧ Whole disk path.target data s.disk ∧
      (disk.Settled path.target → ∀ step ∈ s.trace, ∀ r, step.disk.Crash path.target r → r = disk.read path.target ∨ r = some data) ∧
      (result = .ok () → s.disk.read path.target = some data ∧ (∀ r, s.disk.Crash path.target r → r = some data) ∧
        s.disk.entry (path.staged nonce) = none ∧ Ended disk path.target (path.staged nonce) data s) ∧
      (∀ e, result = .error e → s.disk.entry (path.staged nonce) = disk.entry (path.staged nonce) ∨
        Kept disk path.target s.disk ∧ ∃ d, s.trace.getLast? = some ⟨.remove, false, d⟩) := by
  have hspec := @atomicReplace_spec data path maximum disk isDirectory nonce faults writes
  unfold wp at hspec
  split at hspec
  · next s hrun =>
    obtain ⟨hseen, hplaced, hsettled, hgone, hended⟩ := hspec
    have hwhole : s.disk.read path.target = some data := hplaced.read
    refine ⟨.ok (), s, hrun, hseen, hplaced.whole, ?_, fun _ => ⟨hwhole, fun r hr => ?_, hgone, hended⟩, fun e he => by cases he⟩
    · intro hrest step hstep r hr
      exact ((hseen step hstep).2 r hr).imp hrest.crash id
    · rw [hsettled.crash hr, hwhole]
  · next e s hrun =>
    obtain ⟨hseen, hwhole, hstaged⟩ := hspec
    refine ⟨.error e, s, hrun, hseen, hwhole, ?_, fun h => (by cases h), fun _ _ => hstaged⟩
    intro hrest step hstep r hr
    exact ((hseen step hstep).2 r hr).imp hrest.crash id

/-- A directory without files. -/
def empty : Disk Bytes where
  file _ := ⟨true, [], true⟩
  entry _ := none
  stale _ := []
  next := 0
  fresh _ _ h := by simp at h

def settings : Path := ⟨utf8 "/etc/omt.json", some (utf8 "omt.json"), some (utf8 "/etc")⟩

/-- A replacement on a full disk that removes nothing either. -/
def crowded : Except Error Unit × State := (atomicReplace settings [1] 1).run (.start empty true (.ok [])
  [none, none, none, some "Input/output error (os error 5)"] [.failed "No space left on device (os error 28)"])

theorem crowded_ends : (atomicReplace settings [1] 1).run (.start empty true (.ok [])
    [none, none, none, some "Input/output error (os error 5)"] [.failed "No space left on device (os error 28)"]) =
    (.error (.os "No space left on device (os error 28)"), crowded.2) := Prod.ext rfl rfl

/-- The disk is full, and the staged file cannot be removed either: it stays. -/
theorem staged_remains : ¬ ∀ path data maximum disk isDirectory nonce faults writes e s,
    (atomicReplace path data maximum).run (.start disk isDirectory nonce faults writes) = (.error e, s) →
    disk.entry (path.staged nonce) = none → s.disk.entry (path.staged nonce) = none := by
  intro h
  have hgone := h settings [1] 1 empty true (.ok []) _ _ (.os "No space left on device (os error 28)") crowded.2 crowded_ends rfl
  have hstays : crowded.2.disk.entry (settings.staged (.ok [])) = some 0 := by decide
  rw [hstays] at hgone
  cases hgone

end OmtClient.Common.Replace
