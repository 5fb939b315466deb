import Mathlib.Data.List.Sort
import OmtClient.Deploy.Manifest
import OmtClient.Lib.Prog
import OmtClient.Lib.Tree

/-!
# Deployment transactions

`promote` and `recover` of `deploy/transaction.sh`. A transaction moves the files of its stage into the deployment
directory. It keeps a journal: the names of its members, whether each was there before, and the files that were,
which a later run puts back if the transaction was not committed.

Each command that changes the disk is one step, and the machine may stop or a signal may come before any of them.
`remove_tree` takes the entries of a directory away in the order in which `find` meets them, and a crash leaves the
rest.

The variable `names` belongs to the whole script: loading the manifest of a journal replaces what `promote` has
loaded.

The two reserved directories, `.deploy-transactions` and `.deploy-staging`, are kept apart from the rest of the tree.
The script also takes manifests that name members in them; what it does with such a one is not modelled, and a run
that loads it ends with `beyond`.
-/

namespace OmtClient.Deploy.Transaction

open OmtClient.Lib Prog

/-! ## The disk -/

abbrev Files := Tree Bytes Bytes

def components (name : Bytes) : List Bytes := name.splitOn 47

/-- Whether a member is outside of the reserved directories. -/
def outside (name : Bytes) : Bool :=
  (components name).head?.all fun top => top != utf8 ".deploy-transactions" && top != utf8 ".deploy-staging"

/-- The suffix of a journal's name. -/
inductive Kind
  | prepared
  | committed
  | rolledBack
  deriving DecidableEq, Repr

/-- A directory in `.deploy-transactions`. -/
structure Journal where
  manifest : Option Bytes
  state : Option Bytes
  ready : Bool
  backup : Option Files

/-- The deployment directory without the two reserved ones, the stage of the transaction, and the journals by token
and suffix, if `.deploy-transactions` is there. -/
structure Disk where
  live : Files
  staged : Option Files
  journals : Option (AList fun _ : Bytes × Kind => Journal)

def Disk.journal (d : Disk) (key : Bytes × Kind) : Option Journal := d.journals.bind fun js => js.lookup key

/-- What `find` has left of a directory that it is deleting. -/
structure Remains where
  manifest : Bool
  state : Bool
  ready : Bool
  backup : Bool
  gone : List (List Bytes)

def Remains.files (r : Remains) (t : Files) : Files := r.gone.foldl (fun t p => t.erase p) t

def Remains.journal (r : Remains) (j : Journal) : Journal :=
  ⟨if r.manifest then j.manifest else none, if r.state then j.state else none, j.ready && r.ready,
    if r.backup then j.backup.map r.files else none⟩

/-! ## The script -/

/-- The disk, the global `names`, and the steps that are made before something stops the script, if anything does:
the machine, or a signal, behind which there are so many steps again. -/
structure Shell where
  disk : Disk
  names : List Bytes
  left : Option Nat
  signal : Option (Option Nat)

/-- Why a run ends early: the machine stops, a signal, `fail`, or a command that fails where that ends the script; and
`beyond`, where the script would go on and the model does not follow it. -/
inductive Stop
  | crash
  | interrupted
  | failed (text : Bytes)
  | refused
  | beyond
  deriving DecidableEq

abbrev Act := Prog Shell Stop

def fail {α : Type} (text : String) : Act α := raise (.failed (utf8 text))

/-- A command that changes the disk. `strict` is `set -e`, which does not hold in what stands before `||`. -/
def command (strict : Bool) (f : Disk → Option Disk) : Act Unit := do
  let s ← get
  if s.left = some 0 then
    match s.signal with
    | none => raise .crash
    | some left => do
      modify fun s => { s with left, signal := none }
      raise .interrupted
  else match f s.disk with
    | some disk => modify fun s => { s with disk, left := s.left.map (· - 1) }
    | none => if strict = true then raise .refused else pure ()

/-- A `for` loop. -/
def forEach {α : Type} (body : α → Act Unit) : List α → Act Unit
  | [] => pure ()
  | x :: xs => do
    body x
    forEach body xs

def Disk.setJournal (key : Bytes × Kind) (j : Journal) (d : Disk) : Disk :=
  { d with journals := d.journals.map fun js => js.insert key j }

def Disk.updateJournal (key : Bytes × Kind) (f : Journal → Option Journal) (d : Disk) : Option Disk := do
  let j ← d.journal key
  let j' ← f j
  some (d.setJournal key j')

/-- `mkdir` of a journal. -/
def Disk.newJournal (key : Bytes × Kind) (d : Disk) : Option Disk :=
  if d.journals.isNone || (d.journal key).isSome then none else some (d.setJournal key ⟨none, none, false, none⟩)

def Disk.dropJournal (key : Bytes × Kind) (d : Disk) : Disk := { d with journals := d.journals.map fun js => js.erase key }

/-- `mv -fT` of a journal. -/
def Disk.renameJournal (key key' : Bytes × Kind) (d : Disk) : Option Disk := do
  let j ← d.journal key
  if (d.journal key').isSome then none else some ((d.dropJournal key).setJournal key' j)

/-- `mkdir -p` of `.deploy-transactions`. -/
def Disk.makeRoot (d : Disk) : Disk := { d with journals := some (d.journals.getD ∅) }

/-- `rmdir` of `.deploy-transactions`. -/
def Disk.dropRoot (d : Disk) : Option Disk :=
  if d.journals.any fun js => js.keys.isEmpty then some { d with journals := none } else none

/-- `mv -fT` of a backup to its place. -/
def Disk.putBack (key : Bytes × Kind) (p : List Bytes) (d : Disk) : Option Disk := do
  let j ← d.journal key
  let b ← j.backup
  let (b, live) ← b.rename d.live p
  some { d.setJournal key { j with backup := some b } with live }

/-- `mv -fT` of a file to its backup. -/
def Disk.setAside (key : Bytes × Kind) (p : List Bytes) (d : Disk) : Option Disk := do
  let j ← d.journal key
  let b ← j.backup
  let (live, b) ← d.live.rename b p
  some { d.setJournal key { j with backup := some b } with live }

/-- `mv -fT` of a staged file to its place. -/
def Disk.bringIn (p : List Bytes) (d : Disk) : Option Disk := do
  let staged ← d.staged
  let (staged, live) ← staged.rename d.live p
  some { d with live, staged := some staged }

section

-- What is left of a journal or of the stage when it is removed, deletion by deletion.
variable (order : Option (Bytes × Kind) → List Remains)

/-- `remove_tree` of a journal. -/
def removeJournal (key : Bytes × Kind) : Act Unit := do
  forEach (fun r : Remains => command true (Disk.updateJournal key fun j => some (r.journal j))) (order (some key))
  command true fun d => some (d.dropJournal key)

/-- `remove_tree` of the stage. -/
def removeStage : Act Unit := do
  forEach (fun r : Remains => command true fun d => some { d with staged := d.staged.map r.files }) (order none)
  command true fun d => some { d with staged := none }

/-- `load_manifest`. -/
def loadNames : Option Bytes → Act Unit
  | none => fail "unsafe or missing deployment manifest"
  | some file =>
    match loadManifest file with
    | .error r => raise (.failed r.text)
    | .ok names => if names.all outside then modify fun s => { s with names } else raise .beyond

/-- `validate_journal`; the record of what was there before. -/
def validateJournal (key : Bytes × Kind) : Act Bytes := do
  let s ← get
  match s.disk.journal key with
  | none => fail "unsafe deployment journal"
  | some j =>
    match j.manifest, j.state with
    | none, _ => fail "deployment journal has no safe transaction manifest"
    | some _, none => fail "deployment journal has no safe state record"
    | some manifest, some state =>
      if j.ready = false then fail "deployment journal has no safe ready marker"
      else do
        loadNames (some manifest)
        let s ← get
        if state.count 10 ≠ s.names.length then fail "deployment journal state count does not match its manifest"
        else pure state

/-- The fields that `read` makes of a line with tabs. -/
def fields (line : Bytes) : List Bytes := ((value line).splitOn 9).filter fun f => !f.isEmpty

/-- The loop over the record: what it says of each member. -/
def readPrior (names : List Bytes) (prior : List (Bytes × Bool)) : List Bytes → Act (List (Bytes × Bool))
  | [] => pure prior
  | line :: lines =>
    match fields line with
    | [relative, state] =>
      if !names.contains relative then fail "journal state contains a path outside its manifest"
      else if state ≠ utf8 "present" ∧ state ≠ utf8 "absent" then fail "journal state has an invalid prior state"
      else if (prior.lookup relative).isSome then fail "journal state contains a duplicate path"
      else readPrior names (prior ++ [(relative, state == utf8 "present")]) lines
    | [relative] =>
      if !names.contains relative then fail "journal state contains a path outside its manifest"
      else fail "journal state has an invalid prior state"
    | _ => fail "malformed deployment journal state"

/-- `assert_safe_ancestors`. -/
def assertSafeAncestors (t : Files) (name : Bytes) : Act Unit :=
  if (Tree.above (components name)).all fun p => (t.leaf p).isNone then pure ()
  else raise (.failed (utf8 "unsafe ancestor for deployment path " ++ name))

/-- `ensure_parent_directories`, in the deployment directory. -/
def ensureParents (strict : Bool) (name : Bytes) : Act Unit := do
  let s ← get
  assertSafeAncestors s.disk.live name
  if Tree.above (components name) = [] then pure ()
  else command strict fun d => do
    let live ← d.live.mkdirs (Tree.above (components name))
    some { d with live }

/-- `ensure_parent_directories`, in the backup of a journal. -/
def ensureBackupParents (key : Bytes × Kind) (name : Bytes) : Act Unit := do
  let s ← get
  match (s.disk.journal key).bind Journal.backup with
  | none => raise .refused
  | some b => do
    assertSafeAncestors b name
    if Tree.above (components name) = [] then pure ()
    else command true <| Disk.updateJournal key fun j => do
      let b ← j.backup
      let b' ← b.mkdirs (Tree.above (components name))
      some { j with backup := some b' }

/-- `cleanup_empty_parents`: the directories above, from the lowest on, while `rmdir` takes them. -/
def cleanupParents : List (List Bytes) → Act Unit
  | [] => pure ()
  | p :: ps => do
    let s ← get
    match s.disk.live.rmdir p with
    | none => pure ()
    | some live => do
      command true fun d => some { d with live }
      cleanupParents ps

/-- What `rollback_prepared` does for a member. -/
def restore (strict : Bool) (key : Bytes × Kind) (prior : List (Bytes × Bool)) (name : Bytes) : Act Unit := do
  let p := components name
  match prior.lookup name with
  | none => raise .refused
  | some true => do
    let s ← get
    match ((s.disk.journal key).bind Journal.backup).bind fun b => b.lookup p with
    | none => pure ()
    | some (.file _) => do
      command strict fun d => do
        let live ← d.live.remove p
        some { d with live }
      ensureParents strict name
      command strict (Disk.putBack key p)
    | some _ => fail "unsafe deployment backup"
  | some false => do
    command strict fun d => do
      let live ← d.live.remove p
      some { d with live }
    cleanupParents (Tree.above p).reverse

/-- `rollback_prepared`. -/
def rollbackPrepared (strict : Bool) (key : Bytes × Kind) : Act Unit := do
  let state ← validateJournal key
  let s ← get
  let prior ← readPrior s.names [] (state.splitOn 10).dropLast
  forEach (restore strict key prior) s.names

/-- The journals with a suffix, in the order of their names. -/
def Disk.glob (d : Disk) (kind : Kind) : List Bytes :=
  (((d.journals.elim [] AList.keys).filter fun key => key.2 == kind).map Prod.fst).insertionSort fun a b => a ≤ b

/-- The first loop of `recover_pending`, for one journal. -/
def recoverJournal (token : Bytes) : Act Unit := do
  let s ← get
  match s.disk.journal (token, .prepared) with
  | none => pure ()
  | some j =>
    if j.ready = false then removeJournal order (token, .prepared)
    else do
      rollbackPrepared true (token, .prepared)
      let s ← get
      if (s.disk.journal (token, .rolledBack)).isSome then fail "rollback completion already exists"
      else command true (Disk.renameJournal (token, .prepared) (token, .rolledBack))

/-- The body of the second loop. -/
def sweepJournal (key : Bytes × Kind) : Act Unit := do
  let s ← get
  if (s.disk.journal key).isNone then pure () else removeJournal order key

/-- The second loop of `recover_pending`, and what follows it. -/
def sweep : Act Unit := do
  let s ← get
  forEach (sweepJournal order) ((s.disk.glob .committed).map (·, .committed) ++ (s.disk.glob .rolledBack).map (·, .rolledBack))
  command false Disk.dropRoot

/-- `recover_pending`. -/
def recoverPending : Act Unit := do
  let s ← get
  if s.disk.journals.isNone then pure ()
  else do
    forEach (recoverJournal order) (s.disk.glob .prepared)
    sweep order

/-- What `promote` asks of a member before it changes anything. -/
def checkMember (staged : Files) (name : Bytes) : Act Unit := do
  assertSafeAncestors staged name
  match staged.lookup (components name) with
  | some (.file _) => do
    let s ← get
    assertSafeAncestors s.disk.live name
    match s.disk.live.lookup (components name) with
    | none => pure ()
    | some (.file _) => pure ()
    | some _ => raise (.failed (utf8 "unsafe existing deployment artifact: " ++ name))
  | _ => raise (.failed (utf8 "unsafe or missing staged deployment artifact: " ++ name))

/-- The line of the record for a member. -/
def stateLine (name : Bytes) (there : Bool) : Bytes := name ++ 9 :: (utf8 (if there then "present" else "absent") ++ [10])

def recordMember (key : Bytes × Kind) (name : Bytes) : Act Unit :=
  command true fun d => d.updateJournal key fun j => do
    let state ← j.state
    some { j with state := some (state ++ stateLine name (d.live.lookup (components name)).isSome) }

/-- The loop that moves a member. -/
def promoteMember (key : Bytes × Kind) (name : Bytes) : Act Unit := do
  ensureBackupParents key name
  ensureParents true name
  let s ← get
  if (s.disk.live.lookup (components name)).isSome then command true (Disk.setAside key (components name)) else pure ()
  command true (Disk.bringIn (components name))

/-- The file that the stage has as its manifest. -/
def stagedManifest (d : Disk) : Option Bytes :=
  match d.staged.bind fun t => t.lookup [utf8 "deploy", utf8 "manifest-v3.txt"] with
  | some (.file content) => some content
  | _ => none

/-- What `promote` asks of the stage before it changes anything. -/
def check : Act Unit := do
  let s ← get
  match s.disk.staged with
  | none => fail "unsafe or missing token-specific staging directory"
  | some staged => do
    loadNames (stagedManifest s.disk)
    let s ← get
    forEach (checkMember staged) s.names

/-- `promote` up to the trap. -/
def prepare : Act Unit := do
  check
  command true fun d => some d.makeRoot
  recoverPending order
  command true fun d => some d.makeRoot

/-- The journal of a transaction, up to `ready`. -/
def writeJournal (key : Bytes × Kind) : Act Unit := do
  command true (Disk.newJournal key)
  command true (Disk.updateJournal key fun j => some { j with backup := some ∅ })
  command true fun d => d.updateJournal key fun j => (stagedManifest d).map fun file => { j with manifest := some file }
  command true (Disk.updateJournal key fun j => some { j with state := some [] })
  let s ← get
  forEach (recordMember key) s.names
  command true (Disk.updateJournal key fun j => some { j with ready := true })

/-- `promote` under the trap, up to the rename that commits. -/
def commit (token : Bytes) : Act Unit := do
  writeJournal (token, .prepared)
  let s ← get
  forEach (promoteMember (token, .prepared)) s.names
  command true (Disk.renameJournal (token, .prepared) (token, .committed))

/-- `promote` behind the commit. -/
def cleanUp (token : Bytes) : Act Unit := do
  removeJournal order (token, .committed)
  command false Disk.dropRoot
  removeStage order

/-- `rollback`, the trap. It is not set any more when it runs, so that a signal ends it. -/
def rollback (token : Bytes) (e : Stop) : Act Unit := do
  let s ← get
  if (s.disk.journal (token, .prepared)).isSome then do
    let undone ← attempt (rollbackPrepared false (token, .prepared))
    match undone with
    | .error .crash | .error .interrupted => raise .crash
    | .error .beyond => raise .beyond
    -- `fail` leaves the trap too
    | .error (.failed text) => raise (.failed text)
    | .error .refused | .ok () => raise e
  else raise e

/-- The form of a transaction's token. -/
def validToken (token : Bytes) : Bool :=
  token.length == 24 && token.all fun b => 48 ≤ b && b ≤ 57 || 97 ≤ b && b ≤ 102

/-- `promote` under the trap. A run that ends early rolls back, if its journal is still prepared. -/
def transact (token : Bytes) : Act Unit := do
  let result ← attempt do
    commit token
    cleanUp order token
  match result with
  | .ok () => pure ()
  | .error .crash => raise .crash
  | .error .beyond => raise .beyond
  | .error e => rollback token e

/-- What `promote` asks of its token. -/
def checkToken (token : Bytes) : Act Unit :=
  if !validToken token then
    fail "deployment transaction identifier must contain 24 lowercase hex characters"
  else pure ()

/-- `promote`. -/
def promote (token : Bytes) : Act Unit := do
  checkToken token
  prepare order
  transact order token

end

end OmtClient.Deploy.Transaction
