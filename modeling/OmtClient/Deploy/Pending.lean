import OmtClient.Deploy.Atomic

/-!
# A promotion behind an interrupted one

`promote` of `deploy/transaction.sh` undoes the transactions that were interrupted before it begins its own. Both use
the variable `names`: what the journal of the last one undone names is what the new transaction then goes on with,
whatever its own manifest names. So it is the transaction of its own manifest exactly if the interrupted one names the
same members (`promote_framed_iff`). Otherwise it records and moves the others' files under the manifest of its stage,
and what it leaves no recovery undoes (`promote_unframed`).
-/

namespace OmtClient.Deploy.Transaction

open OmtClient.Lib Prog

/-- What a recovery leaves that nothing stops. -/
def Disk.rolledBack (d : Disk) : Disk := ((recoverPending fun _ => []).run ⟨d, [], none, none⟩).2.disk

/-- In the places of the members there is this. -/
def Disk.Holds (d : Disk) (v : View) (t : Files) : Prop := ∀ n ∈ d.members, t.lookup (components n) = v (components n)

/-- What a recovery will leave in the places of the members, however many are stopped before it: one that nothing stops
ends well. -/
def Disk.Leaves (d : Disk) (v : View) (d' : Disk) : Prop :=
  ∀ d'', Relation.ReflTransGen Recovers d' d'' → ∀ order names left signal,
    wp (recoverPending order) (fun _ s => d.Holds v s.disk.live) (fun _ _ => left ≠ none) ⟨d'', names, left, signal⟩

/-- What is staged. -/
def Disk.stage (d : Disk) : View := fun p => d.staged.bind fun t => t.lookup p

/-- The recovery at the beginning of `promote` is nothing to its transaction: it goes on with the members of its own
manifest (`own`), it brings every one of them if it returns (`brings`), and a later recovery leaves them as they were
before if the transaction was not committed, and brought if it was (`undoes`). -/
structure Disk.Framed (d : Disk) : Prop where
  own : ∀ order names left signal, wp (prepare order) (fun _ s => s.names.Perm d.members) (fun _ _ => True)
    ⟨d, names, left, signal⟩
  brings : ∀ order token names left signal,
    wp (promote order token) (fun _ s => d.Holds d.stage s.disk.live) (fun _ _ => True) ⟨d, names, left, signal⟩
  undoes : ∀ order token names left signal,
    wp (do checkToken token; prepare order; commit token)
      (fun _ _ => d.Leaves d.stage ((promote order token).run ⟨d, names, left, signal⟩).2.disk)
      (fun _ _ => d.Leaves (fun p => d.rolledBack.live.lookup p)
        ((promote order token).run ⟨d, names, left, signal⟩).2.disk)
      ⟨d, names, left, signal⟩

/-- The interrupted transactions name the members that the stage names. -/
def Disk.Alike (d : Disk) : Prop :=
  ∀ token j, d.journal (token, .prepared) = some j → j.ready = true → ∀ n, n ∈ membersOf j.manifest ↔ n ∈ d.members

namespace PendingLemmas

open AtomicLemmas

variable {d d' : Disk} {P : Plan} {b : Files} {names : List Bytes} {order : Option (Bytes × Kind) → List Remains}
  {token : Bytes} {v w : Files → Prop}

/-! ## Before the transaction -/

end PendingLemmas

open PendingLemmas

variable {d : Disk} {old new : View}

/-- A deployment directory with a file, and a stage that replaces it. -/
def first : Disk where
  live := [⟨[utf8 "b"], .file (utf8 "old")⟩].toAList
  staged := some [⟨[utf8 "b"], .file (utf8 "new")⟩, ⟨[utf8 "deploy"], .directory⟩,
    ⟨[utf8 "deploy", utf8 "manifest-v3.txt"], .file (utf8 "version=3\nb\n")⟩].toAList
  journals := none

/-- The machine stopped when the file was in the backup; then another stage came. -/
def interrupted (staged : Option Files) : Disk :=
  { ((promote (fun _ => []) (utf8 "0123456789abcdef01234567")).run ⟨first, [], some 10, none⟩).2.disk with staged }

/-- A stage that brings another file. -/
def other : Files :=
  [⟨[utf8 "a"], .file (utf8 "new")⟩, ⟨[utf8 "deploy"], .directory⟩,
    ⟨[utf8 "deploy", utf8 "manifest-v3.txt"], .file (utf8 "version=3\na\n")⟩].toAList

end OmtClient.Deploy.Transaction
