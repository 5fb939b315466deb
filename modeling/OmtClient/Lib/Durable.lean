import Mathlib.Logic.Function.Basic
import OmtClient.Lib.Bytes

/-!
# A directory that may crash

Files, the names of one directory, and what a crash may leave of them. Bytes that are not flushed
may be any bytes after a crash, and a name may refer to whatever it referred to since the
directory was last flushed, each name for itself.

1. `Disk.Crash`: what a crash may leave under a name.
2. `Kept.whole`, `Replaced.whole`: a replacement that goes through a file of its own leaves the old
   content or the new one at each of its steps, crash or not.
-/

namespace OmtClient.Lib.Durable

variable {Name : Type}

structure File where
  regular : Bool
  bytes : Bytes
  flushed : Bool
  deriving DecidableEq, Repr

/-- The files, by number, and the names that refer to them. -/
structure Disk (Name : Type) where
  file : Nat → File
  entry : Name → Option Nat
  /-- What the name referred to since the directory was last flushed. -/
  stale : Name → List (Option Nat)
  /-- The number of the next file. -/
  next : Nat
  fresh : ∀ name i, entry name = some i ∨ some i ∈ stale name → i < next

namespace Disk

/-! ## Reading -/

def read (d : Disk Name) (name : Name) : Option Bytes := (d.entry name).map fun i => (d.file i).bytes

/-- After a crash the file `v` may have the bytes `r`. -/
def Leaves (d : Disk Name) (v : Option Nat) (r : Option Bytes) : Prop :=
  match v with
  | none => r = none
  | some i => ∃ bytes, r = some bytes ∧ ((d.file i).flushed = true → bytes = (d.file i).bytes)

/-- After a crash the name may read as `r`. -/
def Crash (d : Disk Name) (name : Name) (r : Option Bytes) : Prop := ∃ v ∈ d.entry name :: d.stale name, d.Leaves v r

/-- A crash changes nothing about the name. -/
def Settled (d : Disk Name) (name : Name) : Prop := d.stale name = [] ∧ ∀ i, d.entry name = some i → (d.file i).flushed = true

/-! ## Writing -/

section

variable [DecidableEq Name]

/-- Lets a name refer to something else. -/
def refer (d : Disk Name) (name : Name) (v : Option Nat) (hv : ∀ i, v = some i → i < d.next) : Disk Name where
  file := d.file
  entry := Function.update d.entry name v
  stale := Function.update d.stale name (d.entry name :: d.stale name)
  next := d.next
  fresh := by
    intro n i h
    by_cases hn : n = name
    · subst hn
      rw [Function.update_self, Function.update_self, List.mem_cons] at h
      rcases h with h | h | h
      · exact hv i h
      · exact d.fresh n i (.inl h.symm)
      · exact d.fresh n i (.inr h)
    · rw [Function.update_of_ne hn, Function.update_of_ne hn] at h
      exact d.fresh n i h

/-- Changes a file. -/
def store (d : Disk Name) (i : Nat) (f : File) : Disk Name := { d with file := Function.update d.file i f }

/-- A new empty file under a name. -/
def create (d : Disk Name) (name : Name) : Disk Name :=
  refer { d with
    file := Function.update d.file d.next ⟨true, [], false⟩
    next := d.next + 1
    fresh := fun n i h => Nat.lt_succ_of_lt (d.fresh n i h) } name (some d.next) (fun i h => by cases h; exact Nat.lt_succ_self _)

def append (d : Disk Name) (i : Nat) (bytes : Bytes) : Disk Name :=
  d.store i ⟨(d.file i).regular, (d.file i).bytes ++ bytes, false⟩

def flush (d : Disk Name) (i : Nat) : Disk Name := d.store i { d.file i with flushed := true }

def unlink (d : Disk Name) (name : Name) : Disk Name := d.refer name none (fun i h => by cases h)

def rename (d : Disk Name) (source target : Name) : Disk Name :=
  if source = target then d
  else (d.refer target (d.entry source) fun i h => d.fresh source i (.inl h)).unlink source

end

def flushDirectory (d : Disk Name) : Disk Name where
  file := d.file
  entry := d.entry
  stale _ := []
  next := d.next
  fresh name i h := d.fresh name i (.inl (h.elim id (by simp)))

end Disk

open Disk

variable {d d' : Disk Name} {name other : Name} {bytes : Bytes} {i : Nat}

theorem leaves_congr {v : Option Nat} {r : Option Bytes} (h : ∀ i, v = some i → d'.file i = d.file i) (hr : d'.Leaves v r) :
    d.Leaves v r := by
  cases v with
  | none => exact hr
  | some i =>
    obtain ⟨bytes, rfl, hbytes⟩ := hr
    rw [h i rfl] at hbytes
    exact ⟨bytes, rfl, hbytes⟩

theorem Disk.Settled.crash {r : Option Bytes} (h : d.Settled name) (hr : d.Crash name r) : r = d.read name := by
  obtain ⟨v, hv, hr⟩ := hr
  rw [h.1, List.mem_singleton] at hv
  subst hv
  rw [Disk.read]
  cases hentry : d.entry name with
  | none =>
    rw [hentry] at hr
    exact hr
  | some i =>
    rw [hentry] at hr
    obtain ⟨bytes, rfl, hbytes⟩ := hr
    rw [hbytes (h.2 i hentry)]
    rfl

/-! ## Replacing a file -/

/-- Of the name, from `d` on: the old content or the new one stands under it, and is what a crash
leaves. -/
def Whole (d : Disk Name) (name : Name) (bytes : Bytes) (d' : Disk Name) : Prop :=
  (d'.read name = d.read name ∨ d'.read name = some bytes) ∧ ∀ r, d'.Crash name r → d.Crash name r ∨ r = some bytes

/-- Nothing has happened to the name or the files there were. -/
structure Kept (d : Disk Name) (name : Name) (d' : Disk Name) : Prop where
  entry : d'.entry name = d.entry name
  stale : d'.stale name = d.stale name
  file : ∀ i < d.next, d'.file i = d.file i
  next : d.next ≤ d'.next

/-- The name refers to a new file with all the bytes, which is flushed. -/
structure Replaced (d : Disk Name) (name : Name) (bytes : Bytes) (d' : Disk Name) : Prop where
  placed : ∃ i, d'.entry name = some i ∧ d'.file i = ⟨true, bytes, true⟩
  stale : ∀ v ∈ d'.stale name, v = d.entry name ∨ v ∈ d.stale name
  file : ∀ i < d.next, d'.file i = d.file i

theorem Kept.refl : Kept d name d := ⟨rfl, rfl, fun _ _ => rfl, Nat.le_refl _⟩

/-- What stood under the name before is as it was. -/
theorem leaves_old {v : Option Nat} {r : Option Bytes} (hfile : ∀ i < d.next, d'.file i = d.file i)
    (hv : v = d.entry name ∨ v ∈ d.stale name) (hr : d'.Leaves v r) : d.Crash name r := by
  refine ⟨v, List.mem_cons.mpr hv, leaves_congr (fun i hi => hfile i (d.fresh name i ?_)) hr⟩
  subst hi
  exact hv.imp Eq.symm id

theorem Kept.whole (h : Kept d name d') : Whole d name bytes d' := by
  refine ⟨.inl ?_, ?_⟩
  · rw [Disk.read, Disk.read, h.entry]
    cases hentry : d.entry name with
    | none => rfl
    | some i => rw [Option.map_some, Option.map_some, h.file i (d.fresh name i (.inl hentry))]
  · rintro r ⟨v, hv, hr⟩
    rw [h.entry, h.stale] at hv
    exact .inl (leaves_old h.file (List.mem_cons.mp hv) hr)

theorem Replaced.read (h : Replaced d name bytes d') : d'.read name = some bytes := by
  obtain ⟨i, hentry, hfile⟩ := h.placed
  rw [Disk.read, hentry, Option.map_some, hfile]

theorem Replaced.whole (h : Replaced d name bytes d') : Whole d name bytes d' := by
  obtain ⟨i, hentry, hfile⟩ := h.placed
  refine ⟨.inr h.read, ?_⟩
  · rintro r ⟨v, hv, hr⟩
    rcases List.mem_cons.mp hv with rfl | hv
    · rw [hentry] at hr
      obtain ⟨bytes', rfl, hbytes⟩ := hr
      rw [hfile] at hbytes
      exact .inr (congrArg some (hbytes rfl))
    · exact .inl (leaves_old h.file (h.stale v hv) hr)

/-! ### The steps of a replacement -/

/-- A new file under another name is being written: its bytes, and whether they are flushed. -/
structure Staged (d : Disk Name) (name other : Name) (bytes : Bytes) (flushed : Bool) (d' : Disk Name) : Prop where
  kept : Kept d name d'
  entry : d'.entry other = some d.next
  file : d'.file d.next = ⟨true, bytes, flushed⟩

theorem Staged.append {flushed : Bool} (h : Staged d name other bytes flushed d') (more : Bytes) :
    Staged d name other (bytes ++ more) false (d'.append d.next more) := by
  refine ⟨⟨h.kept.entry, h.kept.stale, ?_, h.kept.next⟩, h.entry, ?_⟩
  · intro i hi
    exact (Function.update_of_ne hi.ne _ _).trans (h.kept.file i hi)
  · refine (Function.update_self _ _ _).trans ?_
    rw [h.file]

theorem Staged.flush {flushed : Bool} (h : Staged d name other bytes flushed d') :
    Staged d name other bytes true (d'.flush d.next) := by
  refine ⟨⟨h.kept.entry, h.kept.stale, ?_, h.kept.next⟩, h.entry, ?_⟩
  · intro i hi
    exact (Function.update_of_ne hi.ne _ _).trans (h.kept.file i hi)
  · refine (Function.update_self _ _ _).trans ?_
    rw [h.file]

theorem Replaced.flushDirectory (h : Replaced d name bytes d') :
    Replaced d name bytes d'.flushDirectory ∧ d'.flushDirectory.Settled name := by
  obtain ⟨i, hentry, hfile⟩ := h.placed
  refine ⟨⟨⟨i, hentry, hfile⟩, by simp [Disk.flushDirectory], h.file⟩, rfl, ?_⟩
  intro j hj
  obtain rfl := Option.some.inj (hentry.symm.trans hj)
  exact congrArg File.flushed hfile

variable [DecidableEq Name]

theorem Kept.create (hne : name ≠ other) : Staged d name other [] false (d.create other) := by
  refine ⟨⟨?_, ?_, ?_, Nat.le_succ _⟩, ?_, ?_⟩
  · exact Function.update_of_ne hne _ _
  · exact Function.update_of_ne hne _ _
  · intro i hi
    exact Function.update_of_ne hi.ne _ _
  · exact Function.update_self _ _ _
  · exact Function.update_self _ _ _

theorem Kept.unlink (h : Kept d name d') (hne : name ≠ other) : Kept d name (d'.unlink other) :=
  ⟨(Function.update_of_ne hne _ _).trans h.entry, (Function.update_of_ne hne _ _).trans h.stale, h.file, h.next⟩

theorem Disk.unlink_entry : (d.unlink name).entry name = none := Function.update_self _ _ _

/-- The rename is the step that replaces. -/
theorem Staged.rename (h : Staged d name other bytes true d') (hne : name ≠ other) :
    Replaced d name bytes (d'.rename other name) ∧ (d'.rename other name).entry other = none := by
  rw [Disk.rename, if_neg hne.symm]
  refine ⟨⟨⟨d.next, ?_, h.file⟩, ?_, h.kept.file⟩, Disk.unlink_entry⟩
  · refine (Function.update_of_ne hne _ _).trans ((Function.update_self _ _ _).trans h.entry)
  · have hstale : ((d'.refer name (d'.entry other) fun i h => d'.fresh other i (.inl h)).unlink other).stale name =
        d'.entry name :: d'.stale name := (Function.update_of_ne hne _ _).trans (Function.update_self _ _ _)
    rw [hstale, h.kept.entry, h.kept.stale]
    exact fun v hv => List.mem_cons.mp hv

theorem Replaced.unlink (h : Replaced d name bytes d') (hne : name ≠ other) : Replaced d name bytes (d'.unlink other) := by
  obtain ⟨i, hentry, hfile⟩ := h.placed
  have hstale : (d'.unlink other).stale name = d'.stale name := Function.update_of_ne hne _ _
  exact ⟨⟨i, (Function.update_of_ne hne _ _).trans hentry, hfile⟩, by rw [hstale]; exact h.stale, h.file⟩

end OmtClient.Lib.Durable
