import OmtClient.Lib.Bytes

/-!
# Reading a byte stream item by item

A `Framing` says what the front of a byte string holds: not yet a whole item, an
item and what follows it, or something that is refused. Its laws are what makes
reading a stream in pieces possible: an item and a refusal do not change when
more bytes arrive, and an item takes at least one byte.

`Framing.parse` reads a whole byte string at once. `Framing.Read` is the same
reading as a relation that also names the bytes left over, which is what a
reader that resumes keeps.

Results:
1. `Framing.Read.append`: what was read stays read when bytes arrive.
2. `Framing.Read.parse_eq`: reading on from the left-over bytes completes the
   reading of the whole.
3. `Framing.parse_append`: the items of a beginning are a beginning of the items,
   and a refusal in it is the refusal of the whole.
-/

namespace OmtClient.Lib

universe u v

/-- What the front of a byte string holds. -/
inductive Item (α : Type u) (ε : Type v)
  | more
  | reject (e : ε)
  | item (a : α) (rest : Bytes)

/-- A way of reading items off a byte stream. -/
structure Framing (α : Type u) (ε : Type v) where
  one : Bytes → Item α ε
  shrinks : ∀ {b rest : Bytes} {a : α}, one b = .item a rest → rest.length < b.length
  item_append : ∀ {b rest : Bytes} {a : α} (c : Bytes),
    one b = .item a rest → one (b ++ c) = .item a (rest ++ c)
  reject_append : ∀ {b : Bytes} {e : ε} (c : Bytes), one b = .reject e → one (b ++ c) = .reject e

/-- The items of a whole byte string and what ended it, if something was
refused. -/
structure Parse (α : Type u) (ε : Type v) where
  items : List α
  error : Option ε

namespace Framing

variable {α : Type u} {ε : Type v} (F : Framing α ε)

/-- Reads a whole byte string at once. -/
def parse (b : Bytes) : Parse α ε :=
  match h : F.one b with
  | .more => ⟨[], none⟩
  | .reject e => ⟨[], some e⟩
  | .item a rest =>
    have := F.shrinks h
    ⟨a :: (parse rest).items, (parse rest).error⟩
  termination_by b.length

/-- `F.Read b items rest`: the front of `b` is `items`, and `rest` follows. -/
inductive Read : Bytes → List α → Bytes → Prop
  | nil (b : Bytes) : Read b [] b
  | cons {b rest end_ : Bytes} {a : α} {items : List α} :
      F.one b = .item a rest → Read rest items end_ → Read b (a :: items) end_

variable {F}

theorem parse_more {b : Bytes} (h : F.one b = .more) : F.parse b = ⟨[], none⟩ := by
  rw [parse]
  split
  · rfl
  · next he => exact nomatch h.symm.trans he
  · next he => exact nomatch h.symm.trans he

theorem parse_reject {b : Bytes} {e : ε} (h : F.one b = .reject e) : F.parse b = ⟨[], some e⟩ := by
  rw [parse]
  split
  · next he => exact nomatch h.symm.trans he
  · next he => cases h.symm.trans he; rfl
  · next he => exact nomatch h.symm.trans he

theorem parse_item {b rest : Bytes} {a : α} (h : F.one b = .item a rest) :
    F.parse b = ⟨a :: (F.parse rest).items, (F.parse rest).error⟩ := by
  rw [parse]
  split
  · next he => exact nomatch h.symm.trans he
  · next he => exact nomatch h.symm.trans he
  · next he => cases h.symm.trans he; rfl

theorem Read.append {b rest : Bytes} {items : List α} (h : F.Read b items rest) (c : Bytes) :
    F.Read (b ++ c) items (rest ++ c) := by
  induction h with
  | nil b => exact .nil _
  | cons hone _ ih => exact .cons (F.item_append c hone) ih

theorem Read.snoc {b rest rest' : Bytes} {items : List α} {a : α} (h : F.Read b items rest)
    (hone : F.one rest = .item a rest') : F.Read b (items ++ [a]) rest' := by
  induction h with
  | nil b => exact .cons hone (.nil _)
  | cons hfirst _ ih => exact .cons hfirst (ih hone)

theorem Read.parse_eq {b rest : Bytes} {items : List α} (h : F.Read b items rest) :
    F.parse b = ⟨items ++ (F.parse rest).items, (F.parse rest).error⟩ := by
  induction h with
  | nil b => rfl
  | cons hone _ ih => rw [parse_item hone, ih, List.cons_append]

/-- Every byte string is read up to a point where no item starts. -/
theorem exists_read (b : Bytes) : ∃ items rest, F.Read b items rest ∧
    ∀ a r, F.one rest ≠ .item a r := by
  induction hn : b.length using Nat.strongRecOn generalizing b with
  | _ n ih =>
    cases h : F.one b with
    | more => exact ⟨[], b, .nil b, by simp [h]⟩
    | reject e => exact ⟨[], b, .nil b, by simp [h]⟩
    | item a rest =>
      obtain ⟨items, r, hread, hstop⟩ := ih rest.length (hn ▸ F.shrinks h) rest rfl
      exact ⟨a :: items, r, .cons h hread, hstop⟩

/-- The items of a beginning are a beginning of the items of the whole, and a
refusal met in it ends the whole at the same place. -/
theorem parse_append (b c : Bytes) :
    (F.parse b).items <+: (F.parse (b ++ c)).items ∧
    ((F.parse b).error.isSome → F.parse (b ++ c) = F.parse b) := by
  obtain ⟨items, rest, hread, hstop⟩ := F.exists_read b
  have hb := hread.parse_eq
  have hbc := (hread.append c).parse_eq
  cases h : F.one rest with
  | more =>
    rw [parse_more h, List.append_nil] at hb
    rw [hb, hbc]
    exact ⟨⟨_, rfl⟩, fun he => nomatch he⟩
  | reject e =>
    rw [parse_reject h, List.append_nil] at hb
    rw [parse_reject (F.reject_append c h), List.append_nil] at hbc
    rw [hb, hbc]
    exact ⟨List.prefix_refl _, fun _ => rfl⟩
  | item a r => exact absurd h (hstop a r)

end Framing

end OmtClient.Lib
