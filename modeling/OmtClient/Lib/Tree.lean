import Mathlib.Data.List.AList

/-!
# File trees

The nodes below a directory, each under the list of the names that lead to it, and the changes that programs
make to them one at a time: a directory is made with the ones above it, a file is taken away or put somewhere, a
directory that holds nothing is taken away. A change that the file system refuses is none.

1. `leaf_mkdirs`, `leaf_rmdir`, `leaf_remove`, `leaf_put`: what the changes do to what is no directory. A rename of
   such a thing is the removal here and `put` there (`rename_leaf`).
2. `clear_mkdirs`, `clear_rmdir`, `clear_remove`, `clear_put`: they leave the way to a file as free as it was.
3. `mkdirs_clear`, `remove_clear`, `put_clear`: on a free way none of them is refused.
-/

namespace OmtClient.Lib

variable {N C : Type}

/-- What a name can refer to. -/
inductive Node (C : Type)
  | file (content : C)
  | directory
  | other
  deriving DecidableEq, Repr

abbrev Tree (N C : Type) := AList fun _ : List N => Node C

namespace Tree

/-- The directories above a path, below the root. -/
def above (p : List N) : List (List N) := (List.range (p.length - 1)).map fun k => p.take (k + 1)

section

variable [DecidableEq N]

def isDirectory (t : Tree N C) (p : List N) : Bool :=
  match t.lookup p with
  | some .directory => true
  | _ => false

/-- What is there, when it is no directory. -/
def leaf (t : Tree N C) (p : List N) : Option (Node C) := if t.isDirectory p then none else t.lookup p

def makeDirectory (t : Tree N C) (p : List N) : Tree N C := if (t.lookup p).isSome then t else t.insert p .directory

/-- `mkdir -p`, of a directory with these above it. -/
def mkdirs (t : Tree N C) (ps : List (List N)) : Option (Tree N C) :=
  if ps.all fun p => (t.leaf p).isNone then some (ps.foldl makeDirectory t) else none

/-- `rmdir`. -/
def rmdir (t : Tree N C) (p : List N) : Option (Tree N C) :=
  if t.isDirectory p && !t.keys.any fun q => p.isPrefixOf q && p.length < q.length then some (t.erase p) else none

/-- `rm -f`. -/
def remove (t : Tree N C) (p : List N) : Option (Tree N C) := if t.isDirectory p then none else some (t.erase p)

/-- The end of a rename: the directory above is there, and no directory at the place itself. -/
def put (t : Tree N C) (p : List N) (n : Node C) : Option (Tree N C) :=
  if (p.length ≤ 1 || t.isDirectory p.dropLast) && !t.isDirectory p then some (t.insert p n) else none

/-- What is below a path, with the path itself. -/
def within (t : Tree N C) (p : List N) : List (List N) := t.keys.filter fun q => p.isPrefixOf q

/-- `mv -fT` from one tree to the same place in another. A directory goes with what is below it, and only to where
nothing or an empty directory is. -/
def rename (t u : Tree N C) (p : List N) : Option (Tree N C × Tree N C) :=
  match t.lookup p with
  | none => none
  | some .directory =>
    if (p.length ≤ 1 || u.isDirectory p.dropLast) &&
        ((u.lookup p).isNone || u.isDirectory p && (u.within p).length == 1) then
      some ((t.within p).foldl (fun t q => t.erase q) t,
        (t.within p).foldl (fun u q => (t.lookup q).elim u (u.insert q)) u)
    else none
  | some n => (u.put p n).map fun u => (t.erase p, u)

/-- The way to a file is free: directories above it or nothing, and no directory at its place. -/
structure Clear (t : Tree N C) (p : List N) : Prop where
  way : ∀ q ∈ above p, t.leaf q = none
  place : t.isDirectory p = false

variable {t t' : Tree N C} {p q : List N} {n : Node C}

/-! ## What is no directory -/

theorem isDirectory_iff : t.isDirectory p = true ↔ t.lookup p = some .directory := by
  unfold isDirectory
  split
  next h => simp [h]
  next h => simpa using h

theorem leaf_eq_none : t.leaf p = none ↔ t.lookup p = none ∨ t.lookup p = some .directory := by
  unfold leaf
  split
  next h => simp [(isDirectory_iff).mp h]
  next h => simp [mt (isDirectory_iff).mpr h]

/-- What is not touched. -/
theorem leaf_congr (h : t'.lookup q = t.lookup q) : t'.leaf q = t.leaf q := by
  rw [leaf, leaf, isDirectory, isDirectory, h]

theorem isDirectory_congr (h : t'.lookup q = t.lookup q) : t'.isDirectory q = t.isDirectory q := by
  rw [isDirectory, isDirectory, h]

theorem leaf_makeDirectory : (t.makeDirectory p).leaf q = t.leaf q := by
  unfold makeDirectory
  split
  · rfl
  next hnone =>
    rw [Bool.not_eq_true, Option.isSome_eq_false_iff, Option.isNone_iff_eq_none] at hnone
    rcases eq_or_ne q p with rfl | hne
    · rw [(leaf_eq_none).mpr (.inl hnone), leaf_eq_none]
      exact .inr (AList.lookup_insert _)
    · exact leaf_congr (AList.lookup_insert_ne hne)

theorem leaf_mkdirs {ps : List (List N)} (h : t.mkdirs ps = some t') : t'.leaf q = t.leaf q := by
  unfold mkdirs at h
  split at h
  · cases h
    clear * -
    induction ps generalizing t with
    | nil => rfl
    | cons p ps ih => exact ih.trans leaf_makeDirectory
  · cases h

theorem leaf_erase_ne (h : q ≠ p) : Tree.leaf (t.erase p) q = t.leaf q := leaf_congr (AList.lookup_erase_ne h)

theorem leaf_erase_self : Tree.leaf (t.erase p) p = none := (leaf_eq_none).mpr (.inl (AList.lookup_erase p t))

theorem leaf_rmdir (h : t.rmdir p = some t') : t'.leaf q = t.leaf q := by
  unfold rmdir at h
  split at h
  next hempty =>
    cases h
    rw [Bool.and_eq_true] at hempty
    rcases eq_or_ne q p with rfl | hne
    · rw [leaf_erase_self, leaf, if_pos hempty.1]
    · exact leaf_erase_ne hne
  · cases h

theorem leaf_remove (h : t.remove p = some t') : t'.leaf p = none ∧ ∀ q ≠ p, t'.leaf q = t.leaf q := by
  unfold remove at h
  split at h
  · cases h
  · cases h
    exact ⟨leaf_erase_self, fun _ hne => leaf_erase_ne hne⟩

theorem leaf_of_lookup (h : t.lookup p = some n) (hn : n ≠ .directory) : t.leaf p = some n := by
  rw [leaf, if_neg (mt (isDirectory_iff).mp ?_), h]
  rw [h]
  exact fun heq => hn (Option.some.inj heq)

theorem lookup_put (h : t.put p n = some t') : t'.lookup p = some n ∧ ∀ q ≠ p, t'.lookup q = t.lookup q := by
  unfold put at h
  split at h
  · cases h
    exact ⟨AList.lookup_insert _, fun _ hne => AList.lookup_insert_ne hne⟩
  · cases h

theorem leaf_put (h : t.put p n = some t') (hn : n ≠ .directory) : t'.leaf p = some n ∧ ∀ q ≠ p, t'.leaf q = t.leaf q :=
  ⟨leaf_of_lookup (lookup_put h).1 hn, fun q hq => leaf_congr ((lookup_put h).2 q hq)⟩

theorem rename_leaf {u u' : Tree N C} (h : t.leaf p = some n) (hput : u.put p n = some u') :
    t.rename u p = some (t.erase p, u') := by
  have hlookup : t.lookup p = some n := by
    unfold leaf at h
    split at h
    · cases h
    · exact h
  have hnot : n ≠ .directory := by
    rintro rfl
    rw [leaf, if_pos ((isDirectory_iff).mpr hlookup)] at h
    cases h
  unfold rename
  rw [hlookup]
  cases n with
  | directory => exact absurd rfl hnot
  | file content => exact congrArg (Option.map fun u => (t.erase p, u)) hput
  | other => exact congrArg (Option.map fun u => (t.erase p, u)) hput

/-! ## Free ways -/

omit [DecidableEq N] in
theorem mem_above : q ∈ above p ↔ ∃ k, 0 < k ∧ k < p.length ∧ q = p.take k := by
  rw [above, List.mem_map]
  constructor
  · rintro ⟨k, hk, rfl⟩
    rw [List.mem_range] at hk
    exact ⟨k + 1, Nat.succ_pos k, by omega, rfl⟩
  · rintro ⟨k, hpos, hlt, rfl⟩
    refine ⟨k - 1, List.mem_range.mpr (by omega), ?_⟩
    rw [Nat.sub_add_cancel hpos]

/-- At the end of a free way there is no directory. -/
theorem leaf_of_clear (h : t.Clear p) : t.leaf p = t.lookup p := if_neg (Bool.eq_false_iff.mp h.place)

/-- Where there is still no more than there was, the way stays free. -/
theorem Clear.mono (h : t.Clear p) (habove : ∀ q ∈ above p, t.leaf q = none → t'.leaf q = none)
    (hplace : t'.isDirectory p = true → t.isDirectory p = true) : t'.Clear p := by
  refine ⟨fun q hq => habove q hq (h.way q hq), ?_⟩
  cases hdir : t'.isDirectory p with
  | false => rfl
  | true => exact (hplace hdir).symm.trans h.place

theorem isDirectory_makeDirectory (h : q ≠ p) : (t.makeDirectory p).isDirectory q = t.isDirectory q := by
  unfold makeDirectory
  split
  · rfl
  · exact isDirectory_congr (AList.lookup_insert_ne h)

theorem isDirectory_mkdirs {ps : List (List N)} (h : t.mkdirs ps = some t') (hnot : q ∉ ps) :
    t'.isDirectory q = t.isDirectory q := by
  unfold mkdirs at h
  split at h
  · cases h
    clear * - hnot
    induction ps generalizing t with
    | nil => rfl
    | cons p ps ih =>
      rw [List.mem_cons, not_or] at hnot
      exact (ih hnot.2).trans (isDirectory_makeDirectory hnot.1)
  · cases h

theorem clear_mkdirs {ps : List (List N)} (h : t.mkdirs ps = some t') (hnot : p ∉ ps) (hclear : t.Clear p) : t'.Clear p :=
  hclear.mono (fun _ _ hq => (leaf_mkdirs h).trans hq) fun hdir => (isDirectory_mkdirs h hnot).symm.trans hdir

theorem clear_erase (hclear : t.Clear p) : Tree.Clear (t.erase q) p := by
  refine hclear.mono (fun r _ hr => ?_) fun hdir => ?_
  · rcases eq_or_ne r q with rfl | hne
    · exact leaf_erase_self
    · exact (leaf_erase_ne hne).trans hr
  · rcases eq_or_ne p q with rfl | hne
    · rw [isDirectory_iff, AList.lookup_erase] at hdir
      cases hdir
    · exact (isDirectory_congr (AList.lookup_erase_ne hne)).symm.trans hdir

theorem clear_rmdir (h : t.rmdir q = some t') (hclear : t.Clear p) : t'.Clear p := by
  unfold rmdir at h
  split at h
  · cases h
    exact clear_erase hclear
  · cases h

theorem clear_remove (h : t.remove q = some t') (hclear : t.Clear p) : t'.Clear p := by
  unfold remove at h
  split at h
  · cases h
  · cases h
    exact clear_erase hclear

theorem clear_put (h : t.put q n = some t') (hn : n ≠ .directory) (hapart : q ∉ above p) (hclear : t.Clear p) : t'.Clear p := by
  have hleaf := leaf_put h hn
  refine hclear.mono (fun r hr hnone => ?_) fun hdir => ?_
  · exact (hleaf.2 r (fun heq => hapart (heq ▸ hr))).trans hnone
  · unfold put at h
    split at h
    · cases h
      rcases eq_or_ne p q with rfl | hne
      · rw [isDirectory_iff, AList.lookup_insert] at hdir
        exact absurd (Option.some.inj hdir) hn
      · exact (isDirectory_congr (AList.lookup_insert_ne hne)).symm.trans hdir
    · cases h

theorem mkdirs_clear (hclear : t.Clear p) : ∃ t', t.mkdirs (above p) = some t' := by
  rw [mkdirs, if_pos]
  · exact ⟨_, rfl⟩
  · rw [List.all_eq_true]
    exact fun q hq => Option.isNone_iff_eq_none.mpr (hclear.way q hq)

theorem remove_clear (hclear : t.Clear p) : ∃ t', t.remove p = some t' := by
  rw [remove, hclear.place]
  exact ⟨_, rfl⟩

/-- The directories are there once they are made. -/
theorem isDirectory_of_mkdirs {ps : List (List N)} (h : t.mkdirs ps = some t') (hq : q ∈ ps) : t'.isDirectory q = true := by
  have hleaf := @leaf_mkdirs _ _ _ t t' q ps h
  unfold mkdirs at h
  split at h
  next hall =>
    have hnone := Option.isNone_iff_eq_none.mp (List.all_eq_true.mp hall q hq)
    have hsome : (t'.lookup q).isSome = true := by
      cases h
      clear * - hq
      have hmono : ∀ (ps : List (List N)) (t : Tree N C), (t.lookup q).isSome = true →
          (AList.lookup q (ps.foldl makeDirectory t)).isSome = true := by
        intro ps
        induction ps with
        | nil => exact fun _ h => h
        | cons p ps ih =>
          intro t h
          refine ih _ ?_
          unfold makeDirectory
          split
          · exact h
          · rcases eq_or_ne q p with rfl | hne
            · rw [AList.lookup_insert]
              rfl
            · rwa [AList.lookup_insert_ne hne]
      induction ps generalizing t with
      | nil => cases hq
      | cons p ps ih =>
        rcases List.mem_cons.mp hq with rfl | hin
        · refine hmono ps _ ?_
          unfold makeDirectory
          split
          next hthere => exact hthere
          · rw [AList.lookup_insert]
            rfl
        · exact ih hin
    rcases (leaf_eq_none).mp (hleaf.trans hnone) with hgone | hdir
    · rw [hgone] at hsome
      cases hsome
    · exact (isDirectory_iff).mpr hdir
  · cases h

theorem put_clear (hclear : t.Clear p) (h : p.length ≤ 1 ∨ t.isDirectory p.dropLast = true) (n : Node C) :
    ∃ t', t.put p n = some t' := by
  rw [put, if_pos]
  · exact ⟨_, rfl⟩
  · rw [hclear.place]
    rcases h with hshort | hdir
    · rw [decide_eq_true hshort]
      rfl
    · rw [hdir, Bool.or_true]
      rfl

end

end Tree

end OmtClient.Lib
