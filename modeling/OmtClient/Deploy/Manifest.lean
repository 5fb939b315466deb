import Mathlib.Algebra.Order.BigOperators.Group.List
import Mathlib.Data.List.Infix
import OmtClient.Deploy.Ops

/-!
# The manifest of a deployment

`parse_manifest` of `crates/omt-deploy/src/core.rs`, and `load_manifest` of
`deploy/transaction.sh` with the two path checks before it, which reads the same file on the
appliance.

1. `safe_iff_valid`: both have the same rule for the names of members.
2. `manifest_agrees`: the appliance loads the list that the deployer parsed, unless a line of it
   ends with a carriage return.
-/

namespace OmtClient.Deploy

open OmtClient.Lib OmtClient.Common
open OmtClient.Omt (isAlphanumeric)

/-! ## The deployer -/

def maxManifestMembers : Nat := 128

inductive ManifestError
  | unsupported
  | member
  | missing
  deriving DecidableEq

/-- The loop over the lines after the first. -/
def parseMembers (names : List String) : List String → Except ManifestError (List String)
  | [] => .ok names
  | line :: rest =>
    if names.length = maxManifestMembers ∨ '\x00' ∈ line.toList ∨ validManifestName (utf8 line) = false ∨ line ∈ names then
      .error .member
    else parseMembers (names ++ [line]) rest

def parseManifest (text : String) : Except ManifestError (List String) :=
  if (lines text).head? ≠ some "version=3" then .error .unsupported
  else
    (parseMembers [] (lines text).tail).bind fun names =>
      if "deploy/transaction.sh" ∉ names ∨ "deploy/manifest-v3.txt" ∉ names then .error .missing else .ok names

/-! ## The appliance -/

namespace Transaction

/-- The class of the regular expressions, in the C locale. -/
def isPathByte (b : Byte) : Bool := isAlphanumeric b || (utf8 "._/-").contains b

def safeAbsoluteDirectory (path : Bytes) : Bool :=
  (path != utf8 "/" && (utf8 "/" <+: path && path.drop 1 != [] && (path.drop 1).all isPathByte)) &&
    (!(utf8 "//" <:+: path) && !(utf8 "/./" <:+: path) && !(utf8 "/../" <:+: path)) &&
    (!(utf8 "/." <:+ path) && !(utf8 "/.." <:+ path))

def safeRelativePath (path : Bytes) : Bool :=
  (path != [] && path.length ≤ 240) && (path != [] && path.all isPathByte) &&
    (!(utf8 "/" <+: path) && !(utf8 "/" <:+ path) && !(utf8 "//" <:+: path)) &&
    (path != utf8 "." && path != utf8 "..") && (!(utf8 "./" <+: path) && !(utf8 "../" <+: path)) &&
    (!(utf8 "/./" <:+: path) && !(utf8 "/../" <:+: path)) && (!(utf8 "/." <:+ path) && !(utf8 "/.." <:+ path))

/-- What `read` puts into a variable: NUL bytes are dropped. -/
def value (line : Bytes) : Bytes := line.filter (· != 0)

/-- The first line of a file, which need not end. -/
def firstLine (file : Bytes) : Bytes := value ((splitOnce 10 file).elim file Prod.fst)

/-- `tail -n +2`. -/
def fromSecondLine (file : Bytes) : Bytes := (splitOnce 10 file).elim [] Prod.snd

/-- What a `read` loop goes over: every line that ends, and what is left when it is not empty. -/
def readLines (file : Bytes) : List Bytes :=
  let pieces := (file.splitOn 10).map value
  let last := pieces.getLastD []
  pieces.dropLast ++ if last = [] then [] else [last]

inductive Refusal
  | large
  | version
  | emptyPath
  | unsafePath (line : Bytes)
  | duplicate (line : Bytes)
  | many
  | empty
  deriving DecidableEq

def Refusal.text : Refusal → Bytes
  | .large => utf8 "deployment manifest exceeds 32768 bytes"
  | .version => utf8 "deployment manifest must begin with version=3"
  | .emptyPath => utf8 "deployment manifest contains an empty path"
  | .unsafePath line => utf8 "unsafe deployment artifact path: " ++ line
  | .duplicate line => utf8 "duplicate deployment artifact path: " ++ line
  | .many => utf8 "deployment manifest has too many entries"
  | .empty => utf8 "deployment manifest is empty"

/-- The body of the loop. -/
def addMember (names : List Bytes) (line : Bytes) : Except Refusal (List Bytes) :=
  if line = [] then .error .emptyPath
  else if safeRelativePath line = false then .error (.unsafePath line)
  else if line ∈ names then .error (.duplicate line)
  else if 128 < (names ++ [line]).length then .error .many
  else .ok (names ++ [line])

/-- `load_manifest`, of a regular file. -/
def loadManifest (file : Bytes) : Except Refusal (List Bytes) :=
  if 32768 < file.length then .error .large
  else if firstLine file ≠ utf8 "version=3" then .error .version
  else
    ((readLines (fromSecondLine file)).foldlM addMember []).bind fun names =>
      if names = [] then .error .empty else .ok names

end Transaction

open Transaction

namespace ManifestLemmas

variable {l p v : Bytes} {c : Byte} {names out rest : List String} {text : String}

/-! ## Names -/

/-- A piece stands alone, at the front, at the end or between two separators. -/
theorem piece_places (h : p ∈ l.splitOn c) : l = p ∨ (p ++ [c]) <+: l ∨ (c :: p) <:+ l ∨ (c :: (p ++ [c])) <:+: l := by
  induction hlen : l.length using Nat.strongRecOn generalizing l with
  | ind n ih =>
    cases hcut : splitOnce c l with
    | none =>
      rw [List.splitOn_eq_singleton (splitOnce_eq_none.mp hcut)] at h
      exact .inl (List.mem_singleton.mp h).symm
    | some q =>
      obtain ⟨hl, hfree⟩ := splitOnce_eq_some.mp hcut
      rw [hl, List.splitOn_append_cons_self_of_not_mem hfree] at h
      have hrest : q.2.length < n := by
        rw [← hlen, hl, List.length_append, List.length_cons]
        omega
      rcases List.mem_cons.mp h with rfl | h
      · refine .inr (.inl ⟨q.2, ?_⟩)
        rw [List.append_assoc, hl]
        rfl
      · right; right
        rcases ih _ hrest h rfl with hsame | ⟨more, hmore⟩ | ⟨more, hmore⟩ | ⟨front, back, hmore⟩
        · exact .inl ⟨q.1, by rw [hl, hsame]⟩
        · refine .inr ⟨q.1, more, ?_⟩
          rw [hl, ← hmore, List.append_assoc, List.cons_append]
        · refine .inl ⟨q.1 ++ c :: more, ?_⟩
          rw [hl, ← hmore, List.append_assoc]
          rfl
        · refine .inr ⟨q.1 ++ c :: front, back, ?_⟩
          rw [hl, ← hmore]
          simp only [List.append_assoc, List.cons_append]

/-- And what stands there is a piece. -/
theorem piece_of_places (hfree : c ∉ p) (h : l = p ∨ (p ++ [c]) <+: l ∨ (c :: p) <:+ l ∨ (c :: (p ++ [c])) <:+: l) :
    p ∈ l.splitOn c := by
  have halone : p ∈ p.splitOn c := by
    rw [List.splitOn_eq_singleton hfree]
    exact List.mem_singleton_self p
  have hbefore (more : Bytes) : p ∈ (p ++ c :: more).splitOn c := by
    rw [List.splitOn_append_cons_self_of_not_mem hfree]
    exact List.mem_cons_self
  rcases h with rfl | ⟨more, rfl⟩ | ⟨more, rfl⟩ | ⟨front, back, rfl⟩
  · exact halone
  · rw [List.append_assoc]
    exact hbefore more
  · rw [List.splitOn_append_cons_self]
    exact List.mem_append_right _ halone
  · rw [List.append_assoc, List.cons_append, List.splitOn_append_cons_self, List.append_assoc]
    exact List.mem_append_right _ (hbefore back)

theorem findSub_infix : (findSub p l).isSome = true ↔ p <:+: l := by
  constructor
  · intro h
    obtain ⟨k, hk⟩ := Option.isSome_iff_exists.mp h
    obtain ⟨⟨more, hmore⟩, -⟩ := findSub_eq_some hk
    exact ⟨l.take k, more, by rw [List.append_assoc, hmore, List.take_append_drop]⟩
  · rintro ⟨front, back, rfl⟩
    obtain ⟨k, hk⟩ := Option.isSome_iff_exists.mp (findSub_suffix front p)
    rw [findSub_append back hk]
    rfl

theorem piece_iff (hfree : c ∉ p) :
    p ∈ l.splitOn c ↔ l = p ∨ (p ++ [c]) <+: l ∨ (c :: p) <:+ l ∨ (c :: (p ++ [c])) <:+: l :=
  ⟨piece_places, piece_of_places hfree⟩

/-- The rule for a name, as both programs have it. -/
structure Named (v : Bytes) : Prop where
  short : v.length ≤ 240
  bytes : ∀ b ∈ v, isPathByte b = true
  parts : ∀ p ∈ v.splitOn 47, p ≠ [] ∧ p ≠ [46] ∧ p ≠ [46, 46]

theorem slash : utf8 "/" = [47] := by decide
theorem dot : utf8 "." = [46] := by decide
theorem slashes : utf8 "//" = [47, 47] := by decide
theorem dots : utf8 ".." = [46, 46] := by decide
theorem dot_slash : utf8 "./" = [46, 47] := by decide
theorem dots_slash : utf8 "../" = [46, 46, 47] := by decide
theorem slash_dot : utf8 "/." = [47, 46] := by decide
theorem slash_dots : utf8 "/.." = [47, 46, 46] := by decide
theorem slash_dot_slash : utf8 "/./" = [47, 46, 47] := by decide
theorem slash_dots_slash : utf8 "/../" = [47, 46, 46, 47] := by decide

/-- No piece is empty or means a directory. -/
theorem parts_iff (v : Bytes) : (∀ p ∈ v.splitOn 47, p ≠ [] ∧ p ≠ [46] ∧ p ≠ [46, 46]) ↔
    ¬ (v = [] ∨ [47] <+: v ∨ [47] <:+ v ∨ [47, 47] <:+: v) ∧
      ¬ (v = [46] ∨ [46, 47] <+: v ∨ [47, 46] <:+ v ∨ [47, 46, 47] <:+: v) ∧
      ¬ (v = [46, 46] ∨ [46, 46, 47] <+: v ∨ [47, 46, 46] <:+ v ∨ [47, 46, 46, 47] <:+: v) := by
  have hempty := @piece_iff v [] 47 List.not_mem_nil
  have hdot := @piece_iff v [46] 47 (by decide)
  have hdots := @piece_iff v [46, 46] 47 (by decide)
  rw [List.nil_append] at hempty
  constructor
  · intro h
    refine ⟨fun hno => ?_, fun hno => ?_, fun hno => ?_⟩
    · exact (h [] (hempty.mpr hno)).1 rfl
    · exact (h [46] (hdot.mpr hno)).2.1 rfl
    · exact (h [46, 46] (hdots.mpr hno)).2.2 rfl
  · rintro ⟨h, h', h''⟩ p hp
    refine ⟨?_, ?_, ?_⟩
    · rintro rfl
      exact h (hempty.mp hp)
    · rintro rfl
      exact h' (hdot.mp hp)
    · rintro rfl
      exact h'' (hdots.mp hp)

theorem safe_iff : safeRelativePath v = true ↔ Named v := by
  unfold safeRelativePath
  rw [slash, dot, slashes, dots, dot_slash, dots_slash, slash_dot, slash_dots, slash_dot_slash, slash_dots_slash]
  simp only [Bool.and_eq_true, Bool.not_eq_true', decide_eq_false_iff_not, decide_eq_true_iff, bne_iff_ne, List.all_eq_true]
  constructor
  · rintro ⟨⟨⟨⟨⟨⟨⟨hne, hlen⟩, -, hall⟩, ⟨hfirst, hlast⟩, hdouble⟩, hdot, hdots⟩, hdot', hdots'⟩, hin, hin'⟩, hend, hend'⟩
    refine ⟨hlen, hall, (parts_iff v).mpr ⟨?_, ?_, ?_⟩⟩
    · rintro (h | h | h | h)
      · exact hne h
      · exact hfirst h
      · exact hlast h
      · exact hdouble h
    · rintro (h | h | h | h)
      · exact hdot h
      · exact hdot' h
      · exact hend h
      · exact hin h
    · rintro (h | h | h | h)
      · exact hdots h
      · exact hdots' h
      · exact hend' h
      · exact hin' h
  · rintro ⟨hlen, hall, hparts⟩
    obtain ⟨hempty, hdot, hdots⟩ := (parts_iff v).mp hparts
    simp only [not_or] at hempty hdot hdots
    exact ⟨⟨⟨⟨⟨⟨⟨hempty.1, hlen⟩, hempty.1, hall⟩, ⟨hempty.2.1, hempty.2.2.1⟩, hempty.2.2.2⟩, hdot.1, hdots.1⟩,
      hdot.2.1, hdots.2.1⟩, hdot.2.2.2, hdots.2.2.2⟩, hdot.2.2.1, hdots.2.2.1⟩

theorem head_iff : v.head? = some c ↔ [c] <+: v := by
  cases v with
  | nil => simp
  | cons x v => simp [List.cons_prefix_cons, eq_comm]

theorem last_iff : v.getLast? = some c ↔ [c] <:+ v := by
  rw [← List.reverse_prefix, List.reverse_singleton, ← head_iff, List.head?_reverse]

theorem pathByte_eq (b : Byte) : (isAlphanumeric b || (utf8 ".-_/").contains b) = isPathByte b := by
  have hmine : utf8 ".-_/" = [46, 45, 95, 47] := by decide
  have htheirs : utf8 "._/-" = [46, 95, 47, 45] := by decide
  have hsame : ([46, 45, 95, 47] : Bytes).contains b = ([46, 95, 47, 45] : Bytes).contains b := by
    rw [Bool.eq_iff_iff, List.contains_iff_mem, List.contains_iff_mem]
    simp only [List.mem_cons, List.not_mem_nil, or_false]
    tauto
  rw [isPathByte, hmine, htheirs, hsame]

theorem valid_iff : validManifestName v = true ↔ Named v := by
  unfold validManifestName
  simp only [pathByte_eq]
  split
  next hno =>
    constructor
    · rintro ⟨⟩
    · rintro ⟨hlen, hall, hparts⟩
      obtain ⟨hempty, -, -⟩ := (parts_iff v).mp hparts
      simp only [not_or] at hempty
      rcases hno with h | h | h | h | h | h
      · exact absurd h hempty.1
      · exact absurd hlen (Nat.not_le_of_lt h)
      · exact absurd ((head_iff).mp h) hempty.2.1
      · exact absurd ((last_iff).mp h) hempty.2.2.1
      · exact absurd (Iff.mp findSub_infix h) hempty.2.2.2
      · rw [List.all_eq_true.mpr hall] at h
        cases h
  next hyes =>
    simp only [not_or, Bool.not_eq_false, List.all_eq_true, Nat.not_lt] at hyes
    simp only [List.all_eq_true, Bool.and_eq_true, bne_iff_ne, and_assoc]
    constructor
    · exact fun h => ⟨hyes.2.1, hyes.2.2.2.2.2, h⟩
    · exact fun h => h.parts

end ManifestLemmas

open ManifestLemmas

/-- The appliance takes just the names that the deployer takes. -/
theorem safe_iff_valid (v : Bytes) : safeRelativePath v = true ↔ validManifestName v = true := (safe_iff).trans (valid_iff).symm

namespace ManifestLemmas

variable {l p v : Bytes} {c : Byte} {names out rest : List String} {text : String}

/-! ## Directories -/

/-- A directory that the deployer takes is one to the appliance. -/
theorem directory_safe {value : String} (h : validRemoteDirectory value = true) : safeAbsoluteDirectory (utf8 value) = true := by
  unfold validRemoteDirectory at h
  simp only [Bool.and_eq_true, decide_eq_true_iff, beq_iff_eq] at h
  obtain ⟨⟨⟨⟨-, -⟩, hhead⟩, -⟩, hname⟩ := h
  obtain ⟨rest, hrest⟩ := (head_iff).mp hhead
  rw [← hrest] at hname ⊢
  obtain ⟨-, hall, hparts⟩ := (valid_iff).mp hname
  have hdrop : ([47] ++ rest : Bytes).drop 1 = rest := rfl
  rw [hdrop] at hall hparts
  have hrestne : rest ≠ [] := fun hnil => ((hparts [] (by rw [hnil]; decide)).1 rfl).elim
  -- Whatever follows the first separator is a text of pieces; one that stands behind it at once starts it.
  have hwhole : ∀ p ∈ ([47] ++ rest : Bytes).splitOn 47, p = [] ∨ (p ≠ [] ∧ p ≠ [46] ∧ p ≠ [46, 46]) := by
    intro p hp
    rw [show ([47] ++ rest : Bytes) = [] ++ 47 :: rest from rfl, List.splitOn_append_cons_self_of_not_mem List.not_mem_nil] at hp
    rcases List.mem_cons.mp hp with rfl | hp
    · exact .inl rfl
    · exact .inr (hparts p hp)
  have hdot : ([46] : Bytes) ∉ ([47] ++ rest : Bytes).splitOn 47 := fun hp => by
    rcases hwhole _ hp with h | h
    · cases h
    · exact h.2.1 rfl
  have hdots : ([46, 46] : Bytes) ∉ ([47] ++ rest : Bytes).splitOn 47 := fun hp => by
    rcases hwhole _ hp with h | h
    · cases h
    · exact h.2.2 rfl
  rw [piece_iff (by decide)] at hdot hdots
  simp only [not_or] at hdot hdots
  have hdouble : ¬ ([47, 47] : Bytes) <:+: [47] ++ rest := by
    obtain ⟨hempty, -, -⟩ := (parts_iff rest).mp hparts
    rintro ⟨front, back, hsame⟩
    cases front with
    | nil =>
      refine hempty (.inr (.inl ⟨back, ?_⟩))
      exact (List.cons.inj hsame).2
    | cons x front =>
      refine hempty (.inr (.inr (.inr ⟨front, back, ?_⟩)))
      exact (List.cons.inj hsame).2
  unfold safeAbsoluteDirectory
  rw [slash, slashes, slash_dot, slash_dots, slash_dot_slash, slash_dots_slash]
  simp only [Bool.and_eq_true, Bool.not_eq_true', decide_eq_false_iff_not, decide_eq_true_iff, bne_iff_ne, List.all_eq_true,
    hdrop]
  refine ⟨⟨⟨?_, ⟨⟨rest, rfl⟩, hrestne⟩, hall⟩, ⟨hdouble, hdot.2.2.2⟩, hdots.2.2.2⟩, hdot.2.2.1, hdots.2.2.1⟩
  exact fun hsame => hrestne (List.cons.inj hsame).2

/-! ## Lines -/

theorem splitOn_free {α : Type} [DecidableEq α] {x : α} {front back : List α} (h : x ∉ front) :
    (front ++ back).splitOn x = (back.splitOn x).modifyHead (front ++ ·) := by
  induction front with
  | nil => cases hback : back.splitOn x with | nil => simp [hback] | cons y ys => simp [hback]
  | cons y front ih =>
    rw [List.mem_cons, not_or] at h
    have hne : (y == x) = false := beq_eq_false_iff_ne.mpr (Ne.symm h.1)
    rw [List.cons_append, List.splitOn_cons_eq_if_modifyHead, hne, ih h.2, if_neg Bool.false_ne_true, List.modifyHead_modifyHead]
    rfl

theorem splitOn_encode {x : Char} (hx : x.toNat < 128) (cs : List Char) :
    (cs.flatMap encode).splitOn (UInt8.ofNat x.toNat) = (cs.splitOn x).map (·.flatMap encode) := by
  have hbyte : encode x = [UInt8.ofNat x.toNat] := by
    rcases encode_cases x with ⟨-, h⟩ | ⟨h, -⟩
    · exact h
    · exact absurd hx (Nat.not_lt_of_le h)
  induction cs with
  | nil => rfl
  | cons y cs ih =>
    rw [List.flatMap_cons, List.splitOn_cons_eq_if_modifyHead]
    by_cases hy : y = x
    · rw [hy, hbyte, List.singleton_append, List.splitOn_cons_eq_if_modifyHead, ih]
      simp
    · have hfree : UInt8.ofNat x.toNat ∉ encode y := by
        rcases encode_cases y with ⟨hlow, h⟩ | ⟨-, h⟩
        · rw [h, List.mem_singleton]
          intro hsame
          have hnat := congrArg UInt8.toNat hsame
          rw [UInt8.toNat_ofNat_of_lt' (show x.toNat < 256 by omega), UInt8.toNat_ofNat_of_lt' (show y.toNat < 256 by omega)] at hnat
          exact hy (Char.toNat_inj.mp hnat.symm)
        · intro hmem
          have hle := UInt8.le_iff_toNat_le.mp (h _ hmem)
          rw [UInt8.toNat_ofNat_of_lt' (show x.toNat < 256 by omega)] at hle
          exact absurd hx (Nat.not_lt_of_le hle)
      rw [splitOn_free hfree, ih, if_neg (by simpa using hy)]
      cases cs.splitOn x with
      | nil => rfl
      | cons first others => simp

/-- What one line of a text becomes. -/
def ended (l : List Char) : List Char := if l.getLast? = some '\r' then l.dropLast else l

theorem ended_eq {l : List Char} (h : '\r' ∉ l) : ended l = l :=
  if_neg fun hlast => h (List.mem_of_getLast? hlast)

/-- A text with more than one line: its first line, those between and what is left. -/
theorem lines_cut {first last : List Char} {mid : List (List Char)} (h : text.toList.splitOn '\n' = first :: (mid ++ [last])) :
    lines text = String.ofList (ended first) :: (mid.map ended ++ if last = [] then [] else [last]).map String.ofList := by
  have hdrop : (first :: (mid ++ [last])).dropLast = first :: mid := by
    rw [← List.cons_append, List.dropLast_concat]
  have hlast : (first :: (mid ++ [last])).getLastD [] = last := by
    rw [← List.cons_append, List.getLastD_concat]
  unfold lines
  rw [h]
  show (((first :: (mid ++ [last])).dropLast.map ended ++ if (first :: (mid ++ [last])).getLastD [] = [] then [] else
    [(first :: (mid ++ [last])).getLastD []]).map String.ofList) = _
  rw [hdrop, hlast]
  rfl

theorem lines_one {first : List Char} (h : text.toList.splitOn '\n' = [first]) :
    lines text = (if first = [] then [] else [first]).map String.ofList := by
  unfold lines
  rw [h]
  rfl

theorem pieces_cases (text : String) : (∃ first, text.toList.splitOn '\n' = [first]) ∨
    ∃ first mid last, text.toList.splitOn '\n' = first :: (mid ++ [last]) := by
  cases h : text.toList.splitOn '\n' with
  | nil => exact absurd h (List.splitOn_ne_nil _ _)
  | cons first rest =>
    rcases List.eq_nil_or_concat rest with rfl | ⟨mid, last, rfl⟩
    · exact .inl ⟨first, rfl⟩
    · exact .inr ⟨first, mid, last, by rw [List.concat_eq_append]⟩

theorem bytes_cut {first last : List Char} {mid : List (List Char)} (h : text.toList.splitOn '\n' = first :: (mid ++ [last])) :
    (utf8 text).splitOn 10 = first.flatMap encode :: (mid.map (·.flatMap encode) ++ [last.flatMap encode]) := by
  have hsplit := @splitOn_encode '\n' (by decide) text.toList
  rw [utf8_eq]
  refine hsplit.trans ?_
  rw [h, List.map_cons, List.map_append]
  rfl

/-- The bytes of a text with more than one line, as the appliance reads them. -/
theorem file_cut {first last : List Char} {mid : List (List Char)} (h : text.toList.splitOn '\n' = first :: (mid ++ [last])) :
    firstLine (utf8 text) = value (first.flatMap encode) ∧
      readLines (fromSecondLine (utf8 text)) =
        (mid.map fun l => value (l.flatMap encode)) ++
          if value (last.flatMap encode) = [] then [] else [value (last.flatMap encode)] := by
  have hbytes := bytes_cut h
  cases hcut : splitOnce 10 (utf8 text) with
  | none =>
    rw [List.splitOn_eq_singleton (splitOnce_eq_none.mp hcut)] at hbytes
    have hlen := congrArg List.length hbytes
    simp at hlen
  | some q =>
    obtain ⟨hl, hfree⟩ := splitOnce_eq_some.mp hcut
    rw [hl, List.splitOn_append_cons_self_of_not_mem hfree] at hbytes
    obtain ⟨hfirst, hrest⟩ := List.cons.inj hbytes
    unfold firstLine fromSecondLine
    rw [hcut, Option.elim_some, Option.elim_some, hfirst]
    refine ⟨rfl, ?_⟩
    unfold readLines
    rw [hrest, List.map_append, List.map_map]
    dsimp only
    rw [List.map_singleton, List.dropLast_concat, List.getLastD_concat]
    rfl

/-! ## Members -/

/-- What a run over the lines says of them. -/
theorem parseMembers_ok (hlen : names.length ≤ 128) (h : parseMembers names rest = .ok out) :
    out = names ++ rest ∧ out.length ≤ 128 ∧ (∀ line ∈ rest, validManifestName (utf8 line) = true) ∧
      (rest.map utf8).foldlM addMember (names.map utf8) = .ok (out.map utf8) := by
  induction rest generalizing names with
  | nil =>
    cases h
    refine ⟨(List.append_nil _).symm, hlen, ?_, rfl⟩
    rintro line ⟨⟩
  | cons line rest ih =>
    rw [parseMembers] at h
    split at h
    · cases h
    next hgood =>
      simp only [not_or, Bool.not_eq_false] at hgood
      obtain ⟨hmany, -, hvalid, hnew⟩ := hgood
      have hmax : maxManifestMembers = 128 := rfl
      rw [hmax] at hmany
      have hlen' : (names ++ [line]).length ≤ 128 := by
        rw [List.length_append, List.length_singleton]
        omega
      obtain ⟨hout, houtlen, hall, hfold⟩ := ih hlen' h
      have hsafe := (safe_iff_valid (utf8 line)).mpr hvalid
      have hne : utf8 line ≠ [] := by
        intro hnil
        rw [hnil] at hsafe
        cases hsafe
      have hfresh : utf8 line ∉ names.map utf8 := by
        intro hmem
        obtain ⟨other, hother, hsame⟩ := List.mem_map.mp hmem
        exact hnew (utf8_injective hsame ▸ hother)
      have hstep : addMember (names.map utf8) (utf8 line) = .ok ((names ++ [line]).map utf8) := by
        unfold addMember
        rw [if_neg hne, if_neg (by rw [hsafe]; simp), if_neg hfresh, if_neg ?_, List.map_append]
        · rfl
        · rw [List.length_append, List.length_map, List.length_singleton]
          rw [List.length_append, List.length_singleton] at hlen'
          exact Nat.not_lt_of_le hlen'
      refine ⟨?_, houtlen, ?_, ?_⟩
      · rw [hout, List.append_assoc]
        rfl
      · intro other hother
        rcases List.mem_cons.mp hother with rfl | hother
        · exact hvalid
        · exact hall other hother
      · rw [List.map_cons, List.foldlM_cons, hstep]
        exact hfold

/-- What the appliance loads is safe, line by line. -/
theorem addMembers_safe {ls names out : List Bytes} (h : ls.foldlM addMember names = .ok out) :
    ∀ line ∈ ls, safeRelativePath line = true := by
  induction ls generalizing names with
  | nil => rintro line ⟨⟩
  | cons line ls ih =>
    rw [List.foldlM_cons] at h
    cases hstep : addMember names line with
    | error e =>
      rw [hstep] at h
      cases h
    | ok next =>
      rw [hstep] at h
      have hsafe : safeRelativePath line = true := by
        unfold addMember at hstep
        split at hstep
        · cases hstep
        split at hstep
        · cases hstep
        next hyes => exact Bool.eq_true_of_not_eq_false hyes
      intro other hother
      rcases List.mem_cons.mp hother with rfl | hother
      · exact hsafe
      · exact ih h other hother

/-- Without NUL bytes `read` gives the line itself. -/
theorem value_eq (h : ∀ b ∈ l, b ≠ 0) : value l = l := List.filter_eq_self.mpr fun b hb => bne_iff_ne.mpr (h b hb)

theorem value_valid (h : validManifestName l = true) : value l = l := by
  refine value_eq fun b hb hzero => ?_
  have hpath := ((valid_iff).mp h).bytes b hb
  rw [hzero] at hpath
  revert hpath
  decide

theorem return_stays {cs : List Char} (h : '\r' ∈ cs) : 13 ∈ value (cs.flatMap encode) := by
  refine List.mem_filter.mpr ⟨List.mem_flatMap.mpr ⟨'\r', h, ?_⟩, rfl⟩
  decide

theorem unsafe_return (h : 13 ∈ l) : safeRelativePath l = false := by
  rw [Bool.eq_false_iff]
  intro hsafe
  exact absurd (((safe_iff).mp hsafe).bytes 13 h) (by decide)

theorem length_intercalate (ls : List Bytes) : ([c].intercalate ls).length ≤ (ls.map fun l => l.length + 1).sum := by
  induction ls with
  | nil => exact Nat.le_refl 0
  | cons l ls ih =>
    cases ls with
    | nil => simp [List.intercalate]
    | cons l' ls =>
      rw [List.intercalate_cons_cons, List.length_append, List.length_append, List.map_cons, List.sum_cons, List.length_singleton]
      omega

/-- What the deployer finds in a manifest that it takes. -/
structure Cut (text : String) (names : List String) (first : List Char) (mid : List (List Char)) (last : List Char) : Prop where
  pieces : text.toList.splitOn '\n' = first :: (mid ++ [last])
  version : ended first = "version=3".toList
  names_eq : names = (mid.map ended ++ if last = [] then [] else [last]).map String.ofList
  few : names.length ≤ 128
  valid : ∀ name ∈ names, validManifestName (utf8 name) = true
  fold : (names.map utf8).foldlM addMember [] = .ok (names.map utf8)
  some : names ≠ []

theorem parsed_cut (h : parseManifest text = .ok names) : ∃ first mid last, Cut text names first mid last := by
  unfold parseManifest at h
  split at h
  · cases h
  next hversion =>
  rw [not_not] at hversion
  cases hmembers : parseMembers [] (lines text).tail with
  | error e =>
    rw [hmembers] at h
    cases h
  | ok out =>
    rw [hmembers, Except.bind] at h
    split at h
    · cases h
    next hboth =>
    obtain rfl := Except.ok.inj h
    obtain ⟨hout, hfew, hvalid, hfold⟩ := parseMembers_ok (Nat.zero_le _) hmembers
    rw [List.nil_append] at hout
    rw [not_or, not_not, not_not] at hboth
    rcases pieces_cases text with ⟨first, hone⟩ | ⟨first, mid, last, hcut⟩
    · rw [hout, lines_one hone] at hboth
      have hnone : ((if first = [] then [] else [first]).map String.ofList).tail = [] := by split <;> rfl
      rw [hnone] at hboth
      cases hboth.1
    · have hlines := lines_cut hcut
      rw [hlines] at hversion hout
      refine ⟨first, mid, last, hcut, ?_, hout, hfew, fun name hname => ?_, ?_, ?_⟩
      · have hfirst := congrArg String.toList (Option.some.inj hversion)
        rwa [String.toList_ofList] at hfirst
      · exact hvalid name (hlines ▸ hout ▸ hname)
      · rw [hlines, ← hout] at hfold
        exact hfold
      · rintro rfl
        cases hboth.1

theorem mem_intercalate {α : Type} {x y : α} (ls : List (List α)) (hne : x ≠ y) :
    x ∈ [y].intercalate ls ↔ ∃ l ∈ ls, x ∈ l := by
  induction ls with
  | nil => simp [List.intercalate]
  | cons l ls ih =>
    cases ls with
    | nil => simp [List.intercalate]
    | cons l' ls =>
      rw [List.intercalate_cons_cons, List.mem_append, List.mem_append, List.mem_singleton, ih]
      simp [hne]

/-- Where a character other than the separator stands. -/
theorem mem_pieces {x : Char} (hne : x ≠ '\n') : x ∈ text.toList ↔ ∃ l ∈ text.toList.splitOn '\n', x ∈ l := by
  have hjoin : ['\n'].intercalate (text.toList.splitOn '\n') = text.toList := List.intercalate_splitOn '\n'
  rw [← mem_intercalate _ hne, hjoin]

/-- A carriage return stands in a line, which the appliance refuses. -/
theorem return_refused {first last : List Char} {mid : List (List Char)} (hcut : Cut text names first mid last)
    (hload : loadManifest (utf8 text) = .ok (names.map utf8)) : '\r' ∉ text.toList := by
  obtain ⟨hfirst, hrest⟩ := file_cut hcut.pieces
  unfold loadManifest at hload
  split at hload
  · cases hload
  split at hload
  · cases hload
  next hversion =>
  rw [not_not, hfirst] at hversion
  cases hfold : (readLines (fromSecondLine (utf8 text))).foldlM addMember [] with
  | error e =>
    rw [hfold] at hload
    cases hload
  | ok out =>
    have hsafe := addMembers_safe hfold
    rw [hrest] at hsafe
    intro hreturn
    rw [mem_pieces (by decide), hcut.pieces] at hreturn
    obtain ⟨l, hl, hin⟩ := hreturn
    have hstays := return_stays hin
    rcases List.mem_cons.mp hl with rfl | hl
    · rw [hversion] at hstays
      exact absurd hstays (by decide)
    rcases List.mem_append.mp hl with hl | hl
    · have hyes := hsafe _ (List.mem_append_left _ (List.mem_map_of_mem hl))
      rw [unsafe_return hstays] at hyes
      cases hyes
    · rw [List.mem_singleton] at hl
      subst hl
      have hne : value (l.flatMap encode) ≠ [] := List.ne_nil_of_mem hstays
      have hyes := hsafe (value (l.flatMap encode)) (List.mem_append_right _ (by rw [if_neg hne]; exact List.mem_singleton_self _))
      rw [unsafe_return hstays] at hyes
      cases hyes

/-- Without one the lines are as they stand in the file. -/
theorem lines_stand {first last : List Char} {mid : List (List Char)} (hcut : Cut text names first mid last)
    (hfree : '\r' ∉ text.toList) : first = "version=3".toList ∧
      names = (mid ++ if last = [] then [] else [last]).map String.ofList := by
  rw [mem_pieces (by decide), hcut.pieces] at hfree
  have hends (l : List Char) (hl : l ∈ first :: (mid ++ [last])) : ended l = l := ended_eq fun hin => hfree ⟨l, hl, hin⟩
  have hmid : mid.map ended = mid := by
    refine (List.map_congr_left fun l hl => ?_).trans (List.map_id mid)
    exact hends l (List.mem_cons_of_mem _ (List.mem_append_left _ hl))
  have hversion := hcut.version
  have hnames := hcut.names_eq
  rw [hends first List.mem_cons_self] at hversion
  rw [hmid] at hnames
  exact ⟨hversion, hnames⟩

/-- Without one the appliance reads the lines that the deployer parsed. -/
theorem lines_same {first last : List Char} {mid : List (List Char)} (hcut : Cut text names first mid last)
    (hfree : '\r' ∉ text.toList) : firstLine (utf8 text) = utf8 "version=3" ∧
      readLines (fromSecondLine (utf8 text)) = names.map utf8 := by
  obtain ⟨hfirst, hrest⟩ := file_cut hcut.pieces
  obtain ⟨hversion, hnames⟩ := lines_stand hcut hfree
  have hline (l : List Char) (hl : String.ofList l ∈ names) : value (l.flatMap encode) = utf8 (String.ofList l) := by
    have hbytes : utf8 (String.ofList l) = l.flatMap encode := by rw [utf8_eq, String.toList_ofList]
    rw [← hbytes]
    exact value_valid (hcut.valid _ hl)
  refine ⟨?_, ?_⟩
  · rw [hfirst, hversion, ← utf8_eq]
    decide
  · rw [hrest, hnames, List.map_map, List.map_append]
    congr 1
    · refine List.map_congr_left fun l hl => hline l ?_
      rw [hnames]
      exact List.mem_map_of_mem (List.mem_append_left _ hl)
    · by_cases hlast : last = []
      · rw [hlast]
        rfl
      · have hmem : String.ofList last ∈ names := by
          rw [hnames, if_neg hlast]
          exact List.mem_map_of_mem (List.mem_append_right _ (List.mem_singleton_self _))
        have hvalid := hcut.valid _ hmem
        rw [hline last hmem, if_neg hlast, if_neg]
        · rfl
        · intro hnil
          rw [hnil] at hvalid
          cases hvalid

/-- What the deployer takes is short enough for the appliance. -/
theorem size_ok {first last : List Char} {mid : List (List Char)} (hcut : Cut text names first mid last)
    (hfree : '\r' ∉ text.toList) : (utf8 text).length ≤ 32768 := by
  obtain ⟨hversion, hnames⟩ := lines_stand hcut hfree
  have hshort (l : List Char) (hl : String.ofList l ∈ names) : (l.flatMap encode).length ≤ 240 := by
    have hbytes : utf8 (String.ofList l) = l.flatMap encode := by rw [utf8_eq, String.toList_ofList]
    exact hbytes ▸ ((valid_iff).mp (hcut.valid _ hl)).short
  have hfew := hcut.few
  have hjoin : [10].intercalate ((utf8 text).splitOn 10) = utf8 text := List.intercalate_splitOn 10
  have hsum := @length_intercalate 10 ((utf8 text).splitOn 10)
  rw [hjoin, bytes_cut hcut.pieces, List.map_cons, List.sum_cons, List.map_append, List.sum_append, List.map_map] at hsum
  have hfirst : (first.flatMap encode).length = 9 := by
    rw [hversion]
    decide
  have hmid : (mid.map ((fun l : Bytes => l.length + 1) ∘ (·.flatMap encode))).sum ≤ mid.length * 241 := by
    refine (List.sum_le_card_nsmul _ 241 fun n hn => ?_).trans (by rw [List.length_map]; exact Nat.le_refl _)
    obtain ⟨l, hl, rfl⟩ := List.mem_map.mp hn
    refine Nat.succ_le_succ (hshort l ?_)
    rw [hnames]
    exact List.mem_map_of_mem (List.mem_append_left _ hl)
  rw [hnames, List.length_map, List.length_append] at hfew
  have hlast : (last.flatMap encode).length + 1 ≤ 241 := by
    by_cases hnil : last = []
    · rw [hnil]
      decide
    · refine Nat.succ_le_succ (hshort last ?_)
      rw [hnames, if_neg hnil]
      exact List.mem_map_of_mem (List.mem_append_right _ (List.mem_singleton_self _))
  have hone : ([last.flatMap encode].map fun l : Bytes => l.length + 1).sum = (last.flatMap encode).length + 1 := by simp
  rw [hfirst, hone] at hsum
  omega

end ManifestLemmas

/-- The appliance loads what the deployer parsed, in the same order, just when no line ends with a
carriage return; and it takes every directory that the deployer takes. -/
theorem manifest_agrees {text : String} {names : List String} (h : parseManifest text = .ok names) :
    (loadManifest (utf8 text) = .ok (names.map utf8) ↔ '\r' ∉ text.toList) ∧
      ∀ value, validRemoteDirectory value = true → safeAbsoluteDirectory (utf8 value) = true := by
  refine ⟨?_, fun _ => directory_safe⟩
  obtain ⟨first, mid, last, hcut⟩ := parsed_cut h
  refine ⟨return_refused hcut, fun hfree => ?_⟩
  obtain ⟨hversion, hlines⟩ := lines_same hcut hfree
  have hsize : ¬ 32768 < (utf8 text).length := Nat.not_lt_of_le (size_ok hcut hfree)
  have hsome : names.map utf8 ≠ [] := fun hnil => hcut.some (List.map_eq_nil_iff.mp hnil)
  rw [loadManifest, if_neg hsize, if_neg (not_not.mpr hversion), hlines, hcut.fold]
  exact if_neg hsome

/-- A manifest of two members. -/
def twoMembers : String := "version=3\ndeploy/transaction.sh\ndeploy/manifest-v3.txt\n"

theorem twoMembers_agrees : (loadManifest (utf8 twoMembers) =
    .ok (["deploy/transaction.sh", "deploy/manifest-v3.txt"].map utf8) ↔ '\r' ∉ twoMembers.toList) ∧
      ∀ value, validRemoteDirectory value = true → safeAbsoluteDirectory (utf8 value) = true :=
  manifest_agrees (by decide +kernel)

/-- The same manifest with carriage returns is taken by the deployer and refused by the appliance. -/
theorem returns_refused : ¬ ∀ text names, parseManifest text = .ok names → loadManifest (utf8 text) = .ok (names.map utf8) := by
  intro h
  have hload := h "version=3\r\ndeploy/transaction.sh\r\ndeploy/manifest-v3.txt\r\n"
    ["deploy/transaction.sh", "deploy/manifest-v3.txt"] (by decide +kernel)
  revert hload
  decide +kernel

end OmtClient.Deploy
