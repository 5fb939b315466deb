import OmtClient.Common.XmlLex

/-!
# The reader by its offsets

`next_event` of `crates/omt-common/src/xml.rs` once more, by the offsets that it computes: every
index and every slice is checked here and ends in none when it is out of range. `Reader` in `Xml`
holds the bytes that are left instead, and no offset can be wrong there.

1. `nextEventAt_eq`: from every offset of a document the checked reader succeeds and does what
   `nextEvent` does.
2. `reader_tokenizes`: what a loop over `next_event` meets, on every document.
-/

namespace OmtClient.Common.Xml

open OmtClient.Lib

/-! ## The checked reader -/

/-- `&doc[a..b]`, or none out of range. -/
def slice (doc : Bytes) (a b : Nat) : Option Bytes :=
  if a ≤ b ∧ b ≤ doc.length then some ((doc.drop a).take (b - a)) else none

/-- `while i < doc.len() && p(doc[i]) { i += 1 }`. -/
def skipWhile (doc : Bytes) (p : Byte → Bool) (i : Nat) : Option Nat :=
  if i < doc.length then do
    let d ← doc[i]?
    if p d then skipWhile doc p (i + 1) else some i
  else some i
termination_by doc.length - i

/-- `find`: the offset of `terminator` at or after `start`, or the document length. -/
def find (doc : Bytes) (start : Nat) (terminator : Bytes) : Option Nat := do
  let rest ← slice doc start doc.length
  some ((findSub terminator rest).elim doc.length (start + ·))

/-- The loop to the end of a document type declaration. -/
def doctypeScan (doc : Bytes) (brackets : Int) (quote : Byte) (i : Nat) : Option Nat :=
  if i < doc.length then do
    let d ← doc[i]?
    if quote ≠ 0 then doctypeScan doc brackets (if d = quote then 0 else quote) (i + 1)
    else if d = 34 ∨ d = 39 then doctypeScan doc brackets d (i + 1)
    else if d = 91 then doctypeScan doc (brackets + 1) 0 (i + 1)
    else if d = 93 then doctypeScan doc (brackets - 1) 0 (i + 1)
    else if d = 62 ∧ brackets ≤ 0 then some i
    else doctypeScan doc brackets 0 (i + 1)
  else some i
termination_by doc.length - i

/-- The loop to the end of a tag. -/
def tagScan (doc : Bytes) (quote : Byte) (i : Nat) : Option Nat :=
  if i < doc.length then do
    let d ← doc[i]?
    if quote ≠ 0 then tagScan doc (if d = quote then 0 else quote) (i + 1)
    else if d = 34 ∨ d = 39 then tagScan doc d (i + 1)
    else if d = 62 then some i
    else tagScan doc 0 (i + 1)
  else some i
termination_by doc.length - i

/-- What a call of `next_event` returns, with the position and the open elements after it. -/
abbrev Step := Except Status (Event × Nat × List Bytes)

def referenceAt (doc : Bytes) (pos : Nat) (opened : List Bytes) : Option Step := do
  let start := pos + 1
  let i ← skipWhile doc isRefByte start
  if doc.length ≤ i then some (.error .malformed)
  else do
    let d ← doc[i]?
    if d ≠ 59 ∨ i = start then some (.error .malformed)
    else do
      let name ← slice doc start i
      some (.ok (⟨.ref, name, []⟩, i + 1, opened))

def textAt (doc : Bytes) (pos : Nat) (opened : List Bytes) : Option Step := do
  let stop ← skipWhile doc isData pos
  let content ← slice doc pos stop
  some (.ok (⟨.text, [], content⟩, stop, opened))

/-- `inner.starts_with(b"xml") && (inner.len() == 3 || is_space(inner[3]))`. -/
def declAt (inner : Bytes) : Option Bool :=
  if (utf8 "xml").isPrefixOf inner then
    if inner.length = 3 then some true else inner[3]?.map isSpace
  else some false

def instructionAt (doc : Bytes) (pos : Nat) (opened : List Bytes) : Option Step := do
  let body := pos + 2
  let stop ← find doc body [63, 62]
  if doc.length ≤ stop then some (.error .malformed)
  else do
    let inner ← slice doc body stop
    let decl ← declAt inner
    some (.ok (⟨if decl then .decl else .pi, [], inner⟩, stop + 2, opened))

def delimitedAt (kind : EventKind) (opening closing doc : Bytes) (pos : Nat) (opened : List Bytes) : Option Step := do
  let body := pos + opening.length
  let stop ← find doc body closing
  if doc.length ≤ stop then some (.error .malformed)
  else do
    let content ← slice doc body stop
    some (.ok (⟨kind, [], content⟩, stop + closing.length, opened))

def doctypeAt (doc : Bytes) (pos : Nat) (opened : List Bytes) : Option Step := do
  let i ← doctypeScan doc 0 0 (pos + 9)
  if doc.length ≤ i then some (.error .malformed)
  else do
    let content ← slice doc (pos + 9) i
    some (.ok (⟨.doctype, [], content⟩, i + 1, opened))

/-- `i > name_end && doc[i - 1] == b'/'`. -/
def emptyAt (doc : Bytes) (nameEnd i : Nat) : Option Bool :=
  if nameEnd < i then doc[i - 1]?.map (· == 47) else some false

def tagAt (closing : Bool) (doc : Bytes) (pos : Nat) (opened : List Bytes) : Option Step := do
  let nameStart := pos + if closing then 2 else 1
  let nameEnd ← skipWhile doc isNameByte nameStart
  let i ← tagScan doc 0 nameEnd
  if doc.length ≤ i then some (.error .malformed)
  else do
    let name ← slice doc nameStart nameEnd
    if name = [] then some (.error .malformed)
    else if closing then do
      let inner ← slice doc nameEnd i
      if !inner.all isSpace || opened.head? != some name then some (.error .malformed)
      else some (.ok (⟨.close, name, []⟩, i + 1, opened.drop 1))
    else do
      let empty ← emptyAt doc nameEnd i
      let content ← slice doc nameEnd (if empty then i - 1 else i)
      if empty then some (.ok (⟨.empty, name, content⟩, i + 1, opened))
      else if stack ≤ opened.length then some (.error .unsupported)
      else some (.ok (⟨.start, name, content⟩, i + 1, name :: opened))

/-- `rest.len() >= 9 && rest[..9].eq_ignore_ascii_case(b"<!DOCTYPE")`. -/
def declaresAt (rest : Bytes) : Option Bool :=
  if 9 ≤ rest.length then (slice rest 0 9).map (eqIgnoreAsciiCase · (utf8 "<!DOCTYPE")) else some false

/-- `next_event`, or none where an index or a slice is out of range. -/
def nextEventAt (doc : Bytes) (pos : Nat) (opened : List Bytes) : Option Step :=
  match doc[pos]? with
  | none => some (.ok (⟨.eof, [], []⟩, pos, opened))
  | some c =>
    if c = 38 then referenceAt doc pos opened
    else if c ≠ 60 then textAt doc pos opened
    else do
      let rest ← slice doc pos doc.length
      if (utf8 "<?").isPrefixOf rest then instructionAt doc pos opened
      else if (utf8 "<!--").isPrefixOf rest then delimitedAt .comment (utf8 "<!--") (utf8 "-->") doc pos opened
      else if (utf8 "<![CDATA[").isPrefixOf rest then delimitedAt .cdata (utf8 "<![CDATA[") (utf8 "]]>") doc pos opened
      else do
        let declares ← declaresAt rest
        if declares then doctypeAt doc pos opened
        else if (utf8 "<!").isPrefixOf rest then some (.error .malformed)
        else tagAt ((utf8 "</").isPrefixOf rest) doc pos opened

namespace IndexLemmas

open XmlLemmas

variable {front s : Bytes} {opened : List Bytes}

/-! ## Slices and scans -/

theorem slice_middle (a b c : Bytes) : slice (a ++ (b ++ c)) a.length (a.length + b.length) = some b := by
  have hin : a.length ≤ a.length + b.length ∧ a.length + b.length ≤ (a ++ (b ++ c)).length := by
    rw [List.length_append, List.length_append]
    omega
  rw [slice, if_pos hin, List.drop_left, Nat.add_sub_cancel_left, List.take_left]

theorem slice_rest (a b : Bytes) : slice (a ++ b) a.length (a ++ b).length = some b := by
  have hmiddle := slice_middle a b []
  rw [List.append_nil] at hmiddle
  rw [List.length_append]
  exact hmiddle

theorem getElem?_here (front : Bytes) (c : Byte) (s : Bytes) : (front ++ c :: s)[front.length]? = some c := by
  rw [List.getElem?_append_right (Nat.le_refl _), Nat.sub_self]
  rfl

theorem getElem?_end (front : Bytes) : (front ++ [])[front.length]? = none := by
  rw [List.append_nil]
  exact List.getElem?_eq_none (Nat.le_refl _)

/-- A byte further. -/
theorem append_cons (front : Bytes) (c : Byte) (s : Bytes) :
    front ++ c :: s = (front ++ [c]) ++ s ∧ front.length + 1 = (front ++ [c]).length := by
  constructor
  · rw [List.append_assoc]
    rfl
  · rw [List.length_append]
    rfl

theorem lt_here (front : Bytes) (c : Byte) (s : Bytes) : front.length < (front ++ c :: s).length := by
  rw [List.length_append, List.length_cons]
  omega

theorem not_lt_end (front : Bytes) : ¬ front.length < (front ++ []).length := by
  rw [List.append_nil]
  exact Nat.lt_irrefl _

theorem skipWhile_eq (p : Byte → Bool) (front s : Bytes) :
    skipWhile (front ++ s) p front.length = some (front.length + (s.takeWhile p).length) := by
  induction s generalizing front with
  | nil =>
    rw [skipWhile, if_neg (not_lt_end front)]
    rfl
  | cons c s ih =>
    rw [skipWhile, if_pos (lt_here front c s), getElem?_here]
    show (if p c then skipWhile (front ++ c :: s) p (front.length + 1) else some front.length) = _
    by_cases hc : p c = true
    · obtain ⟨hdoc, hpos⟩ := append_cons front c s
      rw [if_pos hc, List.takeWhile_cons_of_pos hc, hpos, hdoc, ih (front ++ [c]), ← hpos, List.length_cons,
        Nat.add_assoc, Nat.add_comm 1]
    · rw [if_neg hc, List.takeWhile_cons_of_neg hc]
      rfl

theorem find_eq (terminator front s : Bytes) : find (front ++ s) front.length terminator =
    some ((findSub terminator s).elim (front ++ s).length (front.length + ·)) := by
  unfold find
  rw [slice_rest]
  rfl

/-- Where a scan stops: in front of its end, or at the end of the document. -/
def stopAt (front s : Bytes) (found : Option (Bytes × Bytes)) : Nat :=
  found.elim (front ++ s).length fun p => front.length + p.1.length

theorem stopAt_push (front : Bytes) (c : Byte) (s : Bytes) (found : Option (Bytes × Bytes)) :
    stopAt (front ++ [c]) s found = stopAt front (c :: s) (found.map (push c)) := by
  obtain ⟨hdoc, hpos⟩ := append_cons front c s
  cases found with
  | none =>
    show (front ++ [c] ++ s).length = (front ++ c :: s).length
    rw [hdoc]
  | some p =>
    show (front ++ [c]).length + p.1.length = front.length + (c :: p.1).length
    rw [← hpos, List.length_cons]
    omega

theorem tagScan_eq (quote : Byte) (front s : Bytes) :
    tagScan (front ++ s) quote front.length = some (stopAt front s (tagEnd quote s)) := by
  induction s generalizing front quote with
  | nil =>
    rw [tagScan, if_neg (not_lt_end front)]
    show some front.length = some (front ++ []).length
    rw [List.append_nil]
  | cons c s ih =>
    have hgo (q : Byte) : tagScan (front ++ c :: s) q (front.length + 1) =
        some (stopAt front (c :: s) ((tagEnd q s).map (push c))) := by
      obtain ⟨hdoc, hpos⟩ := append_cons front c s
      rw [hpos, hdoc, ih q (front ++ [c]), stopAt_push]
    rw [tagScan, if_pos (lt_here front c s), getElem?_here, tagEnd]
    dsimp only [Option.bind_eq_bind, Option.bind_some]
    rw [hgo, hgo, hgo]
    split
    · rfl
    · split
      · rfl
      · split
        · rfl
        · rfl

theorem doctypeScan_eq (brackets : Int) (quote : Byte) (front s : Bytes) :
    doctypeScan (front ++ s) brackets quote front.length = some (stopAt front s (doctypeEnd brackets quote s)) := by
  induction s generalizing front quote brackets with
  | nil =>
    rw [doctypeScan, if_neg (not_lt_end front)]
    show some front.length = some (front ++ []).length
    rw [List.append_nil]
  | cons c s ih =>
    have hgo (b : Int) (q : Byte) : doctypeScan (front ++ c :: s) b q (front.length + 1) =
        some (stopAt front (c :: s) ((doctypeEnd b q s).map (push c))) := by
      obtain ⟨hdoc, hpos⟩ := append_cons front c s
      rw [hpos, hdoc, ih b q (front ++ [c]), stopAt_push]
    rw [doctypeScan, if_pos (lt_here front c s), getElem?_here, doctypeEnd]
    dsimp only [Option.bind_eq_bind, Option.bind_some]
    rw [hgo, hgo, hgo, hgo, hgo]
    split
    · rfl
    · split
      · rfl
      · split
        · rfl
        · split
          · rfl
          · split
            · rfl
            · rfl

/-! ## One event -/

/-- The result of `nextEvent` by offsets. -/
def placed (doc : Bytes) (x : Except Status (Event × Reader)) : Step :=
  x.map fun p => (p.1, doc.length - p.2.rest.length, p.2.opened)

theorem placed_ok {front t rest : Bytes} {doc : Bytes} {ev : Event} {opened : List Bytes}
    (hdoc : doc = front ++ (t ++ rest)) :
    placed doc (.ok (ev, ⟨rest, opened⟩)) = .ok (ev, front.length + t.length, opened) := by
  unfold placed
  refine congrArg Except.ok (Prod.ext rfl (Prod.ext ?_ rfl))
  show doc.length - rest.length = front.length + t.length
  rw [hdoc, List.length_append, List.length_append]
  omega

theorem referenceAt_eq (front s : Bytes) (opened : List Bytes) :
    referenceAt (front ++ 38 :: s) front.length opened = some (placed (front ++ 38 :: s) (reference s opened)) := by
  obtain ⟨hdoc, hpos⟩ := append_cons front 38 s
  obtain ⟨hcut, -, hafter⟩ := takeWhile_cut isRefByte s
  unfold referenceAt reference
  dsimp only [Option.bind_eq_bind]
  rw [hpos, hdoc, skipWhile_eq, Option.bind_some]
  generalize front ++ [38] = front' at *
  generalize s.takeWhile isRefByte = name at *
  generalize s.drop name.length = rest at *
  subst hcut
  cases rest with
  | nil =>
    rw [if_pos (by simp)]
    rfl
  | cons d rest =>
    have hin : ¬ (front' ++ (name ++ d :: rest)).length ≤ front'.length + name.length := by
      simp
    have hat : (front' ++ (name ++ d :: rest))[front'.length + name.length]? = some d := by
      rw [← List.append_assoc, ← List.length_append]
      exact getElem?_here _ d rest
    rw [if_neg hin, hat, Option.bind_some, slice_middle, Option.bind_some]
    by_cases hd : d = 59
    · subst hd
      by_cases hname : name = []
      · subst hname
        rw [if_pos (.inr rfl)]
        rfl
      · have hne : ¬ ((59 : Byte) ≠ 59 ∨ front'.length + name.length = front'.length) := by
          have hlen := List.length_pos_of_ne_nil hname
          rintro (h | h)
          · exact h rfl
          · omega
        rw [if_neg hne]
        show _ = some (placed _ (if name = [] then _ else _))
        rw [if_neg hname, @placed_ok front' (name ++ [59]) rest _ _ opened (by rw [List.append_assoc]; rfl), List.length_append]
        rfl
    · rw [if_pos (.inl hd)]
      split
      · next heq =>
        cases heq
        exact absurd rfl hd
      · rfl

theorem textAt_eq (front s : Bytes) (opened : List Bytes) :
    textAt (front ++ s) front.length opened = some (placed (front ++ s)
      (.ok (⟨.text, [], s.takeWhile isData⟩, ⟨s.drop (s.takeWhile isData).length, opened⟩))) := by
  have hcut := (takeWhile_cut isData s).1
  unfold textAt
  dsimp only [Option.bind_eq_bind]
  rw [skipWhile_eq, Option.bind_some]
  generalize s.takeWhile isData = data at *
  generalize s.drop data.length = rest at *
  subst hcut
  rw [slice_middle, Option.bind_some, @placed_ok front data rest _ _ opened rfl]

/-- A search that ends in the document. -/
theorem find_cases (front s terminator : Bytes) (hne : terminator ≠ []) :
    (findSub terminator s = none ∧ find (front ++ s) front.length terminator = some (front ++ s).length) ∨
    ∃ inner rest, s = inner ++ (terminator ++ rest) ∧ findSub terminator s = some inner.length ∧
      find (front ++ s) front.length terminator = some (front.length + inner.length) ∧
      front.length + inner.length < (front ++ s).length := by
  rw [find_eq]
  cases hfind : findSub terminator s with
  | none => exact .inl ⟨rfl, rfl⟩
  | some k =>
    obtain ⟨hcut, hat⟩ := findSub_cut hfind
    have hk := (findSub_eq_some hfind).2
    have hlen : (s.take k).length = k := List.length_take_of_le (by omega)
    have hpos := List.length_pos_of_ne_nil hne
    refine .inr ⟨s.take k, s.drop (k + terminator.length), hcut, by rw [hlen], ?_, ?_⟩
    · rw [hlen]
      rfl
    · rw [hlen, List.length_append]
      omega

theorem delimitedAt_eq (kind : EventKind) (front opening closing s : Bytes) (opened : List Bytes) (hne : closing ≠ []) :
    delimitedAt kind opening closing (front ++ (opening ++ s)) front.length opened =
      some (placed (front ++ (opening ++ s)) (delimited kind closing s opened)) := by
  have hdoc : front ++ (opening ++ s) = (front ++ opening) ++ s := (List.append_assoc ..).symm
  unfold delimitedAt delimited
  dsimp only [Option.bind_eq_bind]
  rw [hdoc, ← List.length_append]
  generalize front ++ opening = front'
  rcases find_cases front' s closing hne with ⟨hfind, hat⟩ | ⟨inner, rest, rfl, hfind, hat, hin⟩
  · rw [hat, hfind, Option.bind_some, if_pos (Nat.le_refl _)]
    rfl
  · rw [hat, hfind, Option.bind_some, if_neg (Nat.not_le.mpr hin), slice_middle, Option.bind_some]
    dsimp only
    rw [List.take_left, ← List.drop_drop, List.drop_left, List.drop_left,
      @placed_ok front' (inner ++ closing) rest _ _ opened (by rw [List.append_assoc]), List.length_append, Nat.add_assoc]

theorem declAt_eq (inner : Bytes) : declAt inner = some (isDecl inner) := by
  unfold declAt isDecl
  by_cases hxml : (utf8 "xml").isPrefixOf inner = true
  · rw [if_pos hxml, hxml, Bool.true_and]
    have hthree : 3 ≤ inner.length := (List.isPrefixOf_iff_prefix.mp hxml).length_le
    by_cases hlen : inner.length = 3
    · rw [if_pos hlen, hlen]
      rfl
    · -- the fourth byte is there, since it is not the first three alone
      have hin : 3 < inner.length := Nat.lt_of_le_of_ne hthree (Ne.symm hlen)
      rw [if_neg hlen, List.getElem?_eq_getElem hin, List.getD_eq_getElem?_getD, List.getElem?_eq_getElem hin,
        show (inner.length == 3) = false from beq_false_of_ne hlen, Bool.false_or]
      rfl
  · rw [if_neg hxml]
    rw [Bool.not_eq_true] at hxml
    rw [hxml, Bool.false_and]

theorem instructionAt_eq (front s : Bytes) (opened : List Bytes) :
    instructionAt (front ++ 60 :: 63 :: s) front.length opened =
      some (placed (front ++ 60 :: 63 :: s) (instruction s opened)) := by
  have hdoc : front ++ 60 :: 63 :: s = (front ++ [60, 63]) ++ s := by
    rw [List.append_assoc]
    rfl
  have hpos : front.length + 2 = (front ++ [60, 63]).length := by
    rw [List.length_append]
    rfl
  unfold instructionAt instruction
  dsimp only [Option.bind_eq_bind]
  rw [hdoc, hpos]
  generalize front ++ [60, 63] = front'
  rcases find_cases front' s [63, 62] (List.cons_ne_nil _ _) with ⟨hfind, hat⟩ | ⟨inner, rest, rfl, hfind, hat, hin⟩
  · rw [hat, hfind, Option.bind_some, if_pos (Nat.le_refl _)]
    rfl
  · rw [hat, hfind, Option.bind_some, if_neg (Nat.not_le.mpr hin), slice_middle, Option.bind_some]
    dsimp only
    rw [declAt_eq, Option.bind_some, List.take_left, ← List.drop_drop, List.drop_left]
    refine congrArg some ?_
    show _ = placed _ (.ok (_, ⟨rest, opened⟩))
    rw [@placed_ok front' (inner ++ [63, 62]) rest _ _ opened (by rw [List.append_assoc]), List.length_append, Nat.add_assoc]
    rfl

theorem doctypeAt_eq (front mark s : Bytes) (hmark : mark.length = 9) (opened : List Bytes) :
    doctypeAt (front ++ (mark ++ s)) front.length opened = some (placed (front ++ (mark ++ s)) (doctype s opened)) := by
  have hdoc : front ++ (mark ++ s) = (front ++ mark) ++ s := (List.append_assoc ..).symm
  have hpos : front.length + 9 = (front ++ mark).length := by rw [List.length_append, hmark]
  unfold doctypeAt doctype
  dsimp only [Option.bind_eq_bind]
  rw [hdoc, hpos]
  generalize front ++ mark = front'
  rw [doctypeScan_eq, Option.bind_some]
  cases hend : doctypeEnd 0 0 s with
  | none =>
    have hstop : stopAt front' s none = (front' ++ s).length := rfl
    rw [hstop, if_pos (Nat.le_refl _)]
    rfl
  | some found =>
    obtain ⟨content, rest⟩ := found
    obtain ⟨rfl, -⟩ := doctypeEnd_cut hend
    have hstop : stopAt front' (content ++ 62 :: rest) (some (content, rest)) = front'.length + content.length := rfl
    rw [hstop, if_neg (by simp), slice_middle, Option.bind_some]
    rw [@placed_ok front' (content ++ [62]) rest _ _ opened (by rw [List.append_assoc]; rfl), List.length_append]
    rfl

theorem emptyAt_eq (front inner rest : Bytes) : emptyAt (front ++ (inner ++ rest)) front.length (front.length + inner.length) =
    some (decide (inner.getLast? = some 47)) := by
  unfold emptyAt
  rcases List.eq_nil_or_concat inner with rfl | ⟨init, last, rfl⟩
  · rw [if_neg (by simp)]
    rfl
  · rw [List.concat_eq_append]
    have hin : front.length < front.length + (init ++ [last]).length := by simp
    have hat : (front ++ (init ++ [last] ++ rest))[front.length + (init ++ [last]).length - 1]? = some last := by
      rw [List.append_assoc, ← List.append_assoc, List.length_append, List.length_singleton, ← Nat.add_assoc, Nat.add_sub_cancel,
        ← List.length_append]
      exact getElem?_here _ last rest
    rw [if_pos hin, hat, List.getLast?_concat]
    show some (last == 47) = _
    by_cases h : last = 47
    · rw [h]
      rfl
    · rw [beq_false_of_ne h, decide_eq_false (fun heq => h (Option.some.inj heq))]

theorem tagAt_eq (closing : Bool) (front mark s : Bytes) (hmark : mark.length = if closing then 2 else 1)
    (opened : List Bytes) :
    tagAt closing (front ++ (mark ++ s)) front.length opened =
      some (placed (front ++ (mark ++ s)) (tag closing s opened)) := by
  have hdoc : front ++ (mark ++ s) = (front ++ mark) ++ s := (List.append_assoc ..).symm
  have hpos : front.length + (if closing then 2 else 1) = (front ++ mark).length := by rw [List.length_append, hmark]
  have hcut := (takeWhile_cut isNameByte s).1
  unfold tagAt tag
  dsimp only [Option.bind_eq_bind]
  rw [hdoc, hpos]
  generalize front ++ mark = front'
  rw [skipWhile_eq, Option.bind_some]
  generalize s.takeWhile isNameByte = name at *
  generalize s.drop name.length = after at *
  subst hcut
  have hscan : tagScan (front' ++ (name ++ after)) 0 (front'.length + name.length) =
      some (stopAt (front' ++ name) after (tagEnd 0 after)) := by
    rw [← List.append_assoc, ← List.length_append]
    exact tagScan_eq 0 (front' ++ name) after
  rw [hscan, Option.bind_some]
  cases hend : tagEnd 0 after with
  | none =>
    have hstop : stopAt (front' ++ name) after none = (front' ++ (name ++ after)).length := by
      rw [← List.append_assoc]
      rfl
    rw [hstop, if_pos (Nat.le_refl _)]
    rfl
  | some found =>
    obtain ⟨inner, rest⟩ := found
    obtain ⟨rfl, -⟩ := tagEnd_cut hend
    have hstop : stopAt (front' ++ name) (inner ++ 62 :: rest) (some (inner, rest)) =
        (front' ++ name).length + inner.length := rfl
    have hinner : slice (front' ++ (name ++ (inner ++ 62 :: rest))) (front' ++ name).length
        ((front' ++ name).length + inner.length) = some inner := by
      rw [← List.append_assoc]
      exact slice_middle _ inner _
    have hempty : emptyAt (front' ++ (name ++ (inner ++ 62 :: rest))) (front' ++ name).length
        ((front' ++ name).length + inner.length) = some (decide (inner.getLast? = some 47)) := by
      rw [← List.append_assoc]
      exact emptyAt_eq _ inner _
    have hnext (ev : Event) (o : List Bytes) : placed (front' ++ (name ++ (inner ++ 62 :: rest))) (.ok (ev, ⟨rest, o⟩)) =
        .ok (ev, (front' ++ name).length + inner.length + 1, o) := by
      rw [@placed_ok front' (name ++ (inner ++ [62])) rest _ _ o (by simp)]
      refine congrArg Except.ok (Prod.ext rfl (Prod.ext ?_ rfl))
      simp only [List.length_append, List.length_singleton]
      omega
    rw [hstop, if_neg (by simp [Nat.add_assoc]), slice_middle, Option.bind_some, ← List.length_append]
    dsimp only
    by_cases hname : name = []
    · rw [if_pos hname, if_pos hname]
      rfl
    · rw [if_neg hname, if_neg hname]
      cases closing with
      | true =>
        rw [if_pos rfl, if_pos rfl, hinner, Option.bind_some]
        split
        · rfl
        · rw [hnext]
      | false =>
        rw [if_neg Bool.false_ne_true, if_neg Bool.false_ne_true, hempty, Option.bind_some]
        by_cases hlast : inner.getLast? = some 47
        · obtain ⟨init, rfl⟩ := List.getLast?_eq_some_iff.mp hlast
          have hinit : slice (front' ++ (name ++ (init ++ [47] ++ 62 :: rest))) (front' ++ name).length
              ((front' ++ name).length + (init ++ [47]).length - 1) = some init := by
            have hback : (front' ++ name).length + (init ++ [47]).length - 1 = (front' ++ name).length + init.length := by
              rw [@List.length_append _ init, List.length_singleton, ← Nat.add_assoc, Nat.add_sub_cancel]
            rw [hback, ← List.append_assoc, List.append_assoc init]
            exact slice_middle _ init _
          rw [decide_eq_true hlast, if_pos rfl, hinit, Option.bind_some, if_pos rfl, if_pos hlast, hnext,
            List.dropLast_concat]
        · rw [decide_eq_false hlast, if_neg Bool.false_ne_true, hinner, Option.bind_some, if_neg Bool.false_ne_true,
            if_neg hlast]
          split
          · rfl
          · rw [hnext]

theorem length_of_eqIgnoreAsciiCase {a b : Bytes} (h : eqIgnoreAsciiCase a b = true) : a.length = b.length := by
  have hlen := congrArg List.length (beq_iff_eq.mp h)
  rw [List.length_map, List.length_map] at hlen
  exact hlen

theorem declaresAt_eq (rest : Bytes) : declaresAt rest = some (eqIgnoreAsciiCase (rest.take 9) (utf8 "<!DOCTYPE")) := by
  unfold declaresAt slice
  by_cases hlen : 9 ≤ rest.length
  · rw [if_pos hlen, if_pos ⟨Nat.zero_le 9, hlen⟩]
    rfl
  · rw [if_neg hlen]
    refine congrArg some (Bool.eq_false_iff.mpr fun h => ?_).symm
    have hnine := length_of_eqIgnoreAsciiCase h
    have hword : (utf8 "<!DOCTYPE").length = 9 := by decide
    rw [List.length_take, hword] at hnine
    omega

/-- A mark in front of the bytes that are left. -/
theorem prefix_cons {c : Byte} {word mark s : Bytes} (hword : word = c :: mark) :
    word.isPrefixOf (c :: s) = mark.isPrefixOf s := by
  rw [hword]
  show ((c == c) && mark.isPrefixOf s) = mark.isPrefixOf s
  rw [beq_self_eq_true, Bool.true_and]

/-- Markup, by its first bytes. -/
theorem markupAt_eq (front s : Bytes) (opened : List Bytes) :
    nextEventAt (front ++ 60 :: s) front.length opened = some (placed (front ++ 60 :: s) (nextEvent ⟨60 :: s, opened⟩)) := by
  unfold nextEventAt nextEvent
  rw [getElem?_here]
  dsimp only [Option.bind_eq_bind]
  rw [if_neg (by decide), if_neg (by decide), if_neg (by decide), if_neg (by decide), slice_rest, Option.bind_some,
    declaresAt_eq, Option.bind_some, prefix_cons (by decide : utf8 "<?" = 60 :: [63]),
    prefix_cons (by decide : utf8 "<!--" = 60 :: utf8 "!--"),
    prefix_cons (by decide : utf8 "<![CDATA[" = 60 :: utf8 "![CDATA["),
    prefix_cons (by decide : utf8 "<!" = 60 :: [33]), prefix_cons (by decide : utf8 "</" = 60 :: [47])]
  have hcut {mark : Bytes} (h : mark.isPrefixOf s = true) : s = mark ++ s.drop mark.length := by
    obtain ⟨rest, rfl⟩ := List.isPrefixOf_iff_prefix.mp h
    rw [List.drop_left]
  split
  · next hmark =>
    have hs := hcut hmark
    rw [hs]
    exact instructionAt_eq front _ opened
  split
  · next hmark =>
    have hs := hcut hmark
    rw [hs]
    exact delimitedAt_eq .comment front (utf8 "<!--") (utf8 "-->") _ opened (by decide)
  split
  · next hmark =>
    have hs := hcut hmark
    rw [hs]
    exact delimitedAt_eq .cdata front (utf8 "<![CDATA[") (utf8 "]]>") _ opened (by decide)
  split
  · next hmark =>
    have hnine := length_of_eqIgnoreAsciiCase hmark
    have hdoctype := doctypeAt_eq front ((60 :: s).take 9) ((60 :: s).drop 9) hnine opened
    rw [List.take_append_drop] at hdoctype
    exact hdoctype
  split
  · rfl
  by_cases hmark : [47].isPrefixOf s = true
  · have hs := hcut hmark
    rw [if_pos hmark, hmark, hs]
    exact tagAt_eq true front [60, 47] _ rfl opened
  · rw [if_neg hmark, Bool.not_eq_true] at *
    rw [hmark]
    exact tagAt_eq false front [60] s rfl opened

end IndexLemmas

open IndexLemmas

/-- By offsets the reader does what it does on the bytes that are left, and no index and no slice
is out of range. -/
theorem nextEventAt_eq (front s : Bytes) (opened : List Bytes) :
    nextEventAt (front ++ s) front.length opened = some (placed (front ++ s) (nextEvent ⟨s, opened⟩)) := by
  cases s with
  | nil =>
    unfold nextEventAt nextEvent
    rw [getElem?_end]
    refine congrArg some (congrArg Except.ok (Prod.ext rfl (Prod.ext ?_ rfl)))
    show front.length = (front ++ []).length - 0
    rw [List.append_nil, Nat.sub_zero]
  | cons c s =>
    by_cases hmarkup : c = 60
    · rw [hmarkup]
      exact markupAt_eq front s opened
    · unfold nextEventAt nextEvent
      rw [getElem?_here]
      dsimp only
      by_cases href : c = 38
      · rw [if_pos href, if_pos href, href]
        exact referenceAt_eq front s opened
      · rw [if_neg href, if_neg href, if_pos hmarkup, if_pos hmarkup]
        exact textAt_eq front (c :: s) opened

/-! ## Reading a document -/

/-- The part of a document that an event was read from. -/
structure Span where
  start : Nat
  event : Event
  stop : Nat
  deriving DecidableEq, Repr

/-- How a loop over `next_event` ends. -/
inductive Ending
  | eof
  | refused (status : Status)
  | outOfRange
  | turnsUsed
  deriving DecidableEq, Repr

/-- Calls of `next_event` up to the end of the document or an error, in a number of turns. -/
def pull (doc : Bytes) : Nat → Nat → List Bytes → List Span × Ending
  | 0, _, _ => ([], .turnsUsed)
  | n + 1, pos, opened =>
    match nextEventAt doc pos opened with
    | none => ([], .outOfRange)
    | some (.error status) => ([], .refused status)
    | some (.ok (ev, pos', opened')) =>
      if ev.kind = .eof then ([], .eof)
      else (⟨pos, ev, pos'⟩ :: (pull doc n pos' opened').1, (pull doc n pos' opened').2)

/-- What an event does to the names that are open, innermost first: a start tag past the limit and
an end tag of another element are impossible. -/
def nest (opened : List Bytes) (ev : Event) : Option (List Bytes) :=
  match ev.kind with
  | .start => if opened.length < stack then some (ev.name :: opened) else none
  | .close => if opened.head? = some ev.name then some (opened.drop 1) else none
  | _ => some opened

/-- Spans from `start` to `last`, one behind the other, none of them empty. -/
def Tiles : Nat → List Span → Nat → Prop
  | start, [], last => start = last
  | start, s :: spans, last => s.start = start ∧ start < s.stop ∧ Tiles s.stop spans last

/-- What a loop over `next_event` meets from an offset on. -/
structure Tokenizes (doc : Bytes) (pos : Nat) (opened : List Bytes) (run : List Span × Ending) : Prop where
  /-- It ends, and not for an index. -/
  ends : run.2 = .eof ∨ ∃ status, run.2 = .refused status
  /-- It takes no more turns than there are bytes. -/
  turns : run.1.length ≤ doc.length - pos
  /-- The spans are adjacent and cover the bytes up to where it ends. -/
  tiles : ∃ last, last ≤ doc.length ∧ Tiles pos run.1 last ∧ (run.2 = .eof → last = doc.length) ∧
    run.1.flatMap (fun s => (doc.drop s.start).take (s.stop - s.start)) = (doc.drop pos).take (last - pos)
  /-- Ends name the innermost start, and no more than `stack` elements are open. -/
  nested : ((run.1.map Span.event).foldlM nest opened).isSome = true

namespace IndexLemmas

open XmlLemmas

/-- A piece and the names that are open. -/
theorem nest_piece {o o' : List Bytes} {t : Bytes} {ev : Event} (h : Token o t ev o') : nest o ev = some o' := by
  cases h with
  | @instruction _ inner _ =>
    unfold nest
    cases isDecl inner with
    | true => rfl
    | false => rfl
  | close _ _ => exact if_pos rfl
  | start _ _ _ hroom => exact if_pos hroom
  | _ => rfl

/-- One call: the end, an error, or an event for a piece of the document. -/
theorem nextEventAt_cases (front s : Bytes) (opened : List Bytes) :
    (s = [] ∧ nextEventAt (front ++ s) front.length opened = some (.ok (⟨.eof, [], []⟩, front.length, opened))) ∨
    (∃ status, nextEventAt (front ++ s) front.length opened = some (.error status)) ∨
    ∃ t rest ev opened', s = t ++ rest ∧ t ≠ [] ∧ ev.kind ≠ .eof ∧ nest opened ev = some opened' ∧
      nextEventAt (front ++ s) front.length opened = some (.ok (ev, (front ++ t).length, opened')) := by
  rw [nextEventAt_eq]
  cases hread : nextEvent ⟨s, opened⟩ with
  | error status => exact .inr (.inl ⟨status, rfl⟩)
  | ok found =>
    obtain ⟨ev, rest, opened'⟩ := found
    rcases nextEvent_cases hread with ⟨hnil, rfl, heq⟩ | ⟨t, hne, _, _, rfl, hs, heq⟩ | ⟨t, htoken, hs⟩
    · cases heq
      subst hnil
      refine .inl ⟨rfl, ?_⟩
      refine congrArg some (congrArg Except.ok (Prod.ext rfl (Prod.ext ?_ rfl)))
      show (front ++ []).length - 0 = front.length
      rw [List.append_nil, Nat.sub_zero]
    · dsimp only at hs heq
      subst hs
      subst heq
      refine .inr (.inr ⟨t, rest, ⟨.text, [], t⟩, opened', rfl, hne, (by rintro ⟨⟩), rfl, ?_⟩)
      rw [@placed_ok front t rest _ _ _ rfl, List.length_append]
    · dsimp only at hs
      subst hs
      refine .inr (.inr ⟨t, rest, ev, opened', rfl, piece_ne_nil (.token htoken), (token_kind htoken).1,
        nest_piece htoken, ?_⟩)
      rw [@placed_ok front t rest _ _ _ rfl, List.length_append]

theorem tiles_le {start last : Nat} {spans : List Span} (h : Tiles start spans last) : start ≤ last := by
  induction spans generalizing start with
  | nil => exact Nat.le_of_eq h
  | cons s spans ih => exact Nat.le_trans (Nat.le_of_lt h.2.1) (ih h.2.2)

/-- By the turns that are left, which are more than the bytes. -/
theorem pull_tokenizes (n : Nat) : ∀ front s opened, s.length < n →
    Tokenizes (front ++ s) front.length opened (pull (front ++ s) n front.length opened) := by
  induction n with
  | zero => exact fun front s opened hn => absurd hn (Nat.not_lt_zero _)
  | succ n ih =>
    intro front s opened hn
    have hempty : front.length ≤ (front ++ s).length ∧ front.length = front.length ∧
        ([] : List Span).flatMap (fun s' => ((front ++ s).drop s'.start).take (s'.stop - s'.start)) =
          ((front ++ s).drop front.length).take (front.length - front.length) := by
      refine ⟨by rw [List.length_append]; exact Nat.le_add_right _ _, rfl, ?_⟩
      rw [Nat.sub_self, List.take_zero]
      rfl
    obtain ⟨hin, htile, hcover⟩ := hempty
    rcases nextEventAt_cases front s opened with ⟨rfl, heof⟩ | ⟨status, herror⟩ | ⟨t, rest, ev, opened', rfl, hne, hkind, hnest, hok⟩
    · rw [pull, heof]
      dsimp only
      rw [if_pos rfl]
      exact ⟨.inl rfl, Nat.zero_le _, ⟨_, hin, htile, fun _ => by rw [List.append_nil], hcover⟩, rfl⟩
    · rw [pull, herror]
      refine ⟨.inr ⟨status, rfl⟩, Nat.zero_le _, ⟨_, hin, htile, ?_, hcover⟩, rfl⟩
      rintro ⟨⟩
    · have hpos := List.length_pos_of_ne_nil hne
      have hdoc : front ++ (t ++ rest) = (front ++ t) ++ rest := (List.append_assoc ..).symm
      rw [List.length_append] at hn
      obtain ⟨hends, hturns, ⟨last, hlast, htiles, hwhole, hspans⟩, hnested⟩ := ih (front ++ t) rest opened' (by omega)
      rw [← hdoc] at hends hturns hlast htiles hwhole hspans hnested
      rw [pull, hok]
      dsimp only
      rw [if_neg hkind]
      generalize pull (front ++ (t ++ rest)) n (front ++ t).length opened' = run at *
      have hlength : (front ++ t).length = front.length + t.length := List.length_append ..
      have hfits : (front ++ (t ++ rest)).length = front.length + (t.length + rest.length) := by
        rw [List.length_append, List.length_append]
      have hreach := tiles_le htiles
      refine ⟨hends, ?_, ⟨last, hlast, ⟨rfl, by dsimp only; omega, htiles⟩, hwhole, ?_⟩, ?_⟩
      · dsimp only
        rw [List.length_cons]
        omega
      · dsimp only
        rw [List.flatMap_cons, hspans]
        have hstop : (front ++ t).length = front.length + ((front ++ t).length - front.length) := by omega
        have hlong : last - front.length = ((front ++ t).length - front.length) + (last - (front ++ t).length) := by omega
        rw [hlong, List.take_add, List.drop_drop, ← hstop]
      · dsimp only
        rw [List.map_cons, List.foldlM_cons, hnest]
        exact hnested

end IndexLemmas

/-- Every loop over `next_event` ends after finitely many events with the end of the document or
an error, having cut the document into pieces that nest. -/
theorem reader_tokenizes (doc : Bytes) : Tokenizes doc 0 [] (pull doc (doc.length + 1) 0 []) :=
  pull_tokenizes (doc.length + 1) [] doc [] (Nat.lt_succ_self _)

end OmtClient.Common.Xml
