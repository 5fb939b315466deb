import OmtClient.Common.Xml
import OmtClient.Lib.Utf8

/-!
# The tokens of a document

`Token` is the grammar of markup: what the reader makes of a piece of markup does not depend
on what follows it. `Lex` says that a piece of a document is a sequence of markup and runs
of character data, where a run may be cut anywhere; it can be taken apart and put together
at every cut. A loop whose step adds up over the pieces of a run sees the events of any such
sequence (`scan_lex`).

1. `nextEvent_token`, `nextEvent_cases`: the reader against the grammar.
2. `scan_lex`, `scan_ok`: loops against sequences.
-/

namespace OmtClient.Common.Xml

open OmtClient.Lib

/-! ## Tokens -/

/-- The name of a tag and what stands behind it, up to the end of the tag. -/
structure TagText (name inner : Bytes) : Prop where
  ne_nil : name ≠ []
  named : ∀ b ∈ name, isNameByte b = true
  ends : ∀ b ∈ inner.head?, isNameByte b = false
  closes : tagEnd 0 (inner ++ [62]) = some (inner, [])

/-- A piece of markup, with the names that are open before it and after it. -/
inductive Token : List Bytes → Bytes → Event → List Bytes → Prop
  | reference {o name} (hne : name ≠ []) (hname : ∀ b ∈ name, isRefByte b = true) :
    Token o (38 :: (name ++ [59])) ⟨.ref, name, []⟩ o
  | instruction {o inner} (hends : findSub [63, 62] (inner ++ [63, 62]) = some inner.length) :
    Token o (60 :: 63 :: (inner ++ [63, 62])) ⟨if isDecl inner then .decl else .pi, [], inner⟩ o
  | comment {o inner} (hends : findSub (utf8 "-->") (inner ++ utf8 "-->") = some inner.length) :
    Token o (60 :: (utf8 "!--" ++ (inner ++ utf8 "-->"))) ⟨.comment, [], inner⟩ o
  | cdata {o inner} (hends : findSub (utf8 "]]>") (inner ++ utf8 "]]>") = some inner.length) :
    Token o (60 :: (utf8 "![CDATA[" ++ (inner ++ utf8 "]]>"))) ⟨.cdata, [], inner⟩ o
  | doctype {o mark content} (hmark : eqIgnoreAsciiCase mark (utf8 "<!DOCTYPE") = true)
    (hends : doctypeEnd 0 0 (content ++ [62]) = some (content, [])) :
    Token o (mark ++ (content ++ [62])) ⟨.doctype, [], content⟩ o
  | close {o name inner} (htag : TagText name inner) (hblank : inner.all isSpace = true) :
    Token (name :: o) (60 :: 47 :: (name ++ (inner ++ [62]))) ⟨.close, name, []⟩ o
  | empty {o name inner} (htag : TagText name (inner ++ [47])) (hfirst : name.head? ≠ some 33 ∧ name.head? ≠ some 63) :
    Token o (60 :: (name ++ (inner ++ [47] ++ [62]))) ⟨.empty, name, inner⟩ o
  | start {o name inner} (htag : TagText name inner) (hfirst : name.head? ≠ some 33 ∧ name.head? ≠ some 63)
    (hlast : inner.getLast? ≠ some 47) (hroom : o.length < stack) :
    Token o (60 :: (name ++ (inner ++ [62]))) ⟨.start, name, inner⟩ (name :: o)

namespace XmlLemmas

variable {o o' : List Bytes} {t inner rest : Bytes}

theorem cut_push {scan : Bytes → Option (Bytes × Bytes)} {d : Byte} {ds content : Bytes}
    (ih : ∀ {tail}, scan ds = some (tail, rest) →
      ds = tail ++ 62 :: rest ∧ ∀ more, scan (tail ++ 62 :: more) = some (tail, more))
    (h : (scan ds).map (push d) = some (content, rest)) :
    ∃ tail, content = d :: tail ∧ ds = tail ++ 62 :: rest ∧
      ∀ more, scan (tail ++ 62 :: more) = some (tail, more) := by
  obtain ⟨⟨tail, r⟩, hd, heq⟩ := Option.map_eq_some_iff.mp h
  cases heq
  exact ⟨tail, rfl, ih hd⟩

/-- Scans for the end of a declaration stop at the same place whatever follows. -/
theorem doctypeEnd_cut {brackets : Int} {quote : Byte} {s content : Bytes}
    (h : doctypeEnd brackets quote s = some (content, rest)) :
    s = content ++ 62 :: rest ∧ ∀ more, doctypeEnd brackets quote (content ++ 62 :: more) = some (content, more) := by
  induction s generalizing brackets quote content with
  | nil => cases h
  | cons d ds ih =>
    have hpush {b : Int} {q : Byte} (h : (doctypeEnd b q ds).map (push d) = some (content, rest)) :=
      cut_push (fun hd => ih hd) h
    rw [doctypeEnd] at h
    split at h
    · next hq =>
      obtain ⟨tail, rfl, rfl, hmore⟩ := hpush h
      exact ⟨rfl, fun more => by rw [List.cons_append, doctypeEnd, if_pos hq, hmore]; rfl⟩
    next hq =>
    split at h
    · next hd =>
      obtain ⟨tail, rfl, rfl, hmore⟩ := hpush h
      exact ⟨rfl, fun more => by rw [List.cons_append, doctypeEnd, if_neg hq, if_pos hd, hmore]; rfl⟩
    next hd =>
    split at h
    · next hopen =>
      obtain ⟨tail, rfl, rfl, hmore⟩ := hpush h
      exact ⟨rfl, fun more => by rw [List.cons_append, doctypeEnd, if_neg hq, if_neg hd, if_pos hopen, hmore]; rfl⟩
    next hopen =>
    split at h
    · next hclose =>
      obtain ⟨tail, rfl, rfl, hmore⟩ := hpush h
      exact ⟨rfl, fun more => by
        rw [List.cons_append, doctypeEnd, if_neg hq, if_neg hd, if_neg hopen, if_pos hclose, hmore]; rfl⟩
    next hclose =>
    split at h
    · next hend =>
      cases h
      exact ⟨by rw [hend.1]; rfl, fun more => by
        rw [List.nil_append, doctypeEnd, if_neg hq, if_neg (by decide), if_neg (by decide), if_neg (by decide),
          if_pos ⟨rfl, hend.2⟩]⟩
    next hend =>
    obtain ⟨tail, rfl, rfl, hmore⟩ := hpush h
    exact ⟨rfl, fun more => by
      rw [List.cons_append, doctypeEnd, if_neg hq, if_neg hd, if_neg hopen, if_neg hclose, if_neg hend, hmore]; rfl⟩

/-- Scans for the end of a tag stop at the same place whatever follows. -/
theorem tagEnd_cut {quote : Byte} {s : Bytes} (h : tagEnd quote s = some (inner, rest)) :
    s = inner ++ 62 :: rest ∧ ∀ more, tagEnd quote (inner ++ 62 :: more) = some (inner, more) := by
  induction s generalizing quote inner with
  | nil => cases h
  | cons d ds ih =>
    have hpush {q : Byte} (h : (tagEnd q ds).map (push d) = some (inner, rest)) := cut_push (fun hd => ih hd) h
    rw [tagEnd] at h
    split at h
    · next hq =>
      obtain ⟨tail, rfl, rfl, hmore⟩ := hpush h
      exact ⟨rfl, fun more => by rw [List.cons_append, tagEnd, if_pos hq, hmore]; rfl⟩
    next hq =>
    split at h
    · next hd =>
      obtain ⟨tail, rfl, rfl, hmore⟩ := hpush h
      exact ⟨rfl, fun more => by rw [List.cons_append, tagEnd, if_neg hq, if_pos hd, hmore]; rfl⟩
    next hd =>
    split at h
    · next hend =>
      cases h
      exact ⟨by rw [hend]; rfl, fun more => by
        rw [List.nil_append, tagEnd, if_neg hq, if_neg (by decide), if_pos rfl]⟩
    next hend =>
    obtain ⟨tail, rfl, rfl, hmore⟩ := hpush h
    exact ⟨rfl, fun more => by
      rw [List.cons_append, tagEnd, if_neg hq, if_neg hd, if_neg hend, hmore]; rfl⟩

/-- A run of bytes and the first byte that is not one of them. -/
theorem takeWhile_run {p : Byte → Bool} {run after : Bytes} (hrun : ∀ b ∈ run, p b = true)
    (hafter : ∀ b ∈ after.head?, p b = false) :
    (run ++ after).takeWhile p = run ∧ (run ++ after).drop run.length = after := by
  refine ⟨?_, List.drop_left⟩
  rw [List.takeWhile_append_of_pos hrun]
  cases after with
  | nil => rw [List.takeWhile_nil, List.append_nil]
  | cons b bs => rw [List.takeWhile_cons_of_neg (by rw [hafter b rfl]; exact Bool.false_ne_true), List.append_nil]

theorem takeWhile_cut (p : Byte → Bool) (s : Bytes) :
    s = s.takeWhile p ++ s.drop (s.takeWhile p).length ∧ (∀ b ∈ s.takeWhile p, p b = true) ∧
      ∀ b ∈ (s.drop (s.takeWhile p).length).head?, p b = false := by
  induction s with
  | nil => exact ⟨rfl, nofun, nofun⟩
  | cons b s ih =>
    by_cases hb : p b = true
    · rw [List.takeWhile_cons_of_pos hb, List.length_cons, List.drop_succ_cons]
      refine ⟨congrArg (b :: ·) ih.1, ?_, ih.2.2⟩
      intro c hc
      rcases List.mem_cons.mp hc with rfl | hc
      · exact hb
      · exact ih.2.1 c hc
    · rw [List.takeWhile_cons_of_neg hb]
      exact ⟨rfl, nofun, fun c hc => by cases hc; exact Bool.eq_false_iff.mpr hb⟩

theorem tagText_read {name inner : Bytes} (h : TagText name inner) (rest : Bytes) :
    (name ++ (inner ++ 62 :: rest)).takeWhile isNameByte = name ∧
      tagEnd 0 ((name ++ (inner ++ 62 :: rest)).drop name.length) = some (inner, rest) := by
  have hends : ∀ b ∈ (inner ++ 62 :: rest).head?, isNameByte b = false := by
    cases inner with
    | nil => exact fun b hb => by cases hb; decide
    | cons c inner => exact h.ends
  obtain ⟨hname, hdrop⟩ := takeWhile_run h.named hends
  exact ⟨hname, by rw [hdrop]; exact (tagEnd_cut h.closes).2 rest⟩

theorem tag_cut {closing : Bool} {s : Bytes} {ev : Event} {r : Reader} (h : tag closing s o = .ok (ev, r)) :
    ∃ name inner, TagText name inner ∧ s = name ++ (inner ++ 62 :: r.rest) ∧ name = s.takeWhile isNameByte := by
  unfold tag at h
  dsimp only at h
  obtain ⟨hs, hnamed, hafter⟩ := takeWhile_cut isNameByte s
  split at h
  · cases h
  next inner rest hend =>
  split at h
  · cases h
  next hne =>
  obtain ⟨hdrop, hcut⟩ := tagEnd_cut hend
  have hrest : r.rest = rest := by
    split at h
    · split at h
      · cases h
      · cases h
        rfl
    · split at h
      · cases h
        rfl
      · split at h
        · cases h
        · cases h
          rfl
  refine ⟨_, inner, ⟨hne, hnamed, ?_, hcut []⟩, by rw [hrest, ← hdrop]; exact hs, rfl⟩
  rw [hdrop] at hafter
  cases inner with
  | nil => exact nofun
  | cons c inner => exact hafter

end XmlLemmas

open XmlLemmas

namespace XmlLemmas

theorem commentOpen : utf8 "!--" = [33, 45, 45] := by decide
theorem commentClose : utf8 "-->" = [45, 45, 62] := by decide
theorem cdataOpen : utf8 "![CDATA[" = [33, 91, 67, 68, 65, 84, 65, 91] := by decide
theorem cdataClose : utf8 "]]>" = [93, 93, 62] := by decide

theorem isPrefixOf_append (p s : Bytes) : p.isPrefixOf (p ++ s) = true :=
  List.isPrefixOf_iff_prefix.mpr (List.prefix_append p s)

theorem isPrefixOf_cons (c : Byte) (s : Bytes) : [c].isPrefixOf (c :: s) = true := isPrefixOf_append [c] s

/-- The opening of a document type declaration, in any case. -/
theorem doctype_mark {mark : Bytes} (h : eqIgnoreAsciiCase mark (utf8 "<!DOCTYPE") = true) :
    mark.length = 9 ∧ ∃ d more, mark = 60 :: 33 :: d :: more ∧ d ≠ 45 ∧ d ≠ 91 := by
  have hmark : (utf8 "<!DOCTYPE").map asciiLower = [60, 33, 100, 111, 99, 116, 121, 112, 101] := by decide
  rw [eqIgnoreAsciiCase, hmark, beq_iff_eq] at h
  have hlen := congrArg List.length h
  rw [List.length_map] at hlen
  match mark, hlen with
  | a :: b :: d :: more, hlen =>
    have hlt : ∀ c : Byte, asciiLower c = 60 → c = 60 := forall_byte (by decide +kernel)
    have hbang : ∀ c : Byte, asciiLower c = 33 → c = 33 := forall_byte (by decide +kernel)
    have hd : ∀ c : Byte, asciiLower c = 100 → c ≠ 45 ∧ c ≠ 91 := forall_byte (by decide +kernel)
    simp only [List.map_cons, List.cons.injEq] at h
    refine ⟨hlen, d, more, ?_, hd d h.2.2.1⟩
    rw [hlt a h.1, hbang b h.2.1]

/-- A section that is found at its end is read up to there. -/
theorem delimited_read {kind : EventKind} {closing inner : Bytes}
    (hends : findSub closing (inner ++ closing) = some inner.length) (rest : Bytes) (o : List Bytes) :
    delimited kind closing (inner ++ (closing ++ rest)) o = .ok (⟨kind, [], inner⟩, ⟨rest, o⟩) := by
  have hfind := findSub_append rest hends
  rw [List.append_assoc] at hfind
  rw [delimited, hfind]
  dsimp only
  rw [List.take_left, List.drop_length_add_append, List.drop_left]

theorem instruction_read {inner : Bytes} (hends : findSub [63, 62] (inner ++ [63, 62]) = some inner.length)
    (rest : Bytes) (o : List Bytes) :
    instruction (inner ++ ([63, 62] ++ rest)) o =
      .ok (⟨if isDecl inner then .decl else .pi, [], inner⟩, ⟨rest, o⟩) := by
  have hfind := findSub_append rest hends
  rw [List.append_assoc] at hfind
  rw [instruction, hfind]
  dsimp only
  rw [List.take_left, List.drop_length_add_append]
  rfl

/-- Markup that is neither an instruction nor a declaration is a tag. -/
theorem nextEvent_tag {s : Bytes} {o : List Bytes} {c : Byte} (hhead : s.head? = some c) (hbang : c ≠ 33)
    (hquery : c ≠ 63) :
    nextEvent ⟨60 :: s, o⟩ = if c = 47 then tag true (s.drop 1) o else tag false s o := by
  obtain ⟨s, rfl⟩ := List.head?_eq_some_iff.mp hhead
  have hno {d : Byte} {p : Bytes} (hd : c ≠ d) : ¬ (d :: p).isPrefixOf (c :: s) = true := by
    rw [List.isPrefixOf_iff_prefix, List.cons_prefix_cons]
    exact fun h => hd h.1.symm
  have hdoctype : ¬ eqIgnoreAsciiCase ((60 :: c :: s).take 9) (utf8 "<!DOCTYPE") = true := by
    have hmark : (utf8 "<!DOCTYPE").map asciiLower = [60, 33, 100, 111, 99, 116, 121, 112, 101] := by decide
    rw [eqIgnoreAsciiCase, hmark, beq_iff_eq]
    intro heq
    have hlower : asciiLower c = 33 := (List.cons.inj (List.cons.inj heq).2).1
    have hall : ∀ c : Byte, asciiLower c = 33 → c = 33 := forall_byte (by decide +kernel)
    exact hbang (hall c hlower)
  rw [nextEvent, commentOpen, cdataOpen]
  dsimp only
  rw [if_neg (by decide), if_neg (by decide), if_neg (hno hquery), if_neg (hno hbang), if_neg (hno hbang),
    if_neg hdoctype, if_neg (hno hbang)]
  by_cases hslash : c = 47
  · rw [if_pos hslash, if_pos (by rw [hslash]; rfl)]
  · rw [if_neg hslash, if_neg (hno hslash)]

theorem tagText_head {name inner : Bytes} (h : TagText name inner) (more : Bytes) :
    ∃ c, (name ++ more).head? = some c ∧ name.head? = some c ∧ c ≠ 47 := by
  cases name with
  | nil => exact absurd rfl h.ne_nil
  | cons c name =>
    refine ⟨c, rfl, rfl, fun heq => ?_⟩
    have := h.named c List.mem_cons_self
    rw [heq] at this
    exact absurd this (by decide)

end XmlLemmas

/-- What the reader makes of a token does not depend on what follows. -/
theorem nextEvent_token {o o' : List Bytes} {t : Bytes} {ev : Event} (h : Token o t ev o') (rest : Bytes) :
    nextEvent ⟨t ++ rest, o⟩ = .ok (ev, ⟨rest, o'⟩) := by
  cases h with
  | reference hne hname =>
    have hends : ∀ b ∈ (59 :: rest : Bytes).head?, isRefByte b = false := fun b hb => by cases hb; decide
    obtain ⟨htake, hdrop⟩ := takeWhile_run hname hends
    rw [List.cons_append, List.append_assoc, List.singleton_append, nextEvent]
    dsimp only
    rw [if_pos rfl, reference, htake, hdrop]
    exact if_neg hne
  | instruction hends =>
    rw [List.cons_append, List.cons_append, List.append_assoc, nextEvent]
    dsimp only
    rw [if_neg (by decide), if_neg (by decide), if_pos (isPrefixOf_cons 63 _)]
    exact instruction_read hends rest o
  | comment hends =>
    rw [List.cons_append, List.append_assoc, List.append_assoc, nextEvent]
    dsimp only
    rw [if_neg (by decide), if_neg (by decide), commentOpen, if_neg (by nofun), if_pos (isPrefixOf_append _ _)]
    exact delimited_read hends rest o
  | cdata hends =>
    rw [List.cons_append, List.append_assoc, List.append_assoc, nextEvent]
    dsimp only
    rw [if_neg (by decide), if_neg (by decide), commentOpen, cdataOpen, if_neg (by nofun), if_neg (by nofun),
      if_pos (isPrefixOf_append _ _)]
    exact delimited_read hends rest o
  | @doctype _ mark content hmark hends =>
    obtain ⟨hlen, d, more, hshape, hdash, hbracket⟩ := doctype_mark hmark
    have htake : (mark ++ (content ++ 62 :: rest)).take 9 = mark := by rw [← hlen, List.take_left]
    have hdrop : (mark ++ (content ++ 62 :: rest)).drop 9 = content ++ 62 :: rest := by rw [← hlen, List.drop_left]
    have hno {c : Byte} {p : Bytes} (hc : d ≠ c) (tail : Bytes) :
        ¬ (33 :: c :: p).isPrefixOf (33 :: d :: tail) = true := by
      rw [List.isPrefixOf_iff_prefix, List.cons_prefix_cons, List.cons_prefix_cons]
      exact fun h => hc h.2.1.symm
    have hread : nextEvent ⟨mark ++ (content ++ 62 :: rest), o⟩ = doctype (content ++ 62 :: rest) o := by
      conv_rhs => rw [← hdrop]
      rw [hshape] at htake ⊢
      rw [nextEvent, commentOpen, cdataOpen]
      dsimp only [List.cons_append]
      rw [if_neg (by decide), if_neg (by decide), if_neg (by nofun), if_neg (hno hdash _), if_neg (hno hbracket _)]
      refine if_pos ?_
      rw [List.cons_append, List.cons_append, List.cons_append] at htake
      rw [htake, ← hshape]
      exact hmark
    rw [List.append_assoc, List.append_assoc, List.singleton_append, hread, doctype, (doctypeEnd_cut hends).2 rest]
  | close htag hblank =>
    obtain ⟨hname, hinner⟩ := tagText_read htag rest
    rw [List.cons_append, nextEvent_tag (c := 47) rfl (by decide) (by decide), if_pos rfl, List.cons_append,
      List.drop_succ_cons, List.drop_zero, List.append_assoc, List.append_assoc, List.singleton_append, tag, hname, hinner]
    dsimp only
    rw [if_neg htag.ne_nil, if_pos rfl, hblank, if_neg (by simp)]
    rfl
  | empty htag hfirst =>
    obtain ⟨hname, hinner⟩ := tagText_read htag rest
    obtain ⟨c, hhead, hc, hslash⟩ := tagText_head htag (_ ++ rest)
    rw [hc] at hfirst
    rw [List.cons_append, List.append_assoc, nextEvent_tag hhead (fun h => hfirst.1 (h ▸ rfl)) (fun h => hfirst.2 (h ▸ rfl)),
      if_neg hslash, List.append_assoc, List.singleton_append, tag, hname, hinner]
    dsimp only
    rw [if_neg htag.ne_nil, if_neg Bool.false_ne_true, if_pos List.getLast?_concat, List.dropLast_concat]
  | start htag hfirst hlast hroom =>
    obtain ⟨hname, hinner⟩ := tagText_read htag rest
    obtain ⟨c, hhead, hc, hslash⟩ := tagText_head htag (_ ++ rest)
    rw [hc] at hfirst
    rw [List.cons_append, List.append_assoc, nextEvent_tag hhead (fun h => hfirst.1 (h ▸ rfl)) (fun h => hfirst.2 (h ▸ rfl)),
      if_neg hslash, List.append_assoc, List.singleton_append, tag, hname, hinner]
    dsimp only
    rw [if_neg htag.ne_nil, if_neg Bool.false_ne_true, if_neg hlast, if_neg (Nat.not_le.mpr hroom)]

/-- The end of the document, a run of character data up to the next markup, or a token. -/
theorem nextEvent_cases {r r' : Reader} {ev : Event} (h : nextEvent r = .ok (ev, r')) :
    (r.rest = [] ∧ ev = ⟨.eof, [], []⟩ ∧ r' = r) ∨
    (∃ t, t ≠ [] ∧ (∀ b ∈ t, isData b = true) ∧ (∀ b ∈ r'.rest.head?, isData b = false) ∧
      ev = ⟨.text, [], t⟩ ∧ r.rest = t ++ r'.rest ∧ r'.opened = r.opened) ∨
    ∃ t, Token r.opened t ev r'.opened ∧ r.rest = t ++ r'.rest := by
  obtain ⟨doc, o⟩ := r
  obtain ⟨rest, o'⟩ := r'
  cases doc with
  | nil =>
    cases h
    exact .inl ⟨rfl, rfl, rfl⟩
  | cons c s =>
    refine .inr ?_
    rw [nextEvent] at h
    dsimp only at h
    split at h
    · next hamp =>
      subst hamp
      refine .inr ?_
      unfold reference at h
      dsimp only at h
      obtain ⟨hs, hname, _⟩ := takeWhile_cut isRefByte s
      split at h
      · next rest hrest =>
        split at h
        · cases h
        · next hne =>
          cases h
          refine ⟨_, .reference hne hname, ?_⟩
          rw [hrest] at hs
          rw [List.cons_append, List.append_assoc, List.singleton_append, ← hs]
      · cases h
    next hamp =>
    split at h
    · next hlt =>
      cases h
      obtain ⟨hcut, hdata, hafter⟩ := takeWhile_cut isData (c :: s)
      refine .inl ⟨_, ?_, hdata, hafter, rfl, hcut, rfl⟩
      rw [List.takeWhile_cons_of_pos (by simp [isData, hlt, hamp])]
      exact List.cons_ne_nil _ _
    next hlt =>
    rw [not_not] at hlt
    subst hlt
    refine .inr ?_
    have hstarts {p : Bytes} (hp : p.isPrefixOf s = true) : s = p ++ s.drop p.length :=
      (List.prefix_iff_eq_append.mp (List.isPrefixOf_iff_prefix.mp hp)).symm
    split at h
    · next hquery =>
      unfold instruction at h
      split at h
      · cases h
      · next k hfind =>
        cases h
        obtain ⟨hcut, hends⟩ := findSub_cut hfind
        refine ⟨_, .instruction hends, ?_⟩
        show 60 :: s = 60 :: 63 :: (_ ++ [63, 62] ++ _)
        rw [List.append_assoc]
        exact congrArg (60 :: ·) ((hstarts hquery).trans (congrArg (63 :: ·) hcut))
    next hquery =>
    split at h
    · next hcomment =>
      unfold delimited at h
      split at h
      · cases h
      · next k hfind =>
        cases h
        obtain ⟨hcut, hends⟩ := findSub_cut hfind
        refine ⟨_, .comment hends, ?_⟩
        rw [List.cons_append, List.append_assoc, List.append_assoc]
        exact congrArg (60 :: ·) ((hstarts hcomment).trans (congrArg (utf8 "!--" ++ ·) hcut))
    split at h
    · next hcdata =>
      unfold delimited at h
      split at h
      · cases h
      · next k hfind =>
        cases h
        obtain ⟨hcut, hends⟩ := findSub_cut hfind
        refine ⟨_, .cdata hends, ?_⟩
        rw [List.cons_append, List.append_assoc, List.append_assoc]
        exact congrArg (60 :: ·) ((hstarts hcdata).trans (congrArg (utf8 "![CDATA[" ++ ·) hcut))
    split at h
    · next hmark =>
      unfold doctype at h
      split at h
      · cases h
      · next content rest hend =>
        cases h
        obtain ⟨hcut, hends⟩ := doctypeEnd_cut hend
        refine ⟨_, .doctype hmark (hends []), ?_⟩
        rw [List.append_assoc, List.append_assoc, List.singleton_append, ← hcut, List.take_append_drop]
    split at h
    · cases h
    next hbang =>
    have hfirst {name more : Bytes} (hs : s = name ++ more) (hne : name ≠ []) :
        name.head? ≠ some 33 ∧ name.head? ≠ some 63 := by
      cases name with
      | nil => exact absurd rfl hne
      | cons d name =>
        rw [hs] at hbang hquery
        refine ⟨fun heq => hbang ?_, fun heq => hquery ?_⟩
        · cases heq
          exact isPrefixOf_cons _ _
        · cases heq
          exact isPrefixOf_cons _ _
    split at h
    · next hslash =>
      obtain ⟨name, inner, htag, hs, hname⟩ := tag_cut h
      unfold tag at h
      dsimp only at h
      rw [← hname] at h
      have hread := (tagText_read htag rest).2
      rw [← hs] at hread
      rw [hread] at h
      dsimp only at h
      rw [if_neg htag.ne_nil, if_pos rfl] at h
      split at h
      · cases h
      · next hmatch =>
        cases h
        simp only [Bool.or_eq_true, Bool.not_eq_true', bne_iff_ne, not_or, Bool.not_eq_false, ne_eq, not_not]
          at hmatch
        obtain ⟨o, rfl⟩ := List.head?_eq_some_iff.mp hmatch.2
        refine ⟨_, .close htag hmatch.1, ?_⟩
        rw [List.cons_append, List.cons_append, List.append_assoc, List.append_assoc, List.singleton_append]
        exact congrArg (60 :: ·) ((hstarts hslash).trans (congrArg (47 :: ·) hs))
    · obtain ⟨name, inner, htag, hs, hname⟩ := tag_cut h
      have hstart := hfirst hs htag.ne_nil
      unfold tag at h
      dsimp only at h
      rw [← hname] at h
      have hread := (tagText_read htag rest).2
      rw [← hs] at hread
      rw [hread] at h
      dsimp only at h
      rw [if_neg htag.ne_nil, if_neg Bool.false_ne_true] at h
      split at h
      · next hlast =>
        cases h
        obtain ⟨inner, rfl⟩ := List.getLast?_eq_some_iff.mp hlast
        rw [List.dropLast_concat]
        refine ⟨_, .empty htag hstart, ?_⟩
        rw [List.cons_append, List.append_assoc, List.append_assoc, List.singleton_append]
        exact congrArg (60 :: ·) hs
      next hlast =>
      split at h
      · cases h
      · next hroom =>
        cases h
        refine ⟨_, .start htag hstart hlast (Nat.not_le.mp hroom), ?_⟩
        rw [List.cons_append, List.append_assoc, List.append_assoc, List.singleton_append]
        exact congrArg (60 :: ·) hs

/-! ## Sequences -/

/-- A token, or bytes of a run of character data. -/
inductive Piece : List Bytes → Bytes → Event → List Bytes → Prop
  | data {o t} (hne : t ≠ []) (hdata : ∀ b ∈ t, isData b = true) : Piece o t ⟨.text, [], t⟩ o
  | token {o t ev o'} (htoken : Token o t ev o') : Piece o t ev o'

/-- A part of a document as a sequence of pieces. -/
inductive Lex : List Bytes → Bytes → List Event → List Bytes → Prop
  | nil {o} : Lex o [] [] o
  | cons {o o₁ o' t ev rest es} (hpiece : Piece o t ev o₁) (hlex : Lex o₁ rest es o') :
    Lex o (t ++ rest) (ev :: es) o'

section

variable {o o₁ o' : List Bytes} {a b t : Bytes} {es fs : List Event} {ev : Event}

theorem Lex.single (h : Piece o t ev o') : Lex o t [ev] o' := by
  have := Lex.cons h .nil
  rwa [List.append_nil] at this

theorem Lex.append (ha : Lex o a es o₁) (hb : Lex o₁ b fs o') : Lex o (a ++ b) (es ++ fs) o' := by
  induction ha with
  | nil => exact hb
  | cons hpiece _ ih =>
    rw [List.append_assoc]
    exact .cons hpiece (ih hb)

/-- The events of character data, which may be empty. -/
def dataEvents (t : Bytes) : List Event := if t = [] then [] else [⟨.text, [], t⟩]

theorem mem_dataEvents {d : Event} (h : d ∈ dataEvents t) : d.kind = .text := by
  unfold dataEvents at h
  split at h
  · cases h
  · cases List.mem_singleton.mp h
    rfl

theorem Lex.data (hdata : ∀ b ∈ t, isData b = true) : Lex o t (dataEvents t) o := by
  unfold dataEvents
  split
  · next ht =>
    rw [ht]
    exact .nil
  · next ht => exact .single (.data ht hdata)

namespace XmlLemmas

/-- Markup starts and ends with an ASCII byte that is no character data. -/
theorem token_ends (h : Token o t ev o') :
    (∃ c rest, t = c :: rest ∧ isData c = false) ∧ ∃ front e, t = front ++ [e] ∧ e < 128 := by
  cases h with
  | reference _ _ => exact ⟨⟨_, _, rfl, by decide⟩, _, 59, (List.cons_append ..).symm, by decide⟩
  | @instruction _ inner _ =>
    exact ⟨⟨_, _, rfl, by decide⟩, 60 :: 63 :: (inner ++ [63]), 62, by simp, by decide⟩
  | @comment _ inner _ =>
    exact ⟨⟨_, _, rfl, by decide⟩, 60 :: (utf8 "!--" ++ (inner ++ [45, 45])), 62, by simp [commentClose], by decide⟩
  | @cdata _ inner _ =>
    exact ⟨⟨_, _, rfl, by decide⟩, 60 :: (utf8 "![CDATA[" ++ (inner ++ [93, 93])), 62, by simp [cdataClose], by decide⟩
  | @doctype _ mark content hmark _ =>
    obtain ⟨_, d, more, rfl, _⟩ := doctype_mark hmark
    exact ⟨⟨_, _, rfl, by decide⟩, 60 :: 33 :: d :: more ++ content, 62, by simp, by decide⟩
  | @close _ name inner _ _ =>
    exact ⟨⟨_, _, rfl, by decide⟩, 60 :: 47 :: (name ++ inner), 62, by simp, by decide⟩
  | @empty _ name inner _ _ =>
    exact ⟨⟨_, _, rfl, by decide⟩, 60 :: (name ++ (inner ++ [47])), 62, by simp, by decide⟩
  | @start _ name inner _ _ _ _ =>
    exact ⟨⟨_, _, rfl, by decide⟩, 60 :: (name ++ inner), 62, by simp, by decide⟩

theorem token_kind (h : Token o t ev o') : ev.kind ≠ .eof ∧ ev.kind ≠ .text := by
  cases h with
  | @instruction _ inner _ =>
    split <;> exact ⟨nofun, nofun⟩
  | _ => exact ⟨nofun, nofun⟩

theorem piece_ne_nil (h : Piece o t ev o') : t ≠ [] := by
  cases h with
  | data hne _ => exact hne
  | token htoken =>
    obtain ⟨⟨c, rest, rfl, _⟩, _⟩ := token_ends htoken
    exact List.cons_ne_nil _ _

/-- What a piece does to the names that are open. -/
theorem piece_opened (h : Piece o t ev o') :
    (ev.kind = .start ∧ o' = ev.name :: o) ∨ (ev.kind = .close ∧ o = ev.name :: o') ∨
      (ev.kind ≠ .start ∧ ev.kind ≠ .close ∧ o' = o) := by
  cases h with
  | data hne hdata => exact .inr (.inr ⟨nofun, nofun, rfl⟩)
  | token htoken =>
    cases htoken with
    | @instruction _ inner _ =>
      refine .inr (.inr ⟨?_, ?_, rfl⟩)
      · dsimp only
        split <;> nofun
      · dsimp only
        split <;> nofun
    | close _ _ => exact .inr (.inl ⟨rfl, rfl⟩)
    | start _ _ _ _ => exact .inl ⟨rfl, rfl⟩
    | _ => exact .inr (.inr ⟨nofun, nofun, rfl⟩)

theorem nextEvent_data (hne : t ≠ []) (hdata : ∀ b ∈ t, isData b = true) {rest : Bytes}
    (hrest : ∀ b ∈ rest.head?, isData b = false) :
    nextEvent ⟨t ++ rest, o⟩ = .ok (⟨.text, [], t⟩, ⟨rest, o⟩) := by
  cases t with
  | nil => exact absurd rfl hne
  | cons c t =>
    have hc := hdata c List.mem_cons_self
    rw [isData, Bool.and_eq_true, bne_iff_ne, bne_iff_ne] at hc
    obtain ⟨htake, hdrop⟩ := takeWhile_run hdata hrest
    rw [List.cons_append] at htake hdrop
    rw [List.cons_append, nextEvent]
    dsimp only
    rw [if_neg hc.2, if_pos hc.1, htake, hdrop]

end XmlLemmas

end

section

variable {σ ε : Type} {fail : Status → ε} {f : σ → Event → Except ε σ}

/-- A step that may take a run of character data in parts. -/
def Additive (f : σ → Event → Except ε σ) : Prop :=
  ∀ s a b, a ≠ [] → b ≠ [] → f s ⟨.text, [], a ++ b⟩ = (f s ⟨.text, [], a⟩).bind fun s => f s ⟨.text, [], b⟩

namespace XmlLemmas

theorem foldlM_cons_ok {s s' : σ} {ev : Event} {es : List Event} :
    (ev :: es).foldlM f s = .ok s' ↔ ∃ s₁, f s ev = .ok s₁ ∧ es.foldlM f s₁ = .ok s' := by
  rw [List.foldlM_cons]
  cases f s ev with
  | error e => exact ⟨fun h => (nomatch h), fun ⟨_, h, _⟩ => (nomatch h)⟩
  | ok s₁ => exact ⟨fun h => ⟨s₁, rfl, h⟩, fun ⟨s₂, heq, h⟩ => by cases heq; exact h⟩

theorem foldlM_append_ok {s s' : σ} {es fs : List Event} (h : (es ++ fs).foldlM f s = .ok s') :
    ∃ s₁, es.foldlM f s = .ok s₁ ∧ fs.foldlM f s₁ = .ok s' := by
  rw [List.foldlM_append] at h
  cases hfirst : es.foldlM f s with
  | error e =>
    rw [hfirst] at h
    cases h
  | ok s₁ =>
    rw [hfirst] at h
    exact ⟨s₁, rfl, h⟩

theorem scan_nil {step : σ → Nat → Event → Nat → Except ε σ} {n : Nat} (hn : 0 < n) {o : List Bytes} (s : σ) :
    scan fail step n ⟨[], o⟩ s = .ok s := by
  cases n with
  | zero => exact absurd hn (Nat.lt_irrefl 0)
  | succ n => rfl

theorem scan_piece {step : σ → Nat → Event → Nat → Except ε σ} {n : Nat} {doc rest : Bytes} {ev : Event}
    {o o' : List Bytes} (hread : nextEvent ⟨doc, o⟩ = .ok (ev, ⟨rest, o'⟩)) (hkind : ev.kind ≠ .eof) (s : σ) :
    scan fail step (n + 1) ⟨doc, o⟩ s =
      (step s doc.length ev rest.length).bind fun s => scan fail step n ⟨rest, o'⟩ s := by
  rw [scan, hread]
  exact if_neg hkind

end XmlLemmas

/-- A loop over a whole sequence. -/
theorem scan_lex (hf : Additive f) {o o' : List Bytes} {x : Bytes} {es : List Event} (h : Lex o x es o') {n : Nat}
    (hn : x.length < n) (s : σ) : scan fail (fun s _ ev _ => f s ev) n ⟨x, o⟩ s = es.foldlM f s := by
  -- with bytes of a run that have been passed but not yet read
  have hrun : ∀ {n : Nat}, x.length < n → (∀ s, scan fail (fun s _ ev _ => f s ev) n ⟨x, o⟩ s = es.foldlM f s) ∧
      ∀ t, t ≠ [] → (∀ b ∈ t, isData b = true) → ∀ s,
        scan fail (fun s _ ev _ => f s ev) (n + 1) ⟨t ++ x, o⟩ s =
          (f s ⟨.text, [], t⟩).bind fun s => es.foldlM f s := by
    clear hn s n
    induction h with
    | @nil o =>
      intro n hn
      refine ⟨fun s => scan_nil hn s, fun t hne hdata s => ?_⟩
      have hread := (@nextEvent_data o _ hne hdata []) nofun
      rw [scan_piece hread nofun]
      exact congrArg _ (funext fun s => scan_nil hn s)
    | @cons o o₁ o' t ev rest es hpiece _ ih =>
      intro n hn
      have hpos := List.length_pos_of_ne_nil (piece_ne_nil hpiece)
      rw [List.length_append] at hn
      obtain ⟨n, rfl⟩ := Nat.exists_eq_succ_of_ne_zero (Nat.ne_zero_of_lt hn)
      cases hpiece with
      | data hne hdata =>
        refine ⟨fun s => (ih (by omega)).2 t hne hdata s, fun t' hne' hdata' s => ?_⟩
        have hboth : ∀ b ∈ t' ++ t, isData b = true := fun b hb =>
          (List.mem_append.mp hb).elim (hdata' b) (hdata b)
        have hlong := (ih (n := n + 1) (by omega)).2 (t' ++ t) (by simp [hne]) hboth s
        rw [List.append_assoc] at hlong
        rw [hlong, hf s t' t hne' hne]
        cases f s ⟨.text, [], t'⟩ with
        | error e => rfl
        | ok s => rfl
      | token htoken =>
        obtain ⟨⟨c, tail, hhead, hc⟩, _⟩ := token_ends htoken
        have hnow : ∀ {n : Nat}, rest.length < n → ∀ s,
            scan fail (fun s _ ev _ => f s ev) (n + 1) ⟨t ++ rest, o⟩ s = (ev :: es).foldlM f s := by
          intro n hn s
          rw [scan_piece (nextEvent_token htoken rest) (token_kind htoken).1]
          exact congrArg _ (funext fun s => (ih hn).1 s)
        refine ⟨fun s => hnow (by omega) s, fun t' hne' hdata' s => ?_⟩
        have hread := (@nextEvent_data o _ hne' hdata' (t ++ rest)) (by
          rw [hhead]
          exact fun b hb => by cases hb; exact hc)
        rw [scan_piece hread nofun]
        exact congrArg _ (funext fun s => hnow (by omega) s)
  exact (hrun hn).1 s

/-- The events that a reader meets, in a number of turns. -/
def events : Nat → Reader → List Event
  | 0, _ => []
  | n + 1, r =>
    match nextEvent r with
    | .error _ => []
    | .ok (ev, r') => if ev.kind = .eof then [] else ev :: events n r'

/-- The events of a document. -/
def eventsOf (doc : Bytes) : List Event := events (doc.length + 1) ⟨doc, []⟩

/-- What holds at the start of a document and is kept by each piece holds at its end, when all
its events have been met. A piece ends where the text may be cut. -/
theorem scan_invariant {step : σ → Nat → Event → Nat → Except ε σ} {doc : Bytes}
    {I : Bytes → List Event → List Bytes → σ → Prop}
    (hstep : ∀ done t rest es o ev o' s s', doc = done ++ t ++ rest → (Valid doc → Valid (done ++ t)) →
      Piece o t ev o' → I done es o s → step s (t ++ rest).length ev rest.length = .ok s' →
      I (done ++ t) (es ++ [ev]) o' s')
    {s s' : σ} (hinit : I [] [] [] s) (h : scan fail step (doc.length + 1) ⟨doc, []⟩ s = .ok s') :
    ∃ o, I doc (eventsOf doc) o s' := by
  suffices hall : ∀ n rest done es o s, doc = done ++ rest → rest.length < n → I done es o s →
      scan fail step n ⟨rest, o⟩ s = .ok s' → ∃ o', I doc (es ++ events n ⟨rest, o⟩) o' s' from
    hall _ doc [] [] [] s rfl (Nat.lt_succ_self _) hinit h
  clear h hinit s
  intro n
  induction n with
  | zero => exact fun rest _ _ _ _ _ hn => absurd hn (Nat.not_lt_zero _)
  | succ n ih =>
    intro rest done es o s hdoc hn hI h
    rw [scan] at h
    rw [events]
    rcases hread : nextEvent ⟨rest, o⟩ with e | ⟨ev, r'⟩
    · rw [hread] at h
      cases h
    rw [hread] at h
    simp only [] at h ⊢
    split at h
    · next heof =>
      cases h
      rcases nextEvent_cases hread with ⟨hnil, _⟩ | ⟨t, _, _, _, rfl, _⟩ | ⟨t, htoken, _⟩
      · dsimp only at hnil
        rw [hdoc, hnil, List.append_nil, if_pos heof, List.append_nil]
        exact ⟨o, hI⟩
      · cases heof
      · exact absurd heof (token_kind htoken).1
    next heof =>
    obtain ⟨rest', o'⟩ := r'
    have hpiece : ∃ t, Piece o t ev o' ∧ rest = t ++ rest' ∧ (Valid doc → Valid (done ++ t)) := by
      rcases nextEvent_cases hread with ⟨_, rfl, _⟩ | ⟨t, hne, hdata, hafter, rfl, hrest, rfl⟩ | ⟨t, htoken, hrest⟩
      · exact absurd rfl heof
      · refine ⟨t, .data hne hdata, hrest, fun hvalid => ?_⟩
        dsimp only at hrest hafter
        rw [hdoc, hrest, ← List.append_assoc] at hvalid
        cases rest' with
        | nil => rwa [List.append_nil] at hvalid
        | cons b rest' =>
          have hascii : ∀ b : Byte, isData b = false → b < 128 := forall_byte (by decide +kernel)
          exact (valid_around (hascii b (hafter b rfl)) hvalid).1
      · refine ⟨t, .token htoken, hrest, fun hvalid => ?_⟩
        obtain ⟨_, front, e, rfl, he⟩ := token_ends htoken
        dsimp only at hrest
        rw [hdoc, hrest, ← List.append_assoc, ← List.append_assoc, List.append_assoc, List.singleton_append] at hvalid
        have hfront := (valid_around he hvalid).1
        rw [← List.append_assoc]
        refine valid_append hfront (valid_ascii fun b hb => ?_)
        cases List.mem_singleton.mp hb
        exact UInt8.lt_iff_toNat_lt.mp he
    obtain ⟨t, hpiece, hrest, hvalid⟩ := hpiece
    have hpos := List.length_pos_of_ne_nil (piece_ne_nil hpiece)
    subst hrest
    have hdoc' : doc = done ++ t ++ rest' := by rw [hdoc, List.append_assoc]
    rw [List.length_append] at hn
    cases hs : step s (t ++ rest').length ev rest'.length with
    | error e =>
      rw [show step s (⟨t ++ rest', o⟩ : Reader).rest.length ev (⟨rest', o'⟩ : Reader).rest.length = _ from hs] at h
      cases h
    | ok s₁ =>
      rw [show step s (⟨t ++ rest', o⟩ : Reader).rest.length ev (⟨rest', o'⟩ : Reader).rest.length = _ from hs] at h
      have hrest := ih rest' (done ++ t) (es ++ [ev]) o' s₁ hdoc' (by omega)
        (hstep done t rest' es o ev o' s s₁ hdoc' hvalid hpiece hI hs) h
      rw [List.append_assoc, List.singleton_append] at hrest
      rw [if_neg heof]
      exact hrest

end

end OmtClient.Common.Xml
