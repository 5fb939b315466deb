import Mathlib.Data.List.Basic

/-!
# Words of a shell

How a POSIX shell cuts a text into words and operators, with what stands for itself in a word told
from what may be expanded. Of expansions a parameter outside of quotes and `$(...)` inside of double
quotes are read, without quotes of their own. Here-documents, other expansions and lines that go on
behind a backslash are not: then there are no tokens.

A template has holes, where texts in single quotes will stand.

1. `run_quote`: a text in single quotes becomes a part of one word, whatever is in it.
2. `tokens_fill`: the tokens of a template do not depend on what is in its holes.
3. `tokens_quoted`: quoted texts with blanks between them are as many words.
-/

namespace OmtClient.Lib.Shell

inductive Sym
  | char (c : Char)
  | hole (i : Nat)
  deriving DecidableEq

inductive Piece
  | plain (c : Char)
  | quoted (c : Char)
  /-- Of an expansion in double quotes. -/
  | active (c : Char)
  | hole (i : Nat)
  deriving DecidableEq

inductive Token
  | word (w : List Piece)
  | op (o : List Char)
  deriving DecidableEq

/-- Where the reader is; `w` is what there is of a word. -/
inductive Mode
  | blank
  | comment
  | op (o : List Char)
  | word (w : List Piece)
  /-- Behind a dollar sign. -/
  | parameter (w : List Piece)
  | escape (w : List Piece)
  | single (w : List Piece)
  | double (w : List Piece)
  | doubleEscape (w : List Piece)
  | doubleDollar (w : List Piece)
  | command (w : List Piece)
  deriving DecidableEq

def operators : List (List Char) :=
  [['&'], ['&', '&'], ['('], [')'], [';'], [';', ';'], ['<'], ['<', '&'], ['<', '>'], ['>'], ['>', '>'], ['>', '&'],
    ['>', '|'], ['|'], ['|', '|']]

/-- A character of a word. -/
def wordChar (w : List Piece) (c : Char) : Option (List Token × Mode) :=
  if c = '\'' then some ([], .single w)
  else if c = '"' then some ([], .double w)
  else if c = '\\' then some ([], .escape w)
  else if c = '`' then none
  else if c = '$' then some ([], .parameter (w ++ [.plain c]))
  else some ([], .word (w ++ [.plain c]))

/-- A character behind a token. -/
def between (c : Char) : Option (List Token × Mode) :=
  if c = ' ' ∨ c = '\t' then some ([], .blank)
  else if c = '\n' then some ([.op [c]], .blank)
  else if c = '#' then some ([], .comment)
  else if [c] ∈ operators then some ([], .op [c])
  else wordChar [] c

/-- A character behind some of a word. -/
def inWord (w : List Piece) (c : Char) : Option (List Token × Mode) :=
  if c = ' ' ∨ c = '\t' then some ([.word w], .blank)
  else if c = '\n' then some ([.word w, .op [c]], .blank)
  else if [c] ∈ operators then some ([.word w], .op [c])
  else wordChar w c

/-- One character, with the tokens that end before it. -/
def step : Mode → Sym → Option (List Token × Mode)
  | .blank, .char c => between c
  | .comment, .char c => if c = '\n' then some ([.op [c]], .blank) else some ([], .comment)
  | .op o, .char c =>
    if o ++ [c] ∈ operators then some ([], .op (o ++ [c]))
    else if o ++ [c] = ['<', '<'] then none
    else (between c).map fun r => (.op o :: r.1, r.2)
  | .word w, .char c => inWord w c
  | .parameter w, .char c => if c ∈ ['(', '{', '\'', '"', '`'] then none else inWord w c
  | .escape w, .char c => if c = '\n' then none else some ([], .word (w ++ [.quoted c]))
  | .single w, .char c => if c = '\'' then some ([], .word w) else some ([], .single (w ++ [.quoted c]))
  | .double w, .char c =>
    if c = '"' then some ([], .word w)
    else if c = '\\' then some ([], .doubleEscape w)
    else if c = '$' then some ([], .doubleDollar w)
    else if c = '`' then none
    else some ([], .double (w ++ [.quoted c]))
  | .doubleEscape w, .char c =>
    if c ∈ ['$', '`', '"', '\\'] then some ([], .double (w ++ [.quoted c]))
    else if c = '\n' then none
    else some ([], .double (w ++ [.quoted '\\', .quoted c]))
  | .doubleDollar w, .char c => if c = '(' then some ([], .command (w ++ [.active '$', .active c])) else none
  | .command w, .char c =>
    if c = ')' then some ([], .double (w ++ [.active c]))
    else if c ∈ ['(', '\'', '"', '`', '\\', '#', '$'] then none
    else some ([], .command (w ++ [.active c]))
  | .blank, .hole i => some ([], .word [.hole i])
  | .op o, .hole i => some ([.op o], .word [.hole i])
  | .word w, .hole i => some ([], .word (w ++ [.hole i]))
  | _, .hole _ => none

def run : Mode → List Sym → Option (List Token × Mode)
  | m, [] => some ([], m)
  | m, x :: xs => (step m x).bind fun r => (run r.2 xs).map fun r' => (r.1 ++ r'.1, r'.2)

/-- The end of the text. -/
def finish : Mode → Option (List Token)
  | .blank | .comment => some []
  | .op o => some [.op o]
  | .word w | .parameter w => some [.word w]
  | _ => none

/-- The tokens of what is left, in some mode. -/
def lex (m : Mode) (xs : List Sym) : Option (List Token) := (run m xs).bind fun r => (finish r.2).map (r.1 ++ ·)

def tokens (xs : List Sym) : Option (List Token) := lex .blank xs

/-! ## Quoted texts -/

/-- A text in single quotes, with the quotes in it outside of them and behind backslashes. -/
def quote (s : List Char) : List Char := '\'' :: (s.flatMap (fun c => if c = '\'' then ['\'', '\\', '\'', '\''] else [c]) ++ ['\''])

def chars (s : List Char) : List Sym := s.map .char

theorem chars_append (a b : List Char) : chars (a ++ b) = chars a ++ chars b := List.map_append

/-- A word, all of which stands for itself. -/
def literal (s : List Char) : Token := .word (s.map .quoted)

/-- A word without quotes. -/
def bare (s : List Char) : Token := .word (s.map .plain)

variable {m m' : Mode} {xs ys : List Sym} {ts ts' : List Token} {s : List Char} {w : List Piece} {σ : Nat → List Char}

theorem run_append (h : run m xs = some (ts, m')) (ys : List Sym) :
    run m (xs ++ ys) = (run m' ys).map fun r => (ts ++ r.1, r.2) := by
  induction xs generalizing m ts with
  | nil =>
    obtain ⟨rfl, rfl⟩ := Prod.mk.inj (Option.some.inj h)
    cases hrun : run m ys <;> simp [hrun]
  | cons x xs ih =>
    rw [run] at h
    obtain ⟨r, hstep, hrest⟩ := Option.bind_eq_some_iff.mp h
    obtain ⟨r', hrun, heq⟩ := Option.map_eq_some_iff.mp hrest
    obtain ⟨rfl, rfl⟩ := Prod.mk.inj heq
    rw [List.cons_append, run, hstep, Option.bind_some, ih hrun, Option.map_map]
    refine congrArg (Option.map · _) ?_
    funext q
    simp

theorem lex_append (h : run m xs = some (ts, m')) (ys : List Sym) : lex m (xs ++ ys) = (lex m' ys).map (ts ++ ·) := by
  rw [lex, run_append h, lex]
  cases run m' ys with
  | none => rfl
  | some r =>
    rw [Option.map_some, Option.bind_some, Option.bind_some, Option.map_map]
    refine congrArg (Option.map · _) ?_
    funext q
    simp

/-- In single quotes a text stands for itself. -/
theorem run_single : run (.single w) (chars (s.flatMap (fun c => if c = '\'' then ['\'', '\\', '\'', '\''] else [c]) ++ ['\''])) =
    some ([], .word (w ++ s.map .quoted)) := by
  induction s generalizing w with
  | nil =>
    rw [List.map_nil, List.append_nil]
    rfl
  | cons c s ih =>
    rw [List.flatMap_cons, List.append_assoc, chars, List.map_append]
    have hnext := @ih (w ++ [.quoted c])
    rw [List.append_assoc] at hnext
    by_cases hc : c = '\''
    · subst hc
      have hstep : run (.single w) (chars ['\'', '\\', '\'', '\'']) = some ([], .single (w ++ [.quoted '\''])) := rfl
      exact (run_append hstep _).trans (by rw [← chars, hnext]; rfl)
    · have hstep : run (.single w) [.char c] = some ([], .single (w ++ [.quoted c])) := by
        rw [run, step, if_neg hc]
        rfl
      rw [if_neg hc]
      exact (run_append hstep _).trans (by rw [← chars, hnext]; rfl)

/-- A quoted text becomes a part of a word. -/
theorem run_quote : run (.word w) (chars (quote s)) = some ([], .word (w ++ s.map .quoted)) := by
  have hstep : run (.word w) [.char '\''] = some ([], .single w) := rfl
  exact (run_append hstep _).trans (by rw [← chars, run_single]; rfl)

theorem run_quote_blank : run .blank (chars (quote s)) = some ([], .word (s.map .quoted)) := by
  have hstep : run .blank [.char '\''] = some ([], .single []) := rfl
  exact (run_append hstep _).trans (by rw [← chars, run_single]; rfl)

theorem run_quote_op (o : List Char) : run (.op o) (chars (quote s)) = some ([.op o], .word (s.map .quoted)) := by
  have hnone : o ++ ['\''] ∉ operators := by
    intro hin
    have hall : ∀ o ∈ operators, '\'' ∉ o := by decide
    exact hall _ hin (List.mem_append_right _ List.mem_cons_self)
  have hshift : o ++ ['\''] ≠ ['<', '<'] := by
    intro heq
    have hin : '\'' ∈ o ++ ['\''] := List.mem_append_right _ List.mem_cons_self
    rw [heq] at hin
    revert hin
    decide
  have hstep : run (.op o) [.char '\''] = some ([.op o], .single []) := by
    rw [run, step, if_neg hnone, if_neg hshift]
    rfl
  exact (run_append hstep _).trans (by rw [← chars, run_single]; rfl)

/-! ## Templates -/

def Sym.fill (σ : Nat → List Char) : Sym → List Sym
  | .char c => [.char c]
  | .hole i => chars (quote (σ i))

def Piece.fill (σ : Nat → List Char) : Piece → List Piece
  | .hole i => (σ i).map .quoted
  | p => [p]

def fillWord (σ : Nat → List Char) (w : List Piece) : List Piece := w.flatMap (Piece.fill σ)

def Token.fill (σ : Nat → List Char) : Token → Token
  | .word w => .word (fillWord σ w)
  | .op o => .op o

def Mode.fill (σ : Nat → List Char) : Mode → Mode
  | .blank => .blank
  | .comment => .comment
  | .op o => .op o
  | .word w => .word (fillWord σ w)
  | .parameter w => .parameter (fillWord σ w)
  | .escape w => .escape (fillWord σ w)
  | .single w => .single (fillWord σ w)
  | .double w => .double (fillWord σ w)
  | .doubleEscape w => .doubleEscape (fillWord σ w)
  | .doubleDollar w => .doubleDollar (fillWord σ w)
  | .command w => .command (fillWord σ w)

/-- The outcome of a run with the holes filled. -/
def fillRun (σ : Nat → List Char) (r : List Token × Mode) : List Token × Mode := (r.1.map (Token.fill σ), r.2.fill σ)

theorem fillWord_snoc (c : Char) :
    fillWord σ (w ++ [.plain c]) = fillWord σ w ++ [.plain c] ∧ fillWord σ (w ++ [.quoted c]) = fillWord σ w ++ [.quoted c] ∧
      fillWord σ (w ++ [.active c]) = fillWord σ w ++ [.active c] := by
  simp only [fillWord, List.flatMap_append, List.flatMap_singleton, Piece.fill, and_self]

theorem wordChar_fill (c : Char) : wordChar (fillWord σ w) c = (wordChar w c).map (fillRun σ) := by
  obtain ⟨hplain, -, -⟩ := @fillWord_snoc w σ c
  simp only [wordChar]
  split_ifs <;> simp only [Option.map_some, Option.map_none, fillRun, Mode.fill, List.map_nil, hplain]

theorem between_fill (c : Char) : between c = (between c).map (fillRun σ) := by
  have hword := @wordChar_fill [] σ c
  simp only [between]
  split_ifs
  · rfl
  · rfl
  · rfl
  · rfl
  · exact hword

theorem inWord_fill (c : Char) : inWord (fillWord σ w) c = (inWord w c).map (fillRun σ) := by
  simp only [inWord]
  split_ifs
  · rfl
  · rfl
  · rfl
  · exact wordChar_fill c

theorem step_char (c : Char) : step (m.fill σ) (.char c) = (step m (.char c)).map (fillRun σ) := by
  cases m with
  | blank => exact between_fill c
  | comment =>
    simp only [Mode.fill, step]
    split_ifs <;> rfl
  | op o =>
    simp only [Mode.fill, step]
    split_ifs
    · rfl
    · rfl
    · conv_lhs => rw [@between_fill σ c, Option.map_map]
      rw [Option.map_map]
      rfl
  | word w => exact inWord_fill c
  | parameter w =>
    simp only [Mode.fill, step]
    split_ifs
    · rfl
    · exact inWord_fill c
  | escape w =>
    simp only [Mode.fill, step]
    split_ifs
    · rfl
    · rw [← (fillWord_snoc c).2.1]
      rfl
  | single w =>
    simp only [Mode.fill, step]
    split_ifs
    · rfl
    · rw [← (fillWord_snoc c).2.1]
      rfl
  | double w =>
    simp only [Mode.fill, step]
    split_ifs
    · rfl
    · rfl
    · rfl
    · rfl
    · rw [← (fillWord_snoc c).2.1]
      rfl
  | doubleEscape w =>
    simp only [Mode.fill, step]
    split_ifs
    · rw [← (fillWord_snoc c).2.1]
      rfl
    · rfl
    · simp only [Option.map_some, fillRun, Mode.fill, fillWord, List.flatMap_append]
      rfl
  | doubleDollar w =>
    simp only [Mode.fill, step]
    split_ifs
    · simp only [Option.map_some, fillRun, Mode.fill, fillWord, List.flatMap_append]
      rfl
    · rfl
  | command w =>
    simp only [Mode.fill, step]
    split_ifs
    · rw [← (fillWord_snoc c).2.2]
      rfl
    · rfl
    · rw [← (fillWord_snoc c).2.2]
      rfl

theorem step_hole {r : List Token × Mode} {i : Nat} (h : step m (.hole i) = some r) :
    run (m.fill σ) (chars (quote (σ i))) = some (fillRun σ r) := by
  have hsnoc : ∀ w, fillWord σ (w ++ [.hole i]) = fillWord σ w ++ (σ i).map .quoted := by
    intro w
    simp only [fillWord, List.flatMap_append, List.flatMap_singleton, Piece.fill]
  cases m with
  | blank =>
    obtain rfl := Option.some.inj h
    rw [fillRun, Mode.fill, Mode.fill, run_quote_blank, ← List.nil_append [Piece.hole i], hsnoc]
    rfl
  | op o =>
    obtain rfl := Option.some.inj h
    rw [fillRun, Mode.fill, Mode.fill, run_quote_op, ← List.nil_append [Piece.hole i], hsnoc]
    rfl
  | word w =>
    obtain rfl := Option.some.inj h
    rw [fillRun, Mode.fill, Mode.fill, run_quote, hsnoc]
    rfl
  | comment => cases h
  | parameter w => cases h
  | escape w => cases h
  | single w => cases h
  | double w => cases h
  | doubleEscape w => cases h
  | doubleDollar w => cases h
  | command w => cases h

/-- Holes are filled before the text is cut or after it. -/
theorem run_fill {r : List Token × Mode} (h : run m xs = some r) : run (m.fill σ) (xs.flatMap (Sym.fill σ)) = some (fillRun σ r) := by
  induction xs generalizing m r with
  | nil =>
    obtain rfl := Option.some.inj h
    rfl
  | cons x xs ih =>
    rw [run] at h
    obtain ⟨r', hstep, hrest⟩ := Option.bind_eq_some_iff.mp h
    obtain ⟨r'', hrun, rfl⟩ := Option.map_eq_some_iff.mp hrest
    have hfirst : run (m.fill σ) (Sym.fill σ x) = some (fillRun σ r') := by
      cases x with
      | char c =>
        rw [Sym.fill, run, step_char, hstep]
        simp [run]
      | hole i => exact step_hole hstep
    rw [List.flatMap_cons, run_append hfirst, fillRun, ih hrun]
    simp [fillRun]

/-- The tokens of a template do not depend on what is in its holes. -/
theorem tokens_fill (h : tokens xs = some ts) : tokens (xs.flatMap (Sym.fill σ)) = some (ts.map (Token.fill σ)) := by
  rw [tokens, lex] at h
  obtain ⟨r, hrun, hfinish⟩ := Option.bind_eq_some_iff.mp h
  obtain ⟨last, hlast, rfl⟩ := Option.map_eq_some_iff.mp hfinish
  have hfilled : run .blank (xs.flatMap (Sym.fill σ)) = some (fillRun σ r) := run_fill hrun
  have hend : finish (r.2.fill σ) = some (last.map (Token.fill σ)) := by
    obtain ⟨ts, m⟩ := r
    cases m <;> first | (obtain rfl := Option.some.inj hlast; rfl) | cases hlast
  rw [tokens, lex, hfilled, Option.bind_some, fillRun, hend, Option.map_some, List.map_append]

@[simp] theorem fill_bare (s : List Char) : (bare s).fill σ = bare s := by
  rw [bare, Token.fill, fillWord, List.flatMap_map]
  exact congrArg Token.word (List.map_eq_flatMap ..).symm

@[simp] theorem fill_literal (s : List Char) : (literal s).fill σ = literal s := by
  rw [literal, Token.fill, fillWord, List.flatMap_map]
  exact congrArg Token.word (List.map_eq_flatMap ..).symm

@[simp] theorem fill_hole (i : Nat) : (Token.word [.hole i]).fill σ = literal (σ i) := by
  rw [Token.fill, fillWord, List.flatMap_singleton]
  rfl

theorem fill_chars (s : List Char) : (chars s).flatMap (Sym.fill σ) = chars s := by
  rw [chars, List.flatMap_map]
  exact (List.map_eq_flatMap ..).symm

/-! ## Words -/

/-- Quoted texts with blanks between them are as many words. -/
theorem tokens_quoted (args : List (List Char)) : tokens (chars ([' '].intercalate (args.map quote))) = some (args.map literal) := by
  induction args with
  | nil => rfl
  | cons a args ih =>
    cases args with
    | nil =>
      have hone : [' '].intercalate ([a].map quote) = quote a ++ [] := by simp [List.intercalate]
      rw [hone, tokens, chars_append, lex_append run_quote_blank]
      rfl
    | cons b args =>
      have hblank : run (.word (a.map .quoted)) (chars [' ']) = some ([literal a], .blank) := rfl
      rw [tokens] at ih
      rw [List.map_cons, List.map_cons, List.intercalate_cons_cons, ← List.map_cons, chars_append, chars_append, List.append_assoc,
        tokens, lex_append run_quote_blank, lex_append hblank, ih]
      rfl

/-- The characters after which a word outside of quotes may stand for something else. -/
def special : List Char := ['$', '`', '*', '?', '[', '~', '!', '{', '}', '=']

def reserved : List String :=
  ["if", "then", "else", "elif", "fi", "do", "done", "case", "esac", "while", "until", "for", "in"]

/-- The character that it stands for, if that is known. -/
def Piece.field : Piece → Option Char
  | .plain c => if c ∈ special then none else some c
  | .quoted c => some c
  | .active _ | .hole _ => none

/-- What a word stands for, if nothing in it may be expanded. -/
def Token.field : Token → Option (List Char)
  | .word w => w.mapM Piece.field
  | .op _ => none

/-- A word that some shell takes for a part of its syntax. -/
def Token.isReserved (t : Token) : Bool := reserved.any fun r => t == bare r.toList

/-- The words of one simple command in which nothing may be expanded. -/
def fields (xs : List Sym) : Option (List (List Char)) :=
  (tokens xs).bind fun ts => if ts.head?.any Token.isReserved then none else ts.mapM Token.field

theorem field_literal (s : List Char) : (literal s).field = some s := by
  rw [literal, Token.field]
  induction s with
  | nil => rfl
  | cons c s ih =>
    rw [List.map_cons, List.mapM_cons, ih]
    rfl

theorem field_bare {s : List Char} (h : ∀ c ∈ s, c ∉ special) : (bare s).field = some s := by
  rw [bare, Token.field]
  induction s with
  | nil => rfl
  | cons c s ih =>
    obtain ⟨hc, hs⟩ := List.forall_mem_cons.mp h
    rw [List.map_cons, List.mapM_cons, ih hs, Piece.field, if_neg hc]
    rfl

theorem fields_literal (args : List (List Char)) : (args.map literal).mapM Token.field = some args := by
  induction args with
  | nil => rfl
  | cons a args ih =>
    rw [List.map_cons, List.mapM_cons, field_literal, ih]
    rfl

theorem literal_unreserved (s : List Char) : (literal s).isReserved = false := by
  rw [Token.isReserved, List.any_eq_false]
  intro r hr heq
  have hsame : s.map Piece.quoted = r.toList.map .plain := Token.word.inj (beq_iff_eq.mp heq)
  cases hr' : r.toList with
  | nil =>
    have hall : ∀ r ∈ reserved, r.toList ≠ [] := by decide
    exact hall r hr hr'
  | cons d ds =>
    rw [hr'] at hsame
    cases s with
    | nil => cases hsame
    | cons c s => cases (List.cons.inj hsame).1

end OmtClient.Lib.Shell
