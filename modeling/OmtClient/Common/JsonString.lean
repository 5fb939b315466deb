import OmtClient.Common.JsonComplete

/-!
# Strings on character boundaries

`write_string` copies the runs between two escapes as slices of the text, and slicing a text
in Rust panics off a character boundary; the parser copies the runs between two escapes in
the same way. Both are run here with slices that say where they were taken.

1. `writeStringRuns_eq`: the writer never slices off a boundary, and writes what
   `writeString` says.
2. `stringLoopAt_eq`: neither does the parser, in any text.
3. `writeString_reads_back`: every text survives being written and parsed.
-/

namespace OmtClient.Common.Json

open OmtClient.Lib Prog JsonLemmas GrammarLemmas

variable {F : Type}

/-- `str::is_char_boundary`: an end of the text, or a byte that continues no character. -/
def isCharBoundary (s : Bytes) (i : Nat) : Bool :=
  i == 0 || i == s.length || (s[i]?).any fun b => b < 0x80 || 0xC0 ≤ b

/-- `&s[start..stop]`; none is a panic. -/
def slice (s : Bytes) (start stop : Nat) : Option Bytes :=
  if start ≤ stop ∧ isCharBoundary s start = true ∧ isCharBoundary s stop = true then
    some ((s.take stop).drop start)
  else none

/-- The loop of `write_string` at the byte with index `i`, the last escape before `run`. -/
def writeRuns (s : Bytes) : Bytes → Nat → Nat → Bytes → Option Bytes
  | [], _, run, out => (slice s run s.length).map fun last => out ++ last ++ [34]
  | b :: rest, i, run, out =>
    if isPlain b then writeRuns s rest (i + 1) run out
    else (slice s run i).bind fun part => writeRuns s rest (i + 1) (i + 1) (out ++ part ++ escapeByte b)

/-- `write_string` with its slices. -/
def writeStringRuns (s : String) : Option Bytes := writeRuns (utf8 s) (utf8 s) 0 0 [34]

/-- `stringLoop` in the document `whole`, with its slices; a slice off a boundary is `stuck`. -/
def stringLoopAt (whole : Bytes) : Nat → Bytes → Parse Bytes
  | 0, _ => raise .stuck
  | n + 1, text => do
    match ← peek with
    | none => refuse "unterminated JSON string"
    | some c =>
      if c = 34 then do
        advance 1
        pure text
      else if c < 32 then refuse "control character in JSON string"
      else if c = 92 then do
        advance 1
        let ch ← escaped
        stringLoopAt whole n (text ++ encode ch)
      else do
        let p ← get
        advance (p.rest.takeWhile isPlain).length
        let q ← get
        let run ← orRaise (slice whole (whole.length - p.rest.length) (whole.length - q.rest.length)) .stuck
        stringLoopAt whole n (text ++ run)

namespace BoundaryLemmas

/-- The first byte of a character does not continue one. -/
theorem encode_head (c : Char) : ∃ x xs, encode c = x :: xs ∧ (decide (x < 0x80) || decide (0xC0 ≤ x)) = true := by
  have hlead {n : Nat} (low : 192 ≤ n) (high : n < 256) :
      (decide (UInt8.ofNat n < 0x80) || decide (0xC0 ≤ UInt8.ofNat n)) = true := by
    rw [Bool.or_eq_true, decide_eq_true_eq, decide_eq_true_eq]
    refine .inr ?_
    rw [UInt8.le_iff_toNat_le, UInt8.toNat_ofNat_of_lt' high]
    exact low
  rcases encode_cases c with ⟨hlt, henc⟩ | ⟨hge, _⟩
  · have hall : ∀ n, n < 128 → (decide (UInt8.ofNat n < 0x80) || decide (0xC0 ≤ UInt8.ofNat n)) = true := by
      decide
    exact ⟨_, _, henc, hall _ hlt⟩
  · rw [encode, String.utf8EncodeChar, if_neg (by show ¬ c.toNat ≤ 127; omega)]
    split
    · exact ⟨_, _, rfl, hlead (by omega) (by omega)⟩
    · split
      · exact ⟨_, _, rfl, hlead (by omega) (by omega)⟩
      · exact ⟨_, _, rfl, hlead (by omega) (by omega)⟩

/-- A text starts on a boundary of any text it ends. -/
theorem boundary_of_valid {a b : Bytes} (h : Valid b) : isCharBoundary (a ++ b) a.length = true := by
  obtain ⟨s, hs⟩ := h
  rw [utf8_eq] at hs
  subst hs
  cases s.toList with
  | nil => simp [isCharBoundary]
  | cons c cs =>
    obtain ⟨x, xs, henc, hx⟩ := encode_head c
    rw [List.flatMap_cons, henc, isCharBoundary, List.getElem?_append_right (Nat.le_refl _), Nat.sub_self]
    simp [hx]

/-- An ASCII byte stands on a boundary. -/
theorem boundary_of_ascii {a c : Bytes} {b : Byte} (hb : b < 128) : isCharBoundary (a ++ b :: c) a.length = true := by
  rw [isCharBoundary, List.getElem?_append_right (Nat.le_refl _), Nat.sub_self]
  have hlow : b < 0x80 := hb
  simp [hlow]

theorem slice_middle {a b c : Bytes} (hstart : isCharBoundary (a ++ (b ++ c)) a.length = true)
    (hstop : isCharBoundary (a ++ (b ++ c)) (a.length + b.length) = true) :
    slice (a ++ (b ++ c)) a.length (a.length + b.length) = some b := by
  rw [slice, if_pos ⟨Nat.le_add_right _ _, hstart, hstop⟩, ← List.append_assoc, ← List.length_append,
    List.take_left, List.drop_left]

end BoundaryLemmas

open BoundaryLemmas

/-- The slices of the writer: `pre` is written, `mid` is the run so far. -/
theorem writeRuns_eq {pre mid rest : Bytes} (hvalid : Valid (mid ++ rest)) (hmid : ∀ b ∈ mid, isPlain b = true)
    {out : Bytes} :
    writeRuns (pre ++ (mid ++ rest)) rest (pre.length + mid.length) pre.length out =
      some (out ++ (mid ++ rest).flatMap escapeByte ++ [34]) := by
  induction rest generalizing pre mid out with
  | nil =>
    rw [writeRuns]
    have hend : (pre ++ (mid ++ [])).length = pre.length + mid.length := by simp
    have hlast : isCharBoundary (pre ++ (mid ++ [])) (pre.length + mid.length) = true := by
      simp [isCharBoundary]
    rw [hend, slice_middle (boundary_of_valid hvalid) hlast, List.append_nil, flatMap_plain mid hmid]
    rfl
  | cons b rest ih =>
    rw [writeRuns]
    cases hb : isPlain b with
    | true =>
      rw [if_pos rfl]
      have hmid' : ∀ x ∈ mid ++ [b], isPlain x = true := by
        intro x hx
        rcases List.mem_append.mp hx with hx | hx
        · exact hmid x hx
        · exact List.mem_singleton.mp hx ▸ hb
      have hsnoc : mid ++ b :: rest = (mid ++ [b]) ++ rest := by simp
      rw [hsnoc] at hvalid ⊢
      have hnext := @ih pre (mid ++ [b]) hvalid hmid' out
      rwa [List.length_append, List.length_singleton, ← Nat.add_assoc] at hnext
    | false =>
      have hascii := lt_of_not_plain hb
      have hstop : isCharBoundary (pre ++ (mid ++ b :: rest)) (pre.length + mid.length) = true := by
        rw [← List.append_assoc, ← List.length_append]
        exact boundary_of_ascii hascii
      rw [if_neg Bool.false_ne_true, slice_middle (boundary_of_valid hvalid) hstop, Option.bind_some]
      -- the next run starts after the escape
      have hnext := @ih (pre ++ (mid ++ [b])) [] (valid_around hascii hvalid).2 (fun _ hx => nomatch hx)
        (out ++ mid ++ escapeByte b)
      have hlen : (pre ++ (mid ++ [b])).length = pre.length + mid.length + 1 := by
        simp [Nat.add_assoc]
      have hwhole : pre ++ (mid ++ [b]) ++ ([] ++ rest) = pre ++ (mid ++ b :: rest) := by simp
      rw [hlen, hwhole, List.length_nil, Nat.add_zero] at hnext
      rw [hnext, (@List.flatMap_append _ _ mid), List.flatMap_cons, flatMap_plain mid hmid]
      simp

/-- The writer never slices off a boundary. -/
theorem writeStringRuns_eq (s : String) : writeStringRuns s = some (writeString s) :=
  (@writeRuns_eq [] []) ⟨s, rfl⟩ (fun _ hb => nomatch hb)

/-- Nor does the parser, in any text that it stands in between two characters of. -/
theorem stringLoopAt_eq {whole pre : Bytes} (n : Nat) (text : Bytes) {p : Parser} (hwhole : whole = pre ++ p.rest)
    (hp : Valid p.rest) : (stringLoopAt whole n text).run p = (stringLoop n text).run p := by
  induction n generalizing pre p text with
  | zero => rfl
  | succ n ih =>
    rw [stringLoopAt, stringLoop]
    refine run_bind_congr ?_
    rw [wp_peek]
    cases hhead : p.rest.head? with
    | none => rfl
    | some c =>
      obtain ⟨tl, htl⟩ := List.head?_eq_some_iff.mp hhead
      dsimp only
      split
      · rfl
      split
      · rfl
      split
      · next hc =>
        -- an escape ends between two characters
        refine run_bind_congr (wp_mono (wp_advance_took (a := [c]) tl htl) ?_ fun _ _ h => h)
        rintro _ q ⟨htook, _⟩
        refine run_bind_congr (wp_mono wp_escaped_took ?_ fun _ _ h => h)
        rintro ch r ⟨bytes, hescape, htook'⟩
        have hboth : Took p r (92 :: bytes) := hc ▸ Took.trans htook htook'
        refine @ih (pre ++ 92 :: bytes) _ _ ?_ (Took.valid hboth hescape.1 hp)
        rw [hwhole, hboth.text, List.append_assoc]
      · -- a run of plain bytes starts and ends between two characters
        refine run_bind_congr ?_
        rw [wp_get]
        refine run_bind_congr (wp_mono (wp_advance_took (a := p.rest.takeWhile isPlain) _
          List.takeWhile_append_dropWhile.symm) ?_ fun _ _ h => h)
        rintro _ q ⟨htook, _⟩
        have hrun := valid_plain_run hp
        have hq := Took.valid htook hrun hp
        have hsplit : whole = pre ++ (p.rest.takeWhile isPlain ++ q.rest) := hwhole.trans (congrArg (pre ++ ·) htook.text)
        have hstart : whole.length - p.rest.length = pre.length := by
          rw [hwhole, List.length_append, Nat.add_sub_cancel_right]
        have hstop : whole.length - q.rest.length = pre.length + (p.rest.takeWhile isPlain).length := by
          rw [hsplit, List.length_append, List.length_append, ← Nat.add_assoc, Nat.add_sub_cancel_right]
        have hslice : slice whole (whole.length - p.rest.length) (whole.length - q.rest.length) =
            some (p.rest.takeWhile isPlain) := by
          rw [hstart, hstop, hsplit]
          refine slice_middle (boundary_of_valid (valid_append hrun hq)) ?_
          rw [← List.append_assoc, ← List.length_append]
          exact boundary_of_valid hq
        have hget : (Prog.get : Parse Parser).run q = (.ok q, q) := rfl
        rw [run_bind_ok hget, hslice]
        have hraise : (orRaise (some (p.rest.takeWhile isPlain)) .stuck : Parse Bytes).run q =
            (.ok (p.rest.takeWhile isPlain), q) := rfl
        rw [run_bind_ok hraise]
        refine @ih (pre ++ p.rest.takeWhile isPlain) _ _ ?_ hq
        rw [hsplit, List.append_assoc]

/-- Every text survives being written and parsed, and every slice on the way is taken between
two characters. -/
theorem writeString_reads_back (dec : Decimal F) (s : String) :
    writeStringRuns s = some (writeString s) ∧ parse dec (writeString s) = .ok (.string s) ∧
    ∀ n depth budget, (stringLoopAt (writeString s) n []).run ⟨(writeString s).drop 1, depth, budget⟩ =
      (stringLoop n []).run ⟨(writeString s).drop 1, depth, budget⟩ := by
  refine ⟨writeStringRuns_eq s, ?_, fun n depth budget => ?_⟩
  · have hparse := (@parse_spaced _ _ _ [] _ []) ((@written_text _ dec) s) (Nat.zero_le _) rfl rfl
    rwa [List.nil_append, List.append_nil] at hparse
  · refine (@stringLoopAt_eq _ [34]) n [] rfl ?_
    exact valid_of_append (a := [34]) (valid_plain (by decide)) (valid_writeString s)

end OmtClient.Common.Json
