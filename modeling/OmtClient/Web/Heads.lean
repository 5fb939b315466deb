import OmtClient.Web.Http

/-!
# The grammar of request heads

The heads that `parse_head` of `crates/omt-web/src/http.rs` accepts, as texts: a request line
and fields, each with its line break, and an empty line.

1. `requestLine_iff`, `field_iff`: what one line is read as.
2. `head_exact`: the heads that are complete, with what is stored of them.
-/

namespace OmtClient.Web.Http

open OmtClient.Lib OmtClient.Common

/-! ## Heads as texts -/

/-- A head: the parts of the request line, and the names and the rests of the fields. -/
structure HeadText where
  method : Bytes
  target : Bytes
  version : Bytes
  fields : List (Bytes × Bytes)

/-- A field with its line break. -/
def fieldText (f : Bytes × Bytes) : Bytes := f.1 ++ 58 :: (f.2 ++ [13, 10])

/-- The request line with its line break. -/
def HeadText.line (t : HeadText) : Bytes := t.method ++ 32 :: (t.target ++ 32 :: (t.version ++ [13, 10]))

def HeadText.bytes (t : HeadText) : Bytes := t.line ++ (t.fields.flatMap fieldText ++ [13, 10])

/-- The value of a field: without the blanks around it. -/
def fieldValue (f : Bytes × Bytes) : Bytes := (trimOws f.2).2

/-- A field has this name, in whatever case. -/
def named (name : String) (f : Bytes × Bytes) : Bool := eqIgnoreAsciiCase f.1 (utf8 name)

/-- Some `Connection` field has this among its tokens. -/
def HeadText.asks (t : HeadText) (token : String) : Bool :=
  t.fields.any fun f => named "connection" f &&
    ((fieldValue f).splitOn 44).any fun s => eqIgnoreAsciiCase (trimOws s).2 (utf8 token)

/-- The ranges of the fields, from where the first of them starts. -/
def spansFrom : Nat → List (Bytes × Bytes) → List (Span × Span)
  | _, [] => []
  | pos, f :: fs =>
    let start := pos + f.1.length + 1 + (trimOws f.2).1
    ((pos, pos + f.1.length), (start, start + (fieldValue f).length)) :: spansFrom (pos + (fieldText f).length) fs

/-- What is stored of a head. -/
def HeadText.head (t : HeadText) : Head where
  method := t.method
  path := t.target.takeWhile (· != 63)
  headers := spansFrom t.line.length t.fields
  headLen := t.bytes.length
  contentLength := ((t.fields.find? (named "content-length")).map fun f => decimal (fieldValue f)).getD 0
  keepAlive := !t.asks "close" && (t.version == utf8 "HTTP/1.1" || t.asks "keep-alive")

def Token (s : Bytes) : Prop := s ≠ [] ∧ s.all isTchar = true

/-- Where the request ends is not a matter of reading: no line break that is none, no folded
line, no coding, and one length. -/
structure HeadText.Framed (t : HeadText) : Prop where
  method : Token t.method
  unbroken : ∀ c ∈ t.target ++ t.version ++ t.fields.flatMap Prod.snd, c ≠ 13 ∧ c ≠ 10
  names : ∀ f ∈ t.fields, Token f.1
  few : t.fields.length ≤ maxHeaders
  uncoded : ∀ f ∈ t.fields, named "transfer-encoding" f = false
  length : ∃ n, ∀ f ∈ t.fields, named "content-length" f = true →
    fieldValue f ≠ [] ∧ (fieldValue f).all isAsciiDigit = true ∧ decimal (fieldValue f) = n

/-- The limits on a head. -/
structure HeadText.Within (t : HeadText) : Prop where
  method : t.method.length ≤ methodMax
  path : (t.target.takeWhile (· != 63)).length ≤ pathMax
  length : ∀ f ∈ t.fields, named "content-length" f = true → decimal (fieldValue f) < 2 ^ 32
  bytes : t.bytes.length ≤ maxHeaderBytes

/-- What else is asked of a head: a path of visible ASCII characters, a version of HTTP/1, and
no control characters in values. -/
structure HeadText.Served (t : HeadText) : Prop where
  target : t.target.head? = some 47 ∧ ∀ c ∈ t.target, 0x20 < c ∧ c < 0x7F
  version : t.version = utf8 "HTTP/1.1" ∨ t.version = utf8 "HTTP/1.0"
  values : ∀ f ∈ t.fields, ∀ c ∈ fieldValue f, (0x20 ≤ c ∨ c = 9) ∧ c ≠ 0x7F

namespace HeadsLemmas

variable {data block more l tail : Bytes} {stop pos : Nat} {st st' : Fields} {f : Bytes × Bytes} {fs : List (Bytes × Bytes)}

/-! ## Lines -/

/-- Where a line ends, by its text. -/
theorem line_split (hblock : block.length = stop) (hpos : pos ≤ stop) (hdata : data = block ++ 13 :: 10 :: more)
    (hno : (13 : Byte) ∉ l) (h : (block ++ [13, 10]).drop pos = l ++ 13 :: 10 :: tail) :
    lineEnd block pos stop = pos + l.length ∧ (block.take (pos + l.length)).drop pos = l ∧
      ¬ (pos + l.length < stop ∧ data[pos + l.length + 1]? ≠ some 10) := by
  have hdrop : (block ++ [13, 10]).drop pos = block.drop pos ++ [13, 10] := List.drop_append_of_le_length (hblock ▸ hpos)
  rw [hdrop] at h
  have hlen := congrArg List.length h
  rw [List.length_append, List.length_drop, hblock, List.length_append, List.length_cons, List.length_cons,
    List.length_cons, List.length_cons, List.length_nil] at hlen
  have hprefix : l <+: block.drop pos := by
    refine @List.prefix_of_prefix_length_le _ _ _ (block.drop pos ++ [13, 10]) (h ▸ List.prefix_append _ _)
      (List.prefix_append _ _) ?_
    rw [List.length_drop, hblock]
    omega
  obtain ⟨rest, hrest⟩ := hprefix
  have htake : (block.take (pos + l.length)).drop pos = l := by
    rw [List.drop_take, Nat.add_sub_cancel_left, ← hrest, List.take_left]
  rw [← hrest, List.append_assoc, List.append_cancel_left_eq] at h
  cases rest with
  | nil =>
    rw [List.append_nil] at hrest
    have hnone : (block.drop pos).findIdx? (· == 13) = none := by
      rw [List.findIdx?_eq_none_iff, ← hrest]
      exact fun c hc => beq_eq_false_iff_ne.mpr fun heq => hno (heq ▸ hc)
    have hl : l.length = stop - pos := by rw [hrest, List.length_drop, hblock]
    refine ⟨?_, htake, fun hlt => ?_⟩
    · rw [lineEnd, hnone]
      dsimp only
      omega
    · omega
  | cons c rest =>
    obtain ⟨hc, hrest'⟩ := List.cons.inj h
    subst hc
    have hfound : (block.drop pos).findIdx? (· == 13) = some l.length := by
      rw [← hrest, List.findIdx?_append, List.findIdx?_eq_none_iff.mpr]
      · rw [List.findIdx?_cons, if_pos (by decide)]
        simp
      · exact fun c hc => beq_eq_false_iff_ne.mpr fun heq => hno (heq ▸ hc)
    refine ⟨by rw [lineEnd, hfound], htake, fun hlt => hlt.2 ?_⟩
    -- the line feed is the next byte, in the block or behind it
    have hwhole : data.drop pos = l ++ 13 :: 10 :: (tail ++ more) := by
      have hsplit : data = (block ++ [13, 10]) ++ more := by
        rw [hdata]
        simp
      have hrest'' : rest ++ [13, 10] = 10 :: tail := hrest'
      rw [hsplit, List.drop_append_of_le_length (by rw [List.length_append]; omega), hdrop, ← hrest, List.append_assoc l,
        List.cons_append, hrest'', List.append_assoc, List.cons_append, List.cons_append]
    rw [Nat.add_assoc, ← List.getElem?_drop, hwhole, List.getElem?_append_right (Nat.le_add_right _ _),
      Nat.add_sub_cancel_left]
    rfl

/-- A line that is not refused has a text. -/
theorem line_exists (hblock : block.length = stop) (hpos : pos ≤ stop) (hdata : data = block ++ 13 :: 10 :: more)
    (h : ¬ (lineEnd block pos stop < stop ∧ data[lineEnd block pos stop + 1]? ≠ some 10)) :
    ∃ l tail, (13 : Byte) ∉ l ∧ (block ++ [13, 10]).drop pos = l ++ 13 :: 10 :: tail := by
  have hdrop : (block ++ [13, 10]).drop pos = block.drop pos ++ [13, 10] := List.drop_append_of_le_length (hblock ▸ hpos)
  rw [hdrop]
  unfold lineEnd at h
  cases hfind : (block.drop pos).findIdx? (· == 13) with
  | none =>
    refine ⟨block.drop pos, [], fun hmem => ?_, rfl⟩
    have := List.findIdx?_eq_none_iff.mp hfind 13 hmem
    revert this
    decide
  | some i =>
    rw [hfind] at h
    dsimp only at h
    obtain ⟨hi, hcr, hbefore⟩ := List.findIdx?_eq_some_iff_getElem.mp hfind
    have hlt : pos + i < stop := by
      rw [List.length_drop, hblock] at hi
      omega
    have hten : data[pos + i + 1]? = some 10 := by
      by_contra hne
      exact h ⟨hlt, hne⟩
    have hsplit : block.drop pos = (block.drop pos).take i ++ 13 :: (block.drop pos).drop (i + 1) := by
      have hget := List.drop_eq_getElem_cons hi
      rw [beq_iff_eq.mp hcr] at hget
      rw [← hget, List.take_append_drop]
    have hno : (13 : Byte) ∉ (block.drop pos).take i := by
      intro hmem
      obtain ⟨j, hj, hget⟩ := List.mem_iff_getElem.mp hmem
      rw [List.length_take] at hj
      rw [List.getElem_take] at hget
      have := hbefore j (by omega)
      rw [hget] at this
      revert this
      decide
    -- what follows the carriage return
    have hnext : ∃ tail, (block.drop pos).drop (i + 1) ++ [13, 10] = 10 :: tail := by
      rw [List.drop_drop]
      by_cases hend : pos + (i + 1) < block.length
      · have hget := List.drop_eq_getElem_cons hend
        have hval : block[pos + (i + 1)] = 10 := by
          rw [hdata, Nat.add_assoc, List.getElem?_append_left hend, List.getElem?_eq_getElem hend] at hten
          exact Option.some.inj hten
        rw [hget, hval]
        exact ⟨_, rfl⟩
      · have heq : pos + i + 1 = block.length := by omega
        rw [hdata, heq, List.getElem?_append_right (Nat.le_refl _), Nat.sub_self] at hten
        cases hten
    obtain ⟨tail, htail⟩ := hnext
    refine ⟨(block.drop pos).take i, tail, hno, ?_⟩
    rw [← htail]
    conv => lhs; rw [hsplit]
    rw [List.append_assoc, List.cons_append]

/-! ## Fields -/

/-- What a field adds to what the fields before it say. -/
def added (st : Fields) (pos : Nat) (f : Bytes × Bytes) : Fields where
  headers :=
    let start := pos + f.1.length + 1 + (trimOws f.2).1
    st.headers ++ [((pos, pos + f.1.length), (start, start + (fieldValue f).length))]
  contentLength := if named "content-length" f then decimal (fieldValue f) else st.contentLength
  haveLength := st.haveLength || named "content-length" f
  close := st.close || (named "connection" f &&
    ((fieldValue f).splitOn 44).any fun s => eqIgnoreAsciiCase (trimOws s).2 (utf8 "close"))
  keep := st.keep || (named "connection" f &&
    ((fieldValue f).splitOn 44).any fun s => eqIgnoreAsciiCase (trimOws s).2 (utf8 "keep-alive"))

/-- A field that is accepted after others. -/
structure Fits (st : Fields) (f : Bytes × Bytes) : Prop where
  name : Token f.1
  value : ∀ c ∈ fieldValue f, (0x20 ≤ c ∨ c = 9) ∧ c ≠ 0x7F
  few : st.headers.length ≠ maxHeaders
  uncoded : named "transfer-encoding" f = false
  length : named "content-length" f = true → fieldValue f ≠ [] ∧ (fieldValue f).all isAsciiDigit = true ∧
    decimal (fieldValue f) < 2 ^ 32 ∧ (st.haveLength = true → decimal (fieldValue f) = st.contentLength)

theorem tchar_plain : ∀ c : Byte, isTchar c = true → c ≠ 13 ∧ c ≠ 10 ∧ c ≠ 58 ∧ c ≠ 32 ∧ c ≠ 9 :=
  forall_byte (by decide +kernel)

theorem mem_trimOws {s : Bytes} {c : Byte} (h : c ∈ s) : isOws c = true ∨ c ∈ (trimOws s).2 := by
  show _ ∨ c ∈ ((s.dropWhile isOws).reverse.dropWhile isOws).reverse
  rw [← List.takeWhile_append_dropWhile (p := isOws) (l := s)] at h
  rcases List.mem_append.mp h with h | h
  · exact .inl (List.all_eq_true.mp List.all_takeWhile c h)
  · rw [← List.mem_reverse, ← List.takeWhile_append_dropWhile (p := isOws) (l := (s.dropWhile isOws).reverse)] at h
    rcases List.mem_append.mp h with h | h
    · exact .inl (List.all_eq_true.mp List.all_takeWhile c h)
    · exact .inr (List.mem_reverse.mpr h)

/-- What stands after the colon has no line break when the value has no control character. -/
theorem rest_plain (h : ∀ c ∈ fieldValue f, (0x20 ≤ c ∨ c = 9) ∧ c ≠ 0x7F) : ∀ c ∈ f.2, c ≠ 13 ∧ c ≠ 10 := by
  intro c hc
  have hall : ∀ c : Byte, isOws c = true ∨ ((0x20 ≤ c ∨ c = 9) ∧ c ≠ 0x7F) → c ≠ 13 ∧ c ≠ 10 := forall_byte (by decide +kernel)
  rcases mem_trimOws hc with hc | hc
  · exact hall c (.inl hc)
  · exact hall c (.inr (h c hc))

theorem control_iff {s : Bytes} : (s.any fun c => (c < 0x20 && c != 9) || c == 0x7F) = false ↔
    ∀ c ∈ s, (0x20 ≤ c ∨ c = 9) ∧ c ≠ 0x7F := by
  have hall : ∀ c : Byte, ((c < 0x20 && c != 9) || c == 0x7F) = false ↔ (0x20 ≤ c ∨ c = 9) ∧ c ≠ 0x7F :=
    forall_byte (by decide +kernel)
  rw [List.any_eq_false]
  refine forall_congr' fun c => forall_congr' fun _ => ?_
  rw [Bool.not_eq_true, hall]

theorem named_apart (h : named "content-length" f = true) : named "connection" f = false ∧ named "transfer-encoding" f = false := by
  have hname := beq_iff_eq.mp h
  unfold named eqIgnoreAsciiCase
  rw [hname]
  decide

theorem byte_split {b : Byte} (h : l.findIdx? (· == b) = some pos) : l = l.take pos ++ b :: l.drop (pos + 1) := by
  obtain ⟨hlt, hval, -⟩ := List.findIdx?_eq_some_iff_getElem.mp h
  have hget := List.drop_eq_getElem_cons hlt
  rw [beq_iff_eq.mp hval] at hget
  rw [← hget, List.take_append_drop]

theorem byte_found {b : Byte} {front rest : Bytes} (hfront : ∀ c ∈ front, c ≠ b) :
    (front ++ b :: rest).findIdx? (· == b) = some front.length := by
  rw [List.findIdx?_append, List.findIdx?_eq_none_iff.mpr]
  · rw [List.findIdx?_cons, if_pos (beq_self_eq_true b)]
    simp
  · exact fun c hc => beq_eq_false_iff_ne.mpr (hfront c hc)

theorem token_name {s : Bytes} (h : Token s) : ¬ (s.length = 0 ∨ (!s.all isTchar) = true) := by
  rw [h.2]
  rintro (hzero | hno)
  · exact h.1 (List.length_eq_zero_iff.mp hzero)
  · exact Bool.false_ne_true hno

theorem token_of_name {s : Bytes} (hpos : pos < s.length)
    (h : ¬ (pos = 0 ∨ (!(s.take pos).all isTchar) = true)) : Token (s.take pos) := by
  rw [not_or, Bool.not_eq_true', Bool.not_eq_false] at h
  refine ⟨fun hnil => h.1 ?_, h.2⟩
  have hlen := congrArg List.length hnil
  rw [List.length_take, List.length_nil] at hlen
  omega

/-- A field does not look like the continuation of a line. -/
theorem token_head {s rest : Bytes} (h : Token s) :
    ¬ ((s ++ 58 :: rest).head? = some 32 ∨ (s ++ 58 :: rest).head? = some 9) := by
  cases s with
  | nil => exact absurd rfl h.1
  | cons c name =>
    have hc := tchar_plain c (List.all_eq_true.mp h.2 c List.mem_cons_self)
    rintro (heq | heq)
    · exact hc.2.2.2.1 (Option.some.inj heq)
    · exact hc.2.2.2.2 (Option.some.inj heq)

theorem drop_name (s rest : Bytes) : (s ++ 58 :: rest).drop (s.length + 1) = rest := by
  rw [List.drop_append]
  simp

theorem fieldText_length (f : Bytes × Bytes) : (fieldText f).length = f.1.length + 1 + f.2.length + 2 := by
  rw [fieldText, List.length_append, List.length_cons, List.length_append]
  show f.1.length + (f.2.length + 2 + 1) = _
  omega

/-- One field, read where its text stands. -/
theorem field_text (hblock : block.length = stop) (hpos : pos ≤ stop) (hdata : data = block ++ 13 :: 10 :: more)
    (htext : (block ++ [13, 10]).drop pos = fieldText f ++ tail) (h : Fits st f) :
    field data block stop pos st = .ok (added st pos f, pos + (fieldText f).length) := by
  have hname (c : Byte) (hc : c ∈ f.1) := tchar_plain c (List.all_eq_true.mp h.name.2 c hc)
  have hno : (13 : Byte) ∉ f.1 ++ 58 :: f.2 := by
    intro hmem
    rcases List.mem_append.mp hmem with hmem | hmem
    · exact (hname 13 hmem).1 rfl
    · rcases List.mem_cons.mp hmem with heq | hmem
      · revert heq
        decide
      · exact (rest_plain h.value 13 hmem).1 rfl
  have hline : (block ++ [13, 10]).drop pos = (f.1 ++ 58 :: f.2) ++ 13 :: 10 :: tail := by
    rw [htext, fieldText]
    simp
  obtain ⟨hend, hcut, hok⟩ := line_split hblock hpos hdata hno hline
  have hnext : pos + (f.1 ++ 58 :: f.2).length + 2 = pos + (fieldText f).length := by
    rw [fieldText_length, List.length_append, List.length_cons]
    omega
  unfold field
  dsimp only
  rw [hend, if_neg hok, hcut, if_neg (token_head h.name), byte_found fun c hc => (hname c hc).2.2.1]
  dsimp only
  have hvalue : (trimOws f.2).2 = fieldValue f := rfl
  rw [List.take_left, if_neg (token_name h.name), drop_name, hnext, hvalue]
  have hcontrol := Bool.eq_false_iff.mp ((control_iff).mpr h.value)
  rw [if_neg hcontrol, if_neg h.few]
  have hcoded : (eqIgnoreAsciiCase f.1 (utf8 "transfer-encoding")) = false := h.uncoded
  by_cases hlength : named "content-length" f = true
  · obtain ⟨hne, hdigits, hfits, hsame⟩ := h.length hlength
    have hparse : parseU64 (fieldValue f) (2 ^ 32 - 1) = some (decimal (fieldValue f)) :=
      (parseU64_eq_some (by decide)).mpr ⟨hne, hdigits, Nat.le_pred_of_lt hfits, rfl⟩
    have hagree : ¬ (st.haveLength = true ∧ decimal (fieldValue f) ≠ st.contentLength) := fun hno => hno.2 (hsame hno.1)
    have hconnection := (named_apart hlength).1
    rw [if_pos (show eqIgnoreAsciiCase f.1 (utf8 "content-length") = true from hlength), hparse]
    dsimp only
    rw [if_neg hagree, added, if_pos hlength, hlength, hconnection]
    simp only [Bool.or_true, Bool.false_and, Bool.or_false]
  · rw [if_neg (show ¬ eqIgnoreAsciiCase f.1 (utf8 "content-length") = true from hlength), hcoded, if_neg Bool.false_ne_true]
    rw [Bool.not_eq_true] at hlength
    by_cases hconnection : named "connection" f = true
    · rw [if_pos (show eqIgnoreAsciiCase f.1 (utf8 "connection") = true from hconnection), added, hlength, hconnection]
      simp only [Bool.false_eq_true, if_false, Bool.or_false, Bool.true_and, List.any_map, Function.comp_def]
    · rw [if_neg (show ¬ eqIgnoreAsciiCase f.1 (utf8 "connection") = true from hconnection), added, hlength,
        Bool.eq_false_iff.mpr hconnection]
      simp only [Bool.false_eq_true, if_false, Bool.or_false, Bool.false_and]

/-- A field that is accepted has a text where it was read. -/
theorem field_ok (hblock : block.length = stop) (hpos : pos ≤ stop) (hdata : data = block ++ 13 :: 10 :: more) {next : Nat}
    (h : field data block stop pos st = .ok (st', next)) :
    ∃ f tail, (block ++ [13, 10]).drop pos = fieldText f ++ tail ∧ Fits st f := by
  have hcr : ¬ (lineEnd block pos stop < stop ∧ data[lineEnd block pos stop + 1]? ≠ some 10) := by
    intro hbad
    unfold field at h
    dsimp only at h
    rw [if_pos hbad] at h
    cases h
  obtain ⟨l, tail, hno, htext⟩ := line_exists hblock hpos hdata hcr
  obtain ⟨hend, hcut, hok⟩ := line_split hblock hpos hdata hno htext
  unfold field at h
  dsimp only at h
  rw [hend, if_neg hok, hcut] at h
  split at h
  · cases h
  split at h
  · cases h
  next colon hcolon =>
  split at h
  · cases h
  next hname =>
  split at h
  · cases h
  next hcontrol =>
  split at h
  · cases h
  next hfew =>
  have hl := byte_split hcolon
  have hlt : colon < l.length := (List.findIdx?_eq_some_iff_getElem.mp hcolon).1
  have htoken := token_of_name hlt hname
  have hvalue := (control_iff).mp (Bool.eq_false_iff.mpr hcontrol)
  refine ⟨(l.take colon, l.drop (colon + 1)), tail, ?_, ?_⟩
  · rw [htext, fieldText]
    conv => lhs; rw [hl]
    simp
  split at h
  next hlength =>
    split at h
    · cases h
    next n hparse =>
      split at h
      · cases h
      next hagree =>
        obtain ⟨hne, hdigits, hmax, hn⟩ := (parseU64_eq_some (by decide)).mp hparse
        refine ⟨htoken, hvalue, hfew, (@named_apart (l.take colon, l.drop (colon + 1)) hlength).2, fun _ => ⟨hne, hdigits, Nat.lt_of_le_pred (by decide) hmax, fun hhave => ?_⟩⟩
        by_contra hno
        exact hagree ⟨hhave, fun heq => hno (hn.trans heq)⟩
  next hlength =>
    split at h
    · cases h
    next hcoded =>
      exact ⟨htoken, hvalue, hfew, Bool.eq_false_iff.mpr hcoded, fun hyes => absurd hyes hlength⟩

/-! ## All fields -/

def addedAll : Fields → Nat → List (Bytes × Bytes) → Fields
  | st, _, [] => st
  | st, pos, f :: fs => addedAll (added st pos f) (pos + (fieldText f).length) fs

def FitsAll : Fields → Nat → List (Bytes × Bytes) → Prop
  | _, _, [] => True
  | st, pos, f :: fs => Fits st f ∧ FitsAll (added st pos f) (pos + (fieldText f).length) fs

/-- After a line break the block goes on, or it was the last one: the block does not end in a line
break of its own. -/
theorem after_break (hblock : block.length = stop) (hlast : ¬ [13, 10] <:+ block) (hpos : pos ≤ stop + 2)
    (h : (block ++ [13, 10]).drop pos = l ++ 13 :: 10 :: tail) :
    (pos + l.length + 2 < stop ∨ pos + l.length + 2 = stop + 2) ∧ (block ++ [13, 10]).drop (pos + l.length + 2) = tail := by
  have hlen := congrArg List.length h
  rw [List.length_drop, List.length_append, hblock, List.length_append, List.length_cons, List.length_cons,
    List.length_cons, List.length_cons, List.length_nil] at hlen
  have hwhole : block ++ [13, 10] = ((block ++ [13, 10]).take pos ++ l ++ [13, 10]) ++ tail := by
    conv => lhs; rw [← List.take_append_drop pos (block ++ [13, 10]), h]
    simp
  constructor
  · cases tail with
    | nil =>
      rw [List.length_nil] at hlen
      omega
    | cons c tail =>
      cases tail with
      | nil =>
        -- the carriage return at the end would be a line feed
        have hdrop := congrArg List.dropLast hwhole
        rw [List.dropLast_concat, show ([13, 10] : Bytes) = [13] ++ [10] from rfl, ← List.append_assoc,
          List.dropLast_concat, ← List.append_assoc] at hdrop
        exact absurd (List.append_inj' hdrop rfl).2 (by decide)
      | cons d tail =>
        cases tail with
        | nil => exact absurd ⟨_, (List.append_inj' hwhole rfl).1.symm⟩ hlast
        | cons e tail =>
          rw [List.length_cons, List.length_cons, List.length_cons] at hlen
          omega
  · rw [Nat.add_assoc, ← List.drop_drop, h]
    rw [show l ++ 13 :: 10 :: tail = (l ++ [13, 10]) ++ tail by simp, show l.length + 2 = (l ++ [13, 10]).length by simp,
      List.drop_left]

theorem fieldText_cut (f : Bytes × Bytes) (tail : Bytes) : fieldText f ++ tail = (f.1 ++ 58 :: f.2) ++ 13 :: 10 :: tail := by
  rw [fieldText]
  simp

theorem fields_ok (hblock : block.length = stop) (hlast : ¬ [13, 10] <:+ block) (hdata : data = block ++ 13 :: 10 :: more)
    (fuel : Nat) (hpos : pos < stop ∨ pos = stop + 2) (hfuel : stop ≤ pos + fuel)
    (h : fields data block stop fuel pos st = .ok st') :
    ∃ fs, (block ++ [13, 10]).drop pos = fs.flatMap fieldText ∧ FitsAll st pos fs ∧ st' = addedAll st pos fs := by
  have hnone (hend : pos = stop + 2) : (block ++ [13, 10]).drop pos = [] := by
    rw [List.drop_eq_nil_iff, List.length_append, hblock, hend]
    exact Nat.le_refl _
  induction fuel generalizing pos st with
  | zero =>
    cases h
    exact ⟨[], hnone (by omega), trivial, rfl⟩
  | succ fuel ih =>
    rw [fields] at h
    split at h
    next hlt =>
      split at h
      · cases h
      next st₁ next hfield =>
        obtain ⟨f, tail, htext, hfits⟩ := field_ok hblock (Nat.le_of_lt hlt) hdata hfield
        have hread := field_text hblock (Nat.le_of_lt hlt) hdata htext hfits
        rw [hfield] at hread
        cases hread
        rw [fieldText_cut] at htext
        obtain ⟨hnext, hrest⟩ := after_break hblock hlast (Nat.le_add_right_of_le (Nat.le_of_lt hlt)) htext
        have hlen : pos + (f.1 ++ 58 :: f.2).length + 2 = pos + (fieldText f).length := by
          rw [fieldText_length, List.length_append, List.length_cons]
          omega
        rw [hlen] at hnext hrest
        obtain ⟨fs, hfs, hall, hst⟩ := ih hnext (by rw [fieldText_length]; omega) h fun hend => by
          rw [List.drop_eq_nil_iff, List.length_append, hblock, hend]
          exact Nat.le_refl _
        refine ⟨f :: fs, ?_, ⟨hfits, hall⟩, hst⟩
        rw [htext, List.flatMap_cons, fieldText_cut, ← hrest, hfs]
    next hlt =>
      cases h
      exact ⟨[], hnone (by omega), trivial, rfl⟩

theorem fields_text (hblock : block.length = stop) (hdata : data = block ++ 13 :: 10 :: more) (fuel : Nat)
    (hpos : pos ≤ stop + 2) (htext : (block ++ [13, 10]).drop pos = fs.flatMap fieldText) (hall : FitsAll st pos fs)
    (hfuel : fs.length ≤ fuel) : fields data block stop fuel pos st = .ok (addedAll st pos fs) := by
  have hlen := congrArg List.length htext
  rw [List.length_drop, List.length_append, hblock] at hlen
  induction fs generalizing pos st fuel with
  | nil =>
    rw [List.flatMap_nil, List.length_nil] at hlen
    have hend : ¬ pos < stop := by
      have : stop + 2 - pos = 0 := hlen
      omega
    cases fuel with
    | zero => rfl
    | succ fuel =>
      rw [fields, if_neg hend]
      rfl
  | cons f fs ih =>
    rw [List.flatMap_cons] at htext
    rw [List.flatMap_cons, List.length_append, fieldText_length] at hlen
    have hname : 0 < f.1.length := List.length_pos_iff.mpr hall.1.name.1
    have hlt : pos < stop := by
      have : stop + 2 - pos = f.1.length + 1 + f.2.length + 2 + (fs.flatMap fieldText).length := hlen
      omega
    cases fuel with
    | zero => cases hfuel
    | succ fuel =>
      have hrest : (block ++ [13, 10]).drop (pos + (fieldText f).length) = fs.flatMap fieldText := by
        rw [← List.drop_drop, htext, List.drop_left]
      have hinside : pos + (fieldText f).length ≤ stop + 2 := by
        have : stop + 2 - pos = f.1.length + 1 + f.2.length + 2 + (fs.flatMap fieldText).length := hlen
        rw [fieldText_length]
        omega
      rw [fields, if_pos hlt, field_text hblock (Nat.le_of_lt hlt) hdata htext hall.1]
      refine ih fuel hinside hrest hall.2 (Nat.le_of_succ_le_succ hfuel) ?_
      rw [← hrest, List.length_drop, List.length_append, hblock]

theorem addedAll_eq (st : Fields) (pos : Nat) (fs : List (Bytes × Bytes)) :
    (addedAll st pos fs).headers = st.headers ++ spansFrom pos fs ∧
      (addedAll st pos fs).close = (st.close || fs.any fun f => named "connection" f &&
        ((fieldValue f).splitOn 44).any fun s => eqIgnoreAsciiCase (trimOws s).2 (utf8 "close")) ∧
      (addedAll st pos fs).keep = (st.keep || fs.any fun f => named "connection" f &&
        ((fieldValue f).splitOn 44).any fun s => eqIgnoreAsciiCase (trimOws s).2 (utf8 "keep-alive")) := by
  induction fs generalizing st pos with
  | nil => simp [addedAll, spansFrom]
  | cons f fs ih =>
    obtain ⟨hheaders, hclose, hkeep⟩ := ih (added st pos f) (pos + (fieldText f).length)
    rw [addedAll, hheaders, hclose, hkeep]
    refine ⟨?_, ?_, ?_⟩
    · rw [added, spansFrom, List.append_assoc]
      rfl
    · rw [added, List.any_cons, Bool.or_assoc]
    · rw [added, List.any_cons, Bool.or_assoc]

theorem addedAll_length (hall : FitsAll st pos fs) : (addedAll st pos fs).contentLength =
    if st.haveLength then st.contentLength
    else ((fs.find? (named "content-length")).map fun f => decimal (fieldValue f)).getD st.contentLength := by
  induction fs generalizing st pos with
  | nil => exact (ite_self _).symm
  | cons f fs ih =>
    obtain ⟨hf, hrest⟩ := hall
    rw [addedAll, ih hrest]
    by_cases hlength : named "content-length" f = true
    · obtain ⟨-, -, -, hsame⟩ := hf.length hlength
      rw [List.find?_cons_of_pos hlength]
      simp only [added, hlength, Bool.or_true, if_true, Option.map_some, Option.getD_some]
      split
      next hhave => exact hsame hhave
      · rfl
    · rw [List.find?_cons_of_neg hlength]
      rw [Bool.not_eq_true] at hlength
      simp only [added, hlength, Bool.or_false, Bool.false_eq_true, if_false]

/-- Which fields are accepted after others. -/
theorem fitsAll_iff (hfew : st.headers.length ≤ maxHeaders) : FitsAll st pos fs ↔
    (∀ f ∈ fs, Token f.1 ∧ (∀ c ∈ fieldValue f, (0x20 ≤ c ∨ c = 9) ∧ c ≠ 0x7F) ∧ named "transfer-encoding" f = false ∧
      (named "content-length" f = true → fieldValue f ≠ [] ∧ (fieldValue f).all isAsciiDigit = true ∧
        decimal (fieldValue f) < 2 ^ 32)) ∧
    st.headers.length + fs.length ≤ maxHeaders ∧
    ∃ n, (st.haveLength = true → n = st.contentLength) ∧
      ∀ f ∈ fs, named "content-length" f = true → decimal (fieldValue f) = n := by
  induction fs generalizing st pos with
  | nil =>
    refine ⟨fun _ => ⟨?_, hfew, st.contentLength, fun _ => rfl, ?_⟩, fun _ => trivial⟩
    · rintro f ⟨⟩
    · rintro f ⟨⟩
  | cons f fs ih =>
    have hmore : (added st pos f).headers.length = st.headers.length + 1 := by
      rw [added, List.length_append, List.length_singleton]
    constructor
    · rintro ⟨hf, hrest⟩
      have hlt : st.headers.length < maxHeaders := lt_of_le_of_ne hfew hf.few
      obtain ⟨hfields, hcount, n, hhave, hall⟩ := (ih (by rw [hmore]; exact hlt)).mp hrest
      refine ⟨List.forall_mem_cons.mpr ⟨⟨hf.name, hf.value, hf.uncoded, fun hlength => ?_⟩, hfields⟩, ?_, n, fun hyes => ?_, ?_⟩
      · obtain ⟨hne, hdigits, hlt, -⟩ := hf.length hlength
        exact ⟨hne, hdigits, hlt⟩
      · rw [hmore] at hcount
        rw [List.length_cons]
        omega
      · have hn := hhave (by rw [added, hyes, Bool.true_or])
        rw [hn, added]
        dsimp only
        split
        next hlength => exact (hf.length hlength).2.2.2 hyes
        · rfl
      · refine List.forall_mem_cons.mpr ⟨fun hlength => ?_, hall⟩
        have hn := hhave (by rw [added, hlength, Bool.or_true])
        rw [hn, added]
        exact (if_pos hlength).symm
    · rintro ⟨hfields, hcount, n, hhave, hall⟩
      obtain ⟨⟨hname, hvalue, hcoded, hlength⟩, hfields⟩ := List.forall_mem_cons.mp hfields
      obtain ⟨hn, hall⟩ := List.forall_mem_cons.mp hall
      rw [List.length_cons] at hcount
      refine ⟨⟨hname, hvalue, by omega, hcoded, fun hyes => ?_⟩, (ih (by rw [hmore]; omega)).mpr ⟨hfields, ?_, n, fun hyes => ?_, hall⟩⟩
      · obtain ⟨hne, hdigits, hlt⟩ := hlength hyes
        exact ⟨hne, hdigits, hlt, fun hh => (hn hyes).trans (hhave hh)⟩
      · rw [hmore]
        omega
      · rw [added]
        dsimp only
        split
        next hnamed => exact (hn hnamed).symm
        next hnamed =>
          rw [added, Bool.eq_false_iff.mpr hnamed, Bool.or_false] at hyes
          exact hhave hyes

/-! ## The request line -/

/-- A request line that is accepted. -/
structure LineOk (method target version : Bytes) : Prop where
  name : Token method ∧ method.length ≤ methodMax
  visible : target.head? = some 47 ∧ ∀ c ∈ target, 0x20 < c ∧ c < 0x7F
  path : (target.takeWhile (· != 63)).length ≤ pathMax
  known : version = utf8 "HTTP/1.1" ∨ version = utf8 "HTTP/1.0"

theorem visible_iff {s : Bytes} : (s.any fun c => c ≤ 0x20 || 0x7F ≤ c) = false ↔ ∀ c ∈ s, 0x20 < c ∧ c < 0x7F := by
  have hall : ∀ c : Byte, (c ≤ 0x20 || 0x7F ≤ c) = false ↔ 0x20 < c ∧ c < 0x7F := forall_byte (by decide +kernel)
  rw [List.any_eq_false]
  refine forall_congr' fun c => forall_congr' fun _ => ?_
  rw [Bool.not_eq_true, hall]

theorem visible_plain : ∀ c : Byte, 0x20 < c ∧ c < 0x7F → c ≠ 13 ∧ c ≠ 10 ∧ c ≠ 32 := forall_byte (by decide +kernel)

/-- The request line, read where its text stands. -/
theorem requestLine_text {method target version : Bytes} (hdata : data = block ++ 13 :: 10 :: more)
    (htext : block ++ [13, 10] = method ++ 32 :: (target ++ 32 :: (version ++ 13 :: 10 :: tail))) (h : LineOk method target version) :
    requestLine data block = .ok ⟨method, target.takeWhile (· != 63), version == utf8 "HTTP/1.1",
      method.length + 1 + target.length + 1 + version.length⟩ := by
  have hmethod (c : Byte) (hc : c ∈ method) := tchar_plain c (List.all_eq_true.mp h.name.1.2 c hc)
  have htarget (c : Byte) (hc : c ∈ target) := visible_plain c (h.visible.2 c hc)
  have hversions : (∀ c ∈ utf8 "HTTP/1.1", c ≠ 13) ∧ ∀ c ∈ utf8 "HTTP/1.0", c ≠ 13 := by decide
  have hversion : ∀ c ∈ version, c ≠ 13 := by
    rcases h.known with rfl | rfl
    · exact hversions.1
    · exact hversions.2
  have hno : (13 : Byte) ∉ 32 :: (target ++ 32 :: version) := by
    simp only [List.mem_cons, List.mem_append, not_or]
    exact ⟨by decide, fun hmem => (htarget 13 hmem).1 rfl, by decide, fun hmem => hversion 13 hmem rfl⟩
  have hlen := congrArg List.length htext
  simp only [List.length_append, List.length_cons, List.length_nil] at hlen
  have hinside : method.length < block.length := by omega
  -- the block starts with the line
  have hline : (block ++ [13, 10]).drop method.length = (32 :: (target ++ 32 :: version)) ++ 13 :: 10 :: tail := by
    rw [htext, List.drop_left]
    simp
  obtain ⟨hend, -, hok⟩ := line_split rfl (Nat.le_of_lt hinside) hdata hno hline
  have hprefix : method ++ 32 :: (target ++ 32 :: version) <+: block := by
    refine @List.prefix_of_prefix_length_le _ _ _ (block ++ [13, 10]) ⟨13 :: 10 :: tail, ?_⟩ (List.prefix_append _ _) ?_
    · rw [htext]
      simp
    · simp only [List.length_append, List.length_cons]
      omega
  obtain ⟨rest, hrest⟩ := hprefix
  have hlinelen : method.length + (32 :: (target ++ 32 :: version)).length = method.length + 1 + target.length + 1 + version.length := by
    simp only [List.length_append, List.length_cons]
    omega
  have htake : block.take (method.length + 1 + target.length + 1 + version.length) = method ++ 32 :: (target ++ 32 :: version) := by
    rw [← hrest, ← hlinelen, ← List.length_append, List.take_left]
  have hfound : block.findIdx? (· == 32) = some method.length := by
    rw [← hrest, List.append_assoc]
    exact byte_found fun c hc => (hmethod c hc).2.2.2.1
  have hname : block.take method.length = method := by rw [← hrest, List.append_assoc, List.take_left]
  have hgood : ¬ (method.length = 0 ∨ methodMax < method.length ∨ (!method.all isTchar) = true) := by
    rw [h.name.1.2]
    rintro (hzero | hlong | hno)
    · exact h.name.1.1 (List.length_eq_zero_iff.mp hzero)
    · exact Nat.not_lt.mpr h.name.2 hlong
    · exact Bool.false_ne_true hno
  have hdrop : (method ++ 32 :: (target ++ 32 :: version)).drop (method.length + 1) = target ++ 32 :: version := by
    rw [List.drop_append]
    simp
  have hsecond : (target ++ 32 :: version).findIdx? (· == 32) = some target.length :=
    byte_found fun c hc => (htarget c hc).2.2
  have hcut : ((method ++ 32 :: (target ++ 32 :: version)).take (method.length + 1 + target.length)).drop (method.length + 1) =
      target := by
    rw [List.drop_take, hdrop, Nat.add_sub_cancel_left, List.take_left]
  have hversionText : (method ++ 32 :: (target ++ 32 :: version)).drop (method.length + 1 + target.length + 1) = version := by
    rw [Nat.add_assoc (method.length + 1), ← List.drop_drop, hdrop, List.drop_append]
    simp
  unfold requestLine
  rw [hfound]
  dsimp only
  rw [hname, if_neg hgood, hend, if_neg hok, hlinelen, htake, hdrop, hsecond]
  dsimp only
  rw [hcut, if_neg, if_neg (Nat.not_lt.mpr h.path), hversionText]
  · rcases h.known with rfl | rfl
    · rw [if_pos rfl]
      rfl
    · rw [if_neg (by decide), if_pos rfl]
      rfl
  · rw [(visible_iff).mpr h.visible.2]
    rintro (hhead | hno)
    · exact hhead h.visible.1
    · exact Bool.false_ne_true hno

/-- A request line that is accepted has a text. -/
theorem requestLine_ok {line : RequestLine} (hdata : data = block ++ 13 :: 10 :: more) (h : requestLine data block = .ok line) :
    ∃ method target version tail, block ++ [13, 10] = method ++ 32 :: (target ++ 32 :: (version ++ 13 :: 10 :: tail)) ∧
      LineOk method target version := by
  unfold requestLine at h
  split at h
  · cases h
  next sp1 hsp1 =>
  split at h
  · cases h
  next hmethod =>
  dsimp only at h
  split at h
  · cases h
  next hcr =>
  have hlt : sp1 < block.length := (List.findIdx?_eq_some_iff_getElem.mp hsp1).1
  obtain ⟨l, tail, hno, htext⟩ := line_exists rfl (Nat.le_of_lt hlt) hdata hcr
  obtain ⟨hend, hcut, -⟩ := line_split rfl (Nat.le_of_lt hlt) hdata hno htext
  rw [hend] at h
  have htake : block.take (sp1 + l.length) = block.take sp1 ++ l := by
    conv =>
      lhs
      rw [← List.take_append_drop sp1 (block.take (sp1 + l.length)), hcut, List.take_take, Nat.min_eq_left (Nat.le_add_right _ _)]
  have hmlen : (block.take sp1).length = sp1 := List.length_take_of_le (Nat.le_of_lt hlt)
  have hwhole : block ++ [13, 10] = block.take sp1 ++ (l ++ 13 :: 10 :: tail) := by
    rw [← htext]
    conv => lhs; rw [← List.take_append_drop sp1 (block ++ [13, 10]), List.take_append_of_le_length (Nat.le_of_lt hlt)]
  -- what follows the method is a space
  have hspace := byte_split hsp1
  obtain ⟨l, rfl⟩ : ∃ l', l = 32 :: l' := by
    have hdrop : (block ++ [13, 10]).drop sp1 = 32 :: (block.drop (sp1 + 1) ++ [13, 10]) := by
      conv => lhs; rw [hspace]
      rw [List.append_assoc, List.drop_append_of_le_length (by rw [hmlen]), List.drop_take]
      simp
    rw [hdrop] at htext
    cases l with
    | nil => cases (List.cons.inj htext).1
    | cons c l' =>
      cases (List.cons.inj htext).1
      exact ⟨l', rfl⟩
  have hline : (block.take sp1 ++ 32 :: l).drop (sp1 + 1) = l := by
    rw [List.drop_append, hmlen, List.drop_take]
    simp
  rw [htake, hline] at h
  split at h
  · cases h
  next i hi =>
  have hsplit := byte_split hi
  have hilen : i < l.length := (List.findIdx?_eq_some_iff_getElem.mp hi).1
  have htarget : ((block.take sp1 ++ 32 :: l).take (sp1 + 1 + i)).drop (sp1 + 1) = l.take i := by
    rw [List.drop_take, hline, Nat.add_sub_cancel_left]
  have hversion : (block.take sp1 ++ 32 :: l).drop (sp1 + 1 + i + 1) = l.drop (i + 1) := by
    rw [Nat.add_assoc (sp1 + 1), ← List.drop_drop, hline]
  rw [htarget, hversion] at h
  split at h
  · cases h
  next hvisible =>
  split at h
  · cases h
  next hpath =>
  rw [not_or, not_ne_iff, Bool.not_eq_true] at hvisible
  rw [not_or, not_or, Bool.not_eq_true', Bool.not_eq_false] at hmethod
  refine ⟨block.take sp1, l.take i, l.drop (i + 1), tail, ?_, ⟨⟨⟨fun hnil => ?_, hmethod.2.2⟩, ?_⟩, ?_, Nat.not_lt.mp hpath, ?_⟩⟩
  · conv => lhs; rw [hwhole, hsplit]
    simp
  · rw [hnil] at hmlen
    exact hmethod.1 hmlen.symm
  · rw [hmlen]
    exact Nat.not_lt.mp hmethod.2.1
  · exact ⟨hvisible.1, (visible_iff).mp hvisible.2⟩
  · split at h
    next heq => exact .inl heq
    · split at h
      next heq => exact .inr heq
      · cases h

/-! ## The blank line -/

theorem blank_skip (hl : (13 : Byte) ∉ l) (tail : Bytes) :
    findSub blankLine (l ++ tail) = (findSub blankLine tail).map (· + l.length) := by
  induction l with
  | nil => simp
  | cons c l ih =>
    rw [List.mem_cons, not_or] at hl
    have hnot : ¬ blankLine.isPrefixOf (c :: (l ++ tail)) = true := by
      rw [List.isPrefixOf_iff_prefix, blankLine, List.cons_prefix_cons]
      exact fun hstarts => hl.1 hstarts.1
    rw [List.cons_append, findSub, if_neg hnot, ih hl.2, Option.map_map, List.length_cons]
    rfl

/-- Lines that are not empty end at the first blank one. -/
theorem blank_found (ls : List Bytes) (hne : ls ≠ []) (hls : ∀ l ∈ ls, l ≠ [] ∧ (13 : Byte) ∉ l) (rest : Bytes) :
    findSub blankLine (ls.flatMap (fun l => l ++ [13, 10]) ++ 13 :: 10 :: rest) =
      some ((ls.flatMap fun l => l ++ [13, 10]).length - 2) := by
  induction ls with
  | nil => exact absurd rfl hne
  | cons l ls ih =>
    obtain ⟨hl, hls⟩ := List.forall_mem_cons.mp hls
    rw [List.flatMap_cons, List.append_assoc, List.append_assoc, blank_skip hl.2]
    cases ls with
    | nil =>
      have hhere : findSub blankLine ([13, 10] ++ ([].flatMap (fun l : Bytes => l ++ [13, 10]) ++ 13 :: 10 :: rest)) = some 0 :=
        if_pos (List.isPrefixOf_iff_prefix.mpr ⟨rest, rfl⟩)
      rw [hhere]
      simp
    | cons l' ls =>
      have hrest := ih (List.cons_ne_nil l' ls) hls
      obtain ⟨c, more, hc, hmore⟩ : ∃ c more, c ≠ 13 ∧
          ((l' :: ls).flatMap fun l => l ++ [13, 10]) ++ 13 :: 10 :: rest = c :: more := by
        obtain ⟨hl', -⟩ := List.forall_mem_cons.mp hls
        cases hcons : l' with
        | nil => exact absurd hcons hl'.1
        | cons c l'' =>
          rw [hcons, List.mem_cons, not_or] at hl'
          exact ⟨c, _, fun heq => hl'.2.1 heq.symm, rfl⟩
      have hstep : findSub blankLine ([13, 10] ++ (((l' :: ls).flatMap fun l => l ++ [13, 10]) ++ 13 :: 10 :: rest)) =
          (findSub blankLine (((l' :: ls).flatMap fun l => l ++ [13, 10]) ++ 13 :: 10 :: rest)).map (· + 2) := by
        rw [hmore]
        have hnot : ¬ blankLine.isPrefixOf (13 :: 10 :: c :: more) = true := by
          rw [List.isPrefixOf_iff_prefix, blankLine, List.cons_prefix_cons, List.cons_prefix_cons, List.cons_prefix_cons]
          exact fun hstarts => hc hstarts.2.2.1.symm
        have hnot' : ¬ blankLine.isPrefixOf (10 :: c :: more) = true := by
          rw [List.isPrefixOf_iff_prefix, blankLine, List.cons_prefix_cons]
          exact fun hstarts => absurd hstarts.1 (by decide)
        show findSub blankLine (13 :: 10 :: c :: more) = _
        rw [findSub, if_neg hnot, findSub, if_neg hnot', Option.map_map]
        rfl
      have hlen : 2 ≤ ((l' :: ls).flatMap fun l => l ++ [13, 10]).length := by
        rw [List.flatMap_cons, List.length_append, List.length_append]
        exact Nat.le_add_right_of_le (Nat.le_add_left _ _)
      rw [hstep, hrest, Option.map_some, Option.map_some, List.length_append, List.length_append]
      congr 1
      simp only [List.length_cons, List.length_nil]
      omega

/-- Where the blank line was found. -/
theorem blank_split (h : findSub blankLine (data.take maxHeaderBytes) = some stop) :
    data = data.take stop ++ 13 :: 10 :: 13 :: 10 :: data.drop (stop + 4) ∧ (data.take stop).length = stop ∧
      ¬ [13, 10] <:+ data.take stop := by
  obtain ⟨hstarts, hlen⟩ := findSub_eq_some h
  have hbounds := HttpLemmas.blankLine_bounds h
  have hdrop : blankLine <+: data.drop stop := by
    rw [List.drop_take] at hstarts
    exact hstarts.trans (List.take_prefix _ _)
  obtain ⟨rest, hrest⟩ := hdrop
  have hblock : (data.take stop).length = stop := List.length_take_of_le (by omega)
  have hmore : data.drop (stop + 4) = rest := by
    rw [← List.drop_drop, ← hrest]
    rfl
  refine ⟨?_, hblock, ?_⟩
  · rw [hmore]
    conv => lhs; rw [← List.take_append_drop stop data, ← hrest]
    rfl
  · -- an earlier blank line would have been found
    rintro ⟨front, hfront⟩
    have hlen' := congrArg List.length hfront
    rw [List.length_append, hblock] at hlen'
    have htwo : ([13, 10] : Bytes).length = 2 := rfl
    refine findSub_first h front.length (by omega) ?_
    obtain ⟨more, hwhole⟩ : ∃ more, data.take maxHeaderBytes = data.take stop ++ 13 :: 10 :: more := by
      obtain ⟨rest', hrest'⟩ := hstarts
      refine ⟨13 :: 10 :: rest', ?_⟩
      conv => lhs; rw [← List.take_append_drop stop (data.take maxHeaderBytes), ← hrest', List.take_take]
      rw [Nat.min_eq_left (by omega)]
      rfl
    rw [hwhole, ← hfront, List.append_assoc, List.drop_left]
    exact ⟨more, rfl⟩

/-! ## Ranges -/

theorem trimOws_split (s : Bytes) : ∃ trail, s.drop (trimOws s).1 = (trimOws s).2 ++ trail := by
  refine ⟨((s.dropWhile isOws).reverse.takeWhile isOws).reverse, ?_⟩
  show s.drop (s.takeWhile isOws).length = ((s.dropWhile isOws).reverse.dropWhile isOws).reverse ++ _
  rw [← List.reverse_append, List.takeWhile_append_dropWhile, List.reverse_reverse]
  have hsplit : s.takeWhile isOws ++ s.dropWhile isOws = s := List.takeWhile_append_dropWhile
  exact (congrArg (List.drop _) hsplit.symm).trans List.drop_left

/-- The ranges are inside, and of the names and the values. -/
theorem spans_denote (htext : data.drop pos = fs.flatMap fieldText ++ more) (hpos : pos ≤ data.length) :
    (spansFrom pos fs).map (fun h => (span data h.1, span data h.2)) = fs.map (fun f => (f.1, fieldValue f)) ∧
      ∀ h ∈ spansFrom pos fs, h.1.1 ≤ h.1.2 ∧ h.2.1 ≤ h.2.2 ∧ h.1.2 ≤ pos + (fs.flatMap fieldText).length ∧
        h.2.2 ≤ pos + (fs.flatMap fieldText).length := by
  induction fs generalizing pos with
  | nil =>
    refine ⟨rfl, ?_⟩
    rintro h ⟨⟩
  | cons f fs ih =>
    rw [List.flatMap_cons, List.append_assoc] at htext
    have hlen := congrArg List.length htext
    rw [List.length_drop, List.length_append] at hlen
    have hrest : data.drop (pos + (fieldText f).length) = fs.flatMap fieldText ++ more := by
      rw [← List.drop_drop, htext, List.drop_left]
    obtain ⟨hmap, hin⟩ := ih hrest (by omega)
    obtain ⟨trail, htrail⟩ := trimOws_split f.2
    have hvalueLen : (trimOws f.2).1 + (fieldValue f).length ≤ f.2.length := HttpLemmas.length_trimOws f.2
    have hname : span data (pos, pos + f.1.length) = f.1 := by
      show (data.take (pos + f.1.length)).drop pos = f.1
      rw [List.drop_take, Nat.add_sub_cancel_left, htext, fieldText, List.append_assoc, List.take_left]
    have hvalue : span data (pos + f.1.length + 1 + (trimOws f.2).1, pos + f.1.length + 1 + (trimOws f.2).1 + (fieldValue f).length) =
        fieldValue f := by
      have hafter : data.drop (pos + f.1.length + 1) = f.2 ++ (13 :: 10 :: (fs.flatMap fieldText ++ more)) := by
        rw [Nat.add_assoc, ← List.drop_drop, htext, fieldText_cut, List.append_assoc, List.cons_append, List.drop_append]
        simp
      show (data.take _).drop _ = _
      rw [List.drop_take, Nat.add_sub_cancel_left, ← List.drop_drop, hafter,
        List.drop_append_of_le_length (by omega), htrail, List.append_assoc]
      exact List.take_left
    refine ⟨?_, ?_⟩
    · rw [spansFrom, List.map_cons, List.map_cons, hmap, hname, hvalue]
    · intro h hh
      rw [List.flatMap_cons, List.length_append]
      rw [fieldText_length] at hin ⊢
      rcases List.mem_cons.mp hh with rfl | hh
      · dsimp only
        omega
      · rw [fieldText_length] at hh
        have hbounds := hin h hh
        omega

/-! ## Texts and blocks -/

variable {t : HeadText} {rest : Bytes}

theorem line_length (t : HeadText) : t.line.length = t.method.length + 1 + t.target.length + 1 + t.version.length + 2 := by
  simp only [HeadText.line, List.length_append, List.length_cons, List.length_nil]
  omega

/-- A head is its block, the line break of the last line, and the empty line. -/
theorem bytes_block (h : block ++ [13, 10] = t.line ++ t.fields.flatMap fieldText) (rest : Bytes) :
    t.bytes ++ rest = block ++ 13 :: 10 :: 13 :: 10 :: rest ∧ t.bytes.length = block.length + 4 := by
  have hbytes : t.bytes = (block ++ [13, 10]) ++ [13, 10] := by rw [h, HeadText.bytes, List.append_assoc]
  rw [hbytes]
  simp

theorem lineOk_of (hframed : t.Framed) (hwithin : t.Within) (hserved : t.Served) : LineOk t.method t.target t.version :=
  ⟨⟨hframed.method, hwithin.method⟩, hserved.target, hwithin.path, hserved.version⟩

theorem fields_count (fs : List (Bytes × Bytes)) : fs.length ≤ (fs.flatMap fieldText).length := by
  induction fs with
  | nil => exact Nat.le_refl 0
  | cons f fs ih =>
    rw [List.flatMap_cons, List.length_append, fieldText_length, List.length_cons]
    omega

/-- What is read of the block of a head. -/
theorem block_text (hblock : block.length = stop) (hdata : data = block ++ 13 :: 10 :: more)
    (htext : block ++ [13, 10] = t.line ++ t.fields.flatMap fieldText) (hline : LineOk t.method t.target t.version)
    (hall : FitsAll ⟨[], 0, false, false, false⟩ t.line.length t.fields) (htake : data.take stop = block) :
    parseBlock data stop = .complete t.head := by
  have hrequest : block ++ [13, 10] =
      t.method ++ 32 :: (t.target ++ 32 :: (t.version ++ 13 :: 10 :: t.fields.flatMap fieldText)) := by
    rw [htext, HeadText.line]
    simp
  have hlen := congrArg List.length htext
  rw [List.length_append, List.length_append, hblock] at hlen
  have hlinelen := line_length t
  have htwo : ([13, 10] : Bytes).length = 2 := rfl
  have hcount := fields_count t.fields
  have hfields := fields_text hblock hdata stop (by omega)
    (by rw [htext, List.drop_left] : (block ++ [13, 10]).drop t.line.length = t.fields.flatMap fieldText) hall (by omega)
  obtain ⟨hheaders, hclose, hkeep⟩ := addedAll_eq ⟨[], 0, false, false, false⟩ t.line.length t.fields
  have hlength := addedAll_length hall
  unfold parseBlock
  dsimp only
  rw [htake, requestLine_text hdata hrequest hline]
  dsimp only
  rw [← hlinelen, hfields]
  dsimp only
  rw [hheaders, hclose, hkeep, hlength]
  simp only [HeadText.head, (bytes_block htext []).2, hblock, HeadText.asks, Bool.false_or, List.nil_append, Bool.false_eq_true,
    if_false]

/-- The fields of a head that fit are those of one that can be read in one way. -/
theorem fits_iff (pos : Nat) : FitsAll ⟨[], 0, false, false, false⟩ pos fs ↔
    (∀ f ∈ fs, Token f.1 ∧ (∀ c ∈ fieldValue f, (0x20 ≤ c ∨ c = 9) ∧ c ≠ 0x7F) ∧ named "transfer-encoding" f = false ∧
      (named "content-length" f = true → fieldValue f ≠ [] ∧ (fieldValue f).all isAsciiDigit = true ∧
        decimal (fieldValue f) < 2 ^ 32)) ∧
    fs.length ≤ maxHeaders ∧ ∃ n, ∀ f ∈ fs, named "content-length" f = true → decimal (fieldValue f) = n := by
  rw [fitsAll_iff (Nat.zero_le _)]
  simp only [List.length_nil, Nat.zero_add, Bool.false_eq_true, false_implies, true_and]

/-- The texts of the lines of a head. -/
theorem bytes_lines (hline : LineOk t.method t.target t.version) (hnames : ∀ f ∈ t.fields, Token f.1)
    (hvalues : ∀ f ∈ t.fields, ∀ c ∈ fieldValue f, (0x20 ≤ c ∨ c = 9) ∧ c ≠ 0x7F) :
    findSub blankLine (t.bytes ++ rest) = some ((t.line ++ t.fields.flatMap fieldText).length - 2) := by
  have hfirst : t.method ++ 32 :: (t.target ++ 32 :: t.version) ≠ [] ∧
      (13 : Byte) ∉ t.method ++ 32 :: (t.target ++ 32 :: t.version) := by
    have hversions : (13 : Byte) ∉ utf8 "HTTP/1.1" ∧ (13 : Byte) ∉ utf8 "HTTP/1.0" := by decide
    refine ⟨by simp, ?_⟩
    simp only [List.mem_append, List.mem_cons, not_or]
    refine ⟨fun hmem => (tchar_plain 13 (List.all_eq_true.mp hline.name.1.2 13 hmem)).1 rfl, by decide,
      fun hmem => (visible_plain 13 (hline.visible.2 13 hmem)).1 rfl, by decide, ?_⟩
    rcases hline.known with h | h
    · rw [h]
      exact hversions.1
    · rw [h]
      exact hversions.2
  have hothers : ∀ l ∈ t.fields.map fun f => f.1 ++ 58 :: f.2, l ≠ [] ∧ (13 : Byte) ∉ l := by
    intro l hl
    obtain ⟨f, hf, rfl⟩ := List.mem_map.mp hl
    refine ⟨by simp, ?_⟩
    simp only [List.mem_append, List.mem_cons, not_or]
    exact ⟨fun hmem => (tchar_plain 13 (List.all_eq_true.mp (hnames f hf).2 13 hmem)).1 rfl, by decide,
      fun hmem => (rest_plain (hvalues f hf) 13 hmem).1 rfl⟩
  have htext : ((t.method ++ 32 :: (t.target ++ 32 :: t.version)) :: t.fields.map fun f => f.1 ++ 58 :: f.2).flatMap
      (fun l => l ++ [13, 10]) = t.line ++ t.fields.flatMap fieldText := by
    rw [List.flatMap_cons, List.flatMap_map, HeadText.line]
    congr 1
    · simp
    · refine congrArg (t.fields.flatMap ·) ?_
      funext f
      simp [fieldText]
  have hfound := blank_found _ (List.cons_ne_nil _ _) (List.forall_mem_cons.mpr ⟨hfirst, hothers⟩) rest
  rw [htext] at hfound
  rw [← hfound, HeadText.bytes]
  congr 1
  simp

/-- A head that is complete has a text. -/
theorem complete_text {head : Head} (h : parseHead data = .complete head) : ∃ (t : HeadText) (rest : Bytes),
    data = t.bytes ++ rest ∧ t.bytes.length ≤ maxHeaderBytes ∧ LineOk t.method t.target t.version ∧
      FitsAll ⟨[], 0, false, false, false⟩ t.line.length t.fields ∧ head = t.head := by
  unfold parseHead at h
  split at h
  · split at h
    · cases h
    · cases h
  next stop hfind =>
  obtain ⟨hdata, hblock, hlast⟩ := blank_split hfind
  have hbounds := HttpLemmas.blankLine_bounds hfind
  have hcomplete := h
  unfold parseBlock at h
  dsimp only at h
  split at h
  · cases h
  next line hrequest =>
  split at h
  · cases h
  next st hfields =>
  obtain ⟨method, target, version, tail, htext, hline⟩ := requestLine_ok hdata hrequest
  cases hrequest.symm.trans (requestLine_text hdata htext hline)
  have hfirst : (data.take stop ++ [13, 10]).drop 0 = (method ++ 32 :: (target ++ 32 :: version)) ++ 13 :: 10 :: tail := by
    rw [List.drop_zero, htext]
    simp
  obtain ⟨hnext, htail⟩ := after_break hblock hlast (Nat.zero_le _) hfirst
  have hpos : 0 + (method ++ 32 :: (target ++ 32 :: version)).length + 2 =
      method.length + 1 + target.length + 1 + version.length + 2 := by
    simp only [List.length_append, List.length_cons]
    omega
  rw [hpos] at hnext htail
  obtain ⟨fs, hfs, hall, -⟩ := fields_ok hblock hlast hdata stop hnext (by omega) hfields
  rw [htail] at hfs
  subst hfs
  have hlines : data.take stop ++ [13, 10] = HeadText.line ⟨method, target, version, fs⟩ ++ fs.flatMap fieldText := by
    rw [htext, HeadText.line]
    simp
  have hlength := line_length ⟨method, target, version, fs⟩
  dsimp only at hlength
  rw [← hlength] at hall
  have hhead := @block_text _ _ _ _ ⟨method, target, version, fs⟩ hblock hdata hlines hline hall rfl
  rw [hcomplete] at hhead
  obtain ⟨hwhole, hlen⟩ := @bytes_block _ ⟨method, target, version, fs⟩ hlines (data.drop (stop + 4))
  rw [hblock] at hlen
  refine ⟨⟨method, target, version, fs⟩, data.drop (stop + 4), ?_, ?_, hline, hall, Parse.complete.inj hhead⟩
  · rw [hwhole]
    exact hdata
  · rw [hlen]
    exact hbounds.2

/-- A text with lines that are accepted is a complete head. -/
theorem text_complete (hbytes : t.bytes.length ≤ maxHeaderBytes) (hline : LineOk t.method t.target t.version)
    (hall : FitsAll ⟨[], 0, false, false, false⟩ t.line.length t.fields) (rest : Bytes) :
    parseHead (t.bytes ++ rest) = .complete t.head := by
  obtain ⟨hfits, -⟩ := (fits_iff _).mp hall
  have htake : (t.bytes ++ rest).take maxHeaderBytes = t.bytes ++ rest.take (maxHeaderBytes - t.bytes.length) := by
    rw [List.take_append, List.take_of_length_le hbytes]
  have hfind : findSub blankLine ((t.bytes ++ rest).take maxHeaderBytes) =
      some ((t.line ++ t.fields.flatMap fieldText).length - 2) := by
    rw [htake]
    exact bytes_lines hline (fun f hf => (hfits f hf).1) fun f hf => (hfits f hf).2.1
  obtain ⟨hdata, hblock, -⟩ := blank_split hfind
  have hlinelen := line_length t
  -- the block and the line break of its last line are the lines of the head
  have htext : (t.bytes ++ rest).take ((t.line ++ t.fields.flatMap fieldText).length - 2) ++ [13, 10] =
      t.line ++ t.fields.flatMap fieldText := by
    have hwhole : (t.line ++ t.fields.flatMap fieldText) ++ 13 :: 10 :: rest = t.bytes ++ rest := by
      rw [HeadText.bytes]
      simp
    have hsame := hwhole.trans (hdata.trans (List.append_cons _ _ _))
    rw [List.append_cons _ 10] at hsame
    refine ((List.append_inj hsame ?_).1.trans ?_).symm
    · simp only [List.length_append, List.length_cons, List.length_nil] at hblock ⊢
      rw [hblock]
      omega
    · simp
  unfold parseHead
  rw [hfind]
  exact block_text hblock hdata htext hline hall rfl

end HeadsLemmas

open HeadsLemmas

/-- The heads that are complete: those that can be read in one way, within the limits, and that
the server serves. The stored ranges are inside the head, and of its names and values. -/
theorem head_exact (data : Bytes) (head : Head) : parseHead data = .complete head ↔
    ∃ (t : HeadText) (rest : Bytes), data = t.bytes ++ rest ∧ t.Framed ∧ t.Within ∧ t.Served ∧ head = t.head ∧
      head.headers.map (fun h => (span data h.1, span data h.2)) = t.fields.map (fun f => (f.1, fieldValue f)) ∧
      ∀ h ∈ head.headers, h.1.1 ≤ h.1.2 ∧ h.2.1 ≤ h.2.2 ∧ h.1.2 ≤ head.headLen ∧ h.2.2 ≤ head.headLen := by
  constructor
  · intro h
    obtain ⟨t, rest, rfl, hbytes, hline, hall, rfl⟩ := complete_text h
    obtain ⟨hfits, hfew, n, hn⟩ := (fits_iff _).mp hall
    have hversions : (∀ c ∈ utf8 "HTTP/1.1", c ≠ 13 ∧ c ≠ 10) ∧ ∀ c ∈ utf8 "HTTP/1.0", c ≠ 13 ∧ c ≠ 10 := by decide
    have hunbroken : ∀ c ∈ t.target ++ t.version ++ t.fields.flatMap Prod.snd, c ≠ 13 ∧ c ≠ 10 := by
      simp only [List.forall_mem_append]
      refine ⟨⟨fun c hc => ?_, ?_⟩, fun c hc => ?_⟩
      · obtain ⟨hcr, hlf, -⟩ := visible_plain c (hline.visible.2 c hc)
        exact ⟨hcr, hlf⟩
      · rcases hline.known with h | h
        · rw [h]
          exact hversions.1
        · rw [h]
          exact hversions.2
      · obtain ⟨f, hf, hcf⟩ := List.mem_flatMap.mp hc
        exact rest_plain (hfits f hf).2.1 c hcf
    have hframed : t.Framed := by
      refine ⟨hline.name.1, hunbroken, fun f hf => (hfits f hf).1, hfew, fun f hf => (hfits f hf).2.2.1, n, fun f hf hnamed => ?_⟩
      obtain ⟨hne, hdigits, -⟩ := (hfits f hf).2.2.2 hnamed
      exact ⟨hne, hdigits, hn f hf hnamed⟩
    have hwithin : t.Within := ⟨hline.name.2, hline.path, fun f hf hnamed => ((hfits f hf).2.2.2 hnamed).2.2, hbytes⟩
    have hserved : t.Served := ⟨hline.visible, hline.known, fun f hf => (hfits f hf).2.1⟩
    have hwhole : t.bytes ++ rest = t.line ++ (t.fields.flatMap fieldText ++ ([13, 10] ++ rest)) := by
      rw [HeadText.bytes]
      simp
    have hlen : t.bytes.length = t.line.length + (t.fields.flatMap fieldText).length + 2 := by
      rw [HeadText.bytes, List.length_append, List.length_append]
      rfl
    have hfrom : (t.bytes ++ rest).drop t.line.length = t.fields.flatMap fieldText ++ ([13, 10] ++ rest) := by
      rw [hwhole, List.drop_left]
    obtain ⟨hmap, hinside⟩ := spans_denote hfrom (by rw [List.length_append]; omega)
    refine ⟨t, rest, rfl, hframed, hwithin, hserved, rfl, hmap, fun h hh => ?_⟩
    have hbounds := hinside h hh
    show _ ∧ _ ∧ _ ≤ t.bytes.length ∧ _ ≤ t.bytes.length
    omega
  · rintro ⟨t, rest, rfl, hframed, hwithin, hserved, rfl, -⟩
    obtain ⟨n, hlength⟩ := hframed.length
    refine text_complete hwithin.bytes (lineOk_of hframed hwithin hserved) ((fits_iff _).mpr ⟨fun f hf => ?_, hframed.few, n, ?_⟩) rest
    · refine ⟨hframed.names f hf, hserved.values f hf, hframed.uncoded f hf, fun hnamed => ?_⟩
      obtain ⟨hne, hdigits, -⟩ := hlength f hf hnamed
      exact ⟨hne, hdigits, hwithin.length f hf hnamed⟩
    · exact fun f hf hnamed => (hlength f hf hnamed).2.2

/-- The server as a whole is not a path. -/
theorem asterisk_refused : ¬ ∀ (t : HeadText) (rest : Bytes), t.Framed → t.Within →
    ∃ head, parseHead (t.bytes ++ rest) = .complete head := by
  intro h
  have hframed : HeadText.Framed ⟨utf8 "OPTIONS", utf8 "*", utf8 "HTTP/1.1", []⟩ := by
    refine ⟨⟨by decide, by decide⟩, by decide, ?_, by decide, ?_, 0, ?_⟩
    · rintro f ⟨⟩
    · rintro f ⟨⟩
    · rintro f ⟨⟩
  have hwithin : HeadText.Within ⟨utf8 "OPTIONS", utf8 "*", utf8 "HTTP/1.1", []⟩ := by
    refine ⟨by decide, by decide, ?_, by decide⟩
    rintro f ⟨⟩
  obtain ⟨head, hhead⟩ := h _ [] hframed hwithin
  have hrefused : parseHead (HeadText.bytes ⟨utf8 "OPTIONS", utf8 "*", utf8 "HTTP/1.1", []⟩ ++ []) = .refuse 400 := by
    decide +kernel
  cases hrefused.symm.trans hhead

end OmtClient.Web.Http
