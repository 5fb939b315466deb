import OmtClient.Common.Timefmt
import OmtClient.Web.Connection

/-!
# Responses

`Response::add_header`, `http_date` and the text that `Conn::queue` makes of a response, in
`crates/omt-web/src/http.rs`, and how the other side reads it.

1. `response_exact`: what is queued reads back as one response with the handler's headers and
   those of the connection, or as a bare 500.
-/

namespace OmtClient.Web.Http

open OmtClient.Lib OmtClient.Common

/-! ## Writing -/

/-- `Response::add_header`: a line break is refused rather than split. -/
def Response.addHeader (res : Response) (name value : Bytes) : Response :=
  if (name.any fun c => c == 13 || c == 10 || c == 58) || value.any fun c => c == 13 || c == 10 then
    { res with failed := true }
  else { res with headers := res.headers ++ (name ++ utf8 ": " ++ value ++ utf8 "\r\n") }

def dayNames : List String := ["Thu", "Fri", "Sat", "Sun", "Mon", "Tue", "Wed"]

def monthNames : List String := ["Jan", "Feb", "Mar", "Apr", "May", "Jun", "Jul", "Aug", "Sep", "Oct", "Nov", "Dec"]

/-- `http_date`, of the second count of the wall clock. -/
def httpDate (secs : Int) : Bytes :=
  let dayNumber := secs / 86400
  let rest := (secs % 86400).toNat
  let (year, month, day) := Timefmt.civilFromDays dayNumber
  utf8 (dayNames.getD (dayNumber % 7).toNat "Thu") ++
    utf8 (String.ofList (',' :: ' ' :: Timefmt.pad 2 day ++ [' '])) ++ utf8 (monthNames.getD (min (month - 1) 11) "Jan") ++
    utf8 (String.ofList (' ' :: Timefmt.padSigned 4 year ++ ' ' :: Timefmt.pad 2 (rest / 3600) ++
      ':' :: Timefmt.pad 2 (rest % 3600 / 60) ++ ':' :: Timefmt.pad 2 (rest % 60))) ++ utf8 " GMT"

/-- What a handler makes of its response: a status, a body, and headers one after the other. -/
def Response.made (status : Nat) (body : Bytes) (head : Bool) (calls : List (Bytes × Bytes)) : Response :=
  calls.foldl (fun res h => res.addHeader h.1 h.2) ⟨status, [], body, head, false⟩

/-! ## Reading -/

structure Message where
  status : Nat
  reason : Bytes
  headers : List (Bytes × Bytes)
  body : Bytes
  deriving DecidableEq, Repr

/-- A line up to its line break, and what follows. -/
def readLine : Bytes → Option (Bytes × Bytes)
  | 13 :: 10 :: rest => some ([], rest)
  | c :: rest => (readLine rest).map fun r => (c :: r.1, r.2)
  | [] => none

/-- The lines of headers, each read by `field`, up to the empty one. -/
def readFields (field : Bytes → Option (Bytes × Bytes)) : Nat → Bytes → Option (List (Bytes × Bytes) × Bytes)
  | 0, _ => none
  | fuel + 1, data =>
    (readLine data).bind fun r =>
      if r.1 = [] then some ([], r.2)
      else (field r.1).bind fun h => (readFields field fuel r.2).map fun s => (h :: s.1, s.2)

/-- A whole response. -/
def Message.read (field : Bytes → Option (Bytes × Bytes)) (data : Bytes) : Option Message :=
  (readLine data).bind fun first =>
    (stripPrefix (utf8 "HTTP/1.1 ") first.1).bind fun line =>
      (splitOnce 32 line).bind fun r =>
        if r.1 ≠ [] ∧ r.1.all isAsciiDigit = true then
          (readFields field data.length first.2).map fun s => ⟨decimal r.1, r.2, s.1, s.2⟩
        else none

/-- A header as it stands: a name, a colon, a space and a value. -/
def plainField (line : Bytes) : Option (Bytes × Bytes) :=
  (splitOnce 58 line).bind fun r => (stripPrefix [32] r.2).map fun value => (r.1, value)

/-- A header by the grammar of HTTP: a token, a colon, and a value between blanks. -/
def strictField (line : Bytes) : Option (Bytes × Bytes) :=
  (splitOnce 58 line).bind fun r => if r.1 ≠ [] ∧ r.1.all isTchar = true then some (r.1, (trimOws r.2).2) else none

/-! ## What is to be read -/

/-- A header without line breaks, and without a colon in its name. -/
def Unbroken (h : Bytes × Bytes) : Prop := (∀ c ∈ h.1, c ≠ 13 ∧ c ≠ 10 ∧ c ≠ 58) ∧ ∀ c ∈ h.2, c ≠ 13 ∧ c ≠ 10

/-- A header that is one by the grammar of HTTP. -/
def Strict (h : Bytes × Bytes) : Prop := (h.1 ≠ [] ∧ h.1.all isTchar = true) ∧ (trimOws h.2).2 = h.2

/-- The headers that the connection adds to a body of `n` bytes. -/
def Conn.own (c : Conn) (date : Bytes) (n : Nat) : List (Bytes × Bytes) :=
  [(utf8 "content-length", numeral 10 n), (utf8 "date", date)] ++
    if c.closeAfter then [(utf8 "connection", utf8 "close")] else []

namespace ResponseLemmas

variable {line rest body date : Bytes} {h : Bytes × Bytes} {hs calls : List (Bytes × Bytes)} {res : Response}

/-- A header on its line. -/
def lineOf (h : Bytes × Bytes) : Bytes := h.1 ++ 58 :: 32 :: h.2

/-- Headers, each with its line break. -/
def block (hs : List (Bytes × Bytes)) : Bytes := hs.flatMap fun h => lineOf h ++ [13, 10]

/-! ## Made by a handler -/

theorem unbroken_iff : ((h.1.any fun c => c == 13 || c == 10 || c == 58) || h.2.any fun c => c == 13 || c == 10) = false ↔
    Unbroken h := by
  simp [Unbroken, and_assoc]

theorem addHeader_broken (hbad : ¬ Unbroken h) : res.addHeader h.1 h.2 = { res with failed := true } := by
  rw [← unbroken_iff, Bool.not_eq_false] at hbad
  rw [Response.addHeader, if_pos hbad]

theorem addHeader_unbroken (hgood : Unbroken h) :
    res.addHeader h.1 h.2 = { res with headers := res.headers ++ (lineOf h ++ [13, 10]) } := by
  rw [← unbroken_iff] at hgood
  have hcolon : utf8 ": " = [58, 32] := by decide
  have hbreak : utf8 "\r\n" = [13, 10] := by decide
  rw [Response.addHeader, if_neg (Bool.eq_false_iff.mp hgood), lineOf, hcolon, hbreak]
  simp

/-- Headers are added in order, unless one of them is refused. -/
theorem made_good (hall : ∀ h ∈ calls, Unbroken h) (res : Response) :
    calls.foldl (fun res h => res.addHeader h.1 h.2) res = { res with headers := res.headers ++ block calls } := by
  induction calls generalizing res with
  | nil => simp [block]
  | cons h calls ih =>
    obtain ⟨hh, hcalls⟩ := List.forall_mem_cons.mp hall
    rw [List.foldl_cons, addHeader_unbroken hh, ih hcalls]
    simp [block]

/-- A refusal is not taken back. -/
theorem made_failed (res : Response) (hfailed : res.failed = true ∨ ∃ h ∈ calls, ¬ Unbroken h) :
    (calls.foldl (fun res h => res.addHeader h.1 h.2) res).failed = true := by
  induction calls generalizing res with
  | nil =>
    rcases hfailed with hfailed | ⟨h, hh, -⟩
    · exact hfailed
    · cases hh
  | cons h calls ih =>
    rw [List.foldl_cons]
    refine ih _ ?_
    by_cases hh : Unbroken h
    · rw [addHeader_unbroken hh]
      rcases hfailed with hfailed | ⟨x, hx, hbad⟩
      · exact .inl hfailed
      · rcases List.mem_cons.mp hx with rfl | hx
        · exact absurd hh hbad
        · exact .inr ⟨x, hx, hbad⟩
    · rw [addHeader_broken hh]
      exact .inl rfl

/-! ## Read back -/

theorem readLine_line (hline : (13 : Byte) ∉ line) (rest : Bytes) : readLine (line ++ 13 :: 10 :: rest) = some (line, rest) := by
  induction line with
  | nil => rfl
  | cons c line ih =>
    rw [List.mem_cons, not_or] at hline
    rw [List.cons_append, readLine, ih hline.2]
    · rfl
    · intro r heq
      exact absurd heq.symm hline.1

theorem readFields_block {field : Bytes → Option (Bytes × Bytes)} (hfield : ∀ h ∈ hs, field (lineOf h) = some h)
    (hbreak : ∀ h ∈ hs, Unbroken h) (fuel : Nat) (hfuel : hs.length < fuel) (body : Bytes) :
    readFields field fuel (block hs ++ 13 :: 10 :: body) = some (hs, body) := by
  induction hs generalizing fuel with
  | nil =>
    cases fuel with
    | zero => cases hfuel
    | succ fuel => rfl
  | cons h hs ih =>
    cases fuel with
    | zero => cases hfuel
    | succ fuel =>
      obtain ⟨hh, hhs⟩ := List.forall_mem_cons.mp hfield
      obtain ⟨hb, hbs⟩ := List.forall_mem_cons.mp hbreak
      have hline : (13 : Byte) ∉ lineOf h := by
        intro hmem
        rcases List.mem_append.mp hmem with hmem | hmem
        · exact (hb.1 13 hmem).1 rfl
        · simp only [List.mem_cons] at hmem
          rcases hmem with hmem | hmem | hmem
          · revert hmem
            decide
          · revert hmem
            decide
          · exact (hb.2 13 hmem).1 rfl
      have hne : lineOf h ≠ [] := by simp [lineOf]
      have hsplit : block (h :: hs) ++ 13 :: 10 :: body = lineOf h ++ 13 :: 10 :: (block hs ++ 13 :: 10 :: body) := by
        simp [block]
      rw [hsplit, readFields, readLine_line hline, Option.bind_some, if_neg hne, hh, Option.bind_some,
        ih hhs hbs fuel (Nat.lt_of_succ_lt_succ hfuel)]
      rfl

theorem splitOnce_name (hh : Unbroken h) : splitOnce 58 (lineOf h) = some (h.1, 32 :: h.2) :=
  splitOnce_append fun hmem => (hh.1 58 hmem).2.2 rfl

theorem plainField_line (hh : Unbroken h) : plainField (lineOf h) = some h := by
  rw [plainField, splitOnce_name hh, Option.bind_some]
  show (stripPrefix [32] ([32] ++ h.2)).map _ = _
  rw [stripPrefix_append]
  rfl

theorem strictField_line (hh : Unbroken h) (hstrict : Strict h) : strictField (lineOf h) = some h := by
  rw [strictField, splitOnce_name hh, Option.bind_some]
  dsimp only
  rw [if_pos hstrict.1]
  show some (h.1, (trimOws h.2).2) = some h
  rw [hstrict.2]

/-! ## What the connection writes -/

theorem digits_plain (n : Nat) : ∀ c ∈ numeral 10 n, c ≠ 13 ∧ c ≠ 10 ∧ c ≠ 32 ∧ isOws c = false := by
  intro c hc
  have hdigit := isAsciiDigit_numeral n c hc
  have hall : ∀ c : Byte, isAsciiDigit c = true → c ≠ 13 ∧ c ≠ 10 ∧ c ≠ 32 ∧ isOws c = false := forall_byte (by decide +kernel)
  exact hall c hdigit

theorem reason_plain (status : Nat) : (13 : Byte) ∉ utf8 (reason status) := by
  unfold reason
  split <;> decide

/-- Nothing is cut from a value that neither starts nor ends with a blank. -/
theorem trimOws_none {s : Bytes} (hhead : ∀ c, s.head? = some c → isOws c = false)
    (hlast : ∀ c, s.getLast? = some c → isOws c = false) : (trimOws s).2 = s := by
  have hfront (t : Bytes) (ht : ∀ c, t.head? = some c → isOws c = false) : t.dropWhile isOws = t := by
    cases t with
    | nil => rfl
    | cons c t => rw [List.dropWhile_cons, ht c rfl, if_neg Bool.false_ne_true]
  show ((s.dropWhile isOws).reverse.dropWhile isOws).reverse = s
  rw [hfront s hhead, hfront s.reverse (by rw [List.head?_reverse]; exact hlast), List.reverse_reverse]

/-! ### The date -/

/-- A text has a line break in its bytes only if it has one. -/
theorem text_plain {cs : List Char} (h : ∀ c ∈ cs, c ≠ '\r' ∧ c ≠ '\n') :
    ∀ b ∈ utf8 (String.ofList cs), b ≠ 13 ∧ b ≠ 10 := by
  intro b hb
  rw [utf8_ofList] at hb
  obtain ⟨c, hc, hb⟩ := List.mem_flatMap.mp hb
  rcases encode_cases c with ⟨hlow, hbyte⟩ | ⟨-, hhigh⟩
  · rw [hbyte, List.mem_singleton] at hb
    have hnat : b.toNat = c.toNat := by rw [hb, UInt8.toNat_ofNat_of_lt' (Nat.lt_trans hlow (by decide))]
    constructor
    · rintro rfl
      exact (h c hc).1 (Char.toNat_inj.mp hnat.symm)
    · rintro rfl
      exact (h c hc).2 (Char.toNat_inj.mp hnat.symm)
  · have hb := hhigh b hb
    constructor
    · rintro rfl
      revert hb
      decide
    · rintro rfl
      revert hb
      decide

theorem pad_plain {width n : Nat} {c : Char} (h : c ∈ Timefmt.pad width n) : c ≠ '\r' ∧ c ≠ '\n' := by
  have hdigit : c.isDigit = true := by
    rcases List.mem_append.mp h with h | h
    · rw [List.eq_of_mem_replicate h]
      decide
    · exact Nat.isDigit_of_mem_toDigits (by decide) (by decide) h
  constructor
  · rintro rfl
    revert hdigit
    decide
  · rintro rfl
    revert hdigit
    decide

theorem padSigned_plain {width : Nat} {z : Int} {c : Char} (h : c ∈ Timefmt.padSigned width z) : c ≠ '\r' ∧ c ≠ '\n' := by
  unfold Timefmt.padSigned at h
  split at h
  · rcases List.mem_cons.mp h with rfl | h
    · decide
    · exact pad_plain h
  · exact pad_plain h

theorem dayNames_plain : ∀ s ∈ "Thu" :: dayNames, (∀ b ∈ utf8 s, b ≠ 13 ∧ b ≠ 10) ∧ (utf8 s).head?.all (!isOws ·) = true ∧
    utf8 s ≠ [] := by decide

theorem monthNames_plain : ∀ s ∈ "Jan" :: monthNames, ∀ b ∈ utf8 s, b ≠ 13 ∧ b ≠ 10 := by decide

theorem getD_mem {l : List String} {s : String} (i : Nat) : l.getD i s ∈ s :: l := by
  rw [List.getD_eq_getElem?_getD]
  cases h : l[i]? with
  | none => exact List.mem_cons_self
  | some t => exact List.mem_cons_of_mem s (List.mem_of_getElem? h)

theorem date_plain (secs : Int) : ∀ c ∈ httpDate secs, c ≠ 13 ∧ c ≠ 10 := by
  unfold httpDate
  simp only [List.forall_mem_append]
  refine ⟨⟨⟨⟨(dayNames_plain _ (getD_mem _)).1, text_plain ?_⟩, monthNames_plain _ (getD_mem _)⟩, text_plain ?_⟩, by decide⟩
  · simp only [List.cons_append, List.forall_mem_cons, List.forall_mem_append]
    exact ⟨by decide, by decide, fun c hc => pad_plain hc, by decide, fun c hc => by cases hc⟩
  · simp only [List.cons_append, List.forall_mem_cons, List.forall_mem_append]
    exact ⟨by decide, ⟨⟨fun c hc => padSigned_plain hc, by decide, fun c hc => pad_plain hc⟩, by decide,
      fun c hc => pad_plain hc⟩, by decide, fun c hc => pad_plain hc⟩

theorem date_trimmed (secs : Int) : (trimOws (httpDate secs)).2 = httpDate secs := by
  refine trimOws_none (fun c hc => ?_) (fun c hc => ?_)
  · unfold httpDate at hc
    dsimp only at hc
    obtain ⟨-, hhead, hne⟩ := dayNames_plain _ (getD_mem (l := dayNames) (s := "Thu") (secs / 86400 % 7).toNat)
    rw [List.append_assoc, List.append_assoc, List.append_assoc, List.head?_append_of_ne_nil _ hne] at hc
    rw [hc] at hhead
    simpa using hhead
  · unfold httpDate at hc
    dsimp only at hc
    rw [List.getLast?_append_of_ne_nil _ (by decide)] at hc
    have hlast : (utf8 " GMT").getLast? = some 84 := by decide
    rw [hlast] at hc
    cases hc
    decide

/-! ### The whole response -/

theorem own_unbroken (c : Conn) (secs : Int) (n : Nat) : ∀ h ∈ c.own (httpDate secs) n, Unbroken h := by
  have hnames : ∀ s ∈ ["content-length", "date", "connection"], ∀ c ∈ utf8 s, c ≠ 13 ∧ c ≠ 10 ∧ c ≠ 58 := by decide
  intro h hh
  unfold Conn.own at hh
  simp only [List.mem_append, List.mem_cons, List.not_mem_nil, or_false] at hh
  rcases hh with (rfl | rfl) | hh
  · exact ⟨hnames _ (by simp), fun c hc => ⟨(digits_plain n c hc).1, (digits_plain n c hc).2.1⟩⟩
  · exact ⟨hnames _ (by simp), date_plain secs⟩
  · split at hh
    · rw [List.mem_singleton.mp hh]
      exact ⟨hnames _ (by simp), by decide⟩
    · cases hh

theorem own_strict (c : Conn) (secs : Int) (n : Nat) : ∀ h ∈ c.own (httpDate secs) n, Strict h := by
  have hnames : ∀ s ∈ ["content-length", "date", "connection"], utf8 s ≠ [] ∧ (utf8 s).all isTchar = true := by decide
  intro h hh
  unfold Conn.own at hh
  simp only [List.mem_append, List.mem_cons, List.not_mem_nil, or_false] at hh
  rcases hh with (rfl | rfl) | hh
  · refine ⟨hnames _ (by simp), trimOws_none (fun c hc => ?_) (fun c hc => ?_)⟩
    · exact (digits_plain n c (List.mem_of_head? hc)).2.2.2
    · exact (digits_plain n c (List.mem_of_getLast? hc)).2.2.2
  · exact ⟨hnames _ (by simp), date_trimmed secs⟩
  · split at hh
    · rw [List.mem_singleton.mp hh]
      exact ⟨hnames _ (by simp), by decide⟩
    · cases hh

/-- What `queue` writes: the status line, a block of headers, the empty line and the body. -/
theorem queue_out (c : Conn) (date : Bytes) (status : Nat) (body : Bytes) (head : Bool) (hs : List (Bytes × Bytes)) :
    (c.queue date ⟨status, block hs, body, head, false⟩).out =
      (utf8 "HTTP/1.1 " ++ (numeral 10 status ++ 32 :: utf8 (reason status))) ++ 13 :: 10 ::
        (block (hs ++ c.own date body.length) ++ 13 :: 10 :: if head then [] else body) := by
  have hbreak : utf8 "\r\n" = [13, 10] := by decide
  have hspace : utf8 " " = [32] := by decide
  have hlength : utf8 "content-length: " = utf8 "content-length" ++ [58, 32] := by decide
  have hdate : utf8 "\r\ndate: " = [13, 10] ++ (utf8 "date" ++ [58, 32]) := by decide
  have hclose : utf8 "connection: close\r\n" = utf8 "connection" ++ 58 :: 32 :: utf8 "close" ++ [13, 10] := by decide
  unfold Conn.queue Conn.own
  simp only [Bool.false_eq_true, if_false, hbreak, hspace, hlength, hdate, hclose, block, lineOf]
  cases c.closeAfter <;> simp

/-- A response that is written so reads back. -/
theorem read_message {field : Bytes → Option (Bytes × Bytes)} (status : Nat) (body : Bytes) (hbreak : ∀ h ∈ hs, Unbroken h)
    (hfield : ∀ h ∈ hs, field (lineOf h) = some h) :
    Message.read field ((utf8 "HTTP/1.1 " ++ (numeral 10 status ++ 32 :: utf8 (reason status))) ++ 13 :: 10 ::
      (block hs ++ 13 :: 10 :: body)) = some ⟨status, utf8 (reason status), hs, body⟩ := by
  have hline : (13 : Byte) ∉ utf8 "HTTP/1.1 " ++ (numeral 10 status ++ 32 :: utf8 (reason status)) := by
    simp only [List.mem_append, List.mem_cons, not_or]
    exact ⟨by decide, fun h => (digits_plain status 13 h).1 rfl, by decide, reason_plain status⟩
  have hdigits : (numeral 10 status).all isAsciiDigit = true := List.all_eq_true.mpr (isAsciiDigit_numeral status)
  have hlen : hs.length ≤ (block hs).length := by
    have hone (h : Bytes × Bytes) : 1 ≤ (lineOf h ++ [13, 10]).length := by
      rw [List.length_append]
      exact Nat.le_add_left_of_le (by decide)
    induction hs with
    | nil => exact Nat.zero_le _
    | cons h hs ih =>
      have hrest := ih (fun x hx => hbreak x (List.mem_cons_of_mem h hx)) fun x hx => hfield x (List.mem_cons_of_mem h hx)
      have hsplit : block (h :: hs) = (lineOf h ++ [13, 10]) ++ block hs := List.flatMap_cons
      rw [hsplit, List.length_append, List.length_cons, Nat.add_comm]
      exact Nat.add_le_add (hone h) hrest
  rw [Message.read, readLine_line hline, Option.bind_some, stripPrefix_append, Option.bind_some,
    splitOnce_append fun h => (digits_plain status 32 h).2.2.1 rfl, Option.bind_some, if_pos ⟨numeral_ne_nil, hdigits⟩,
    readFields_block hfield hbreak]
  · simp only [Option.map_some, decimal_numeral]
  · simp only [List.length_append, List.length_cons]
    omega

end ResponseLemmas

open ResponseLemmas

/-- However a handler fills its response, what is queued reads back as one response: with its
status, its headers as they were added, those of the connection, and its body, or else as a
bare 500. The grammar of HTTP reads headers that are of it in the same way. -/
theorem response_exact (c : Conn) (secs : Int) (status : Nat) (body : Bytes) (head : Bool) (calls : List (Bytes × Bytes)) :
    ((∀ h ∈ calls, Unbroken h) →
      Message.read plainField (c.queue (httpDate secs) (.made status body head calls)).out =
        some ⟨status, utf8 (reason status), calls ++ c.own (httpDate secs) body.length, if head then [] else body⟩) ∧
    ((∀ h ∈ calls, Unbroken h ∧ Strict h) →
      Message.read strictField (c.queue (httpDate secs) (.made status body head calls)).out =
        some ⟨status, utf8 (reason status), calls ++ c.own (httpDate secs) body.length, if head then [] else body⟩) ∧
    ((∃ h ∈ calls, ¬ Unbroken h) → ∀ field ∈ [plainField, strictField],
      Message.read field (c.queue (httpDate secs) (.made status body head calls)).out =
        some ⟨500, utf8 "Internal Server Error", c.own (httpDate secs) 0, []⟩) := by
  have hplain (n : Nat) : ∀ h ∈ c.own (httpDate secs) n, plainField (lineOf h) = some h :=
    fun h hh => plainField_line (own_unbroken c secs n h hh)
  have hstrict (n : Nat) : ∀ h ∈ c.own (httpDate secs) n, strictField (lineOf h) = some h :=
    fun h hh => strictField_line (own_unbroken c secs n h hh) (own_strict c secs n h hh)
  have hmade (hall : ∀ h ∈ calls, Unbroken h) : Response.made status body head calls = ⟨status, block calls, body, head, false⟩ := by
    rw [Response.made, made_good hall]
    rfl
  refine ⟨fun hall => ?_, fun hall => ?_, fun hbad field hfield => ?_⟩
  · rw [hmade hall, queue_out]
    refine read_message status _ (List.forall_mem_append.mpr ⟨hall, own_unbroken c secs _⟩) ?_
    exact List.forall_mem_append.mpr ⟨fun h hh => plainField_line (hall h hh), hplain _⟩
  · rw [hmade fun h hh => (hall h hh).1, queue_out]
    refine read_message status _ (List.forall_mem_append.mpr ⟨fun h hh => (hall h hh).1, own_unbroken c secs _⟩) ?_
    exact List.forall_mem_append.mpr ⟨fun h hh => strictField_line (hall h hh).1 (hall h hh).2, hstrict _⟩
  · -- what the handler had made is cleared before anything is written
    have hfailed : (Response.made status body head calls).failed = true := made_failed _ (.inr hbad)
    have hclear : (c.queue (httpDate secs) (.made status body head calls)).out =
        (c.queue (httpDate secs) ⟨500, block [], [], (Response.made status body head calls).head, false⟩).out := by
      unfold Conn.queue
      rw [hfailed]
      rfl
    have hbody : (if (Response.made status body head calls).head = true then ([] : Bytes) else []) = [] := ite_self _
    rw [hclear, queue_out, hbody, List.nil_append]
    have hown : field ∈ [plainField, strictField] → ∀ h ∈ c.own (httpDate secs) 0, field (lineOf h) = some h := by
      intro hfield
      simp only [List.mem_cons, List.not_mem_nil, or_false] at hfield
      rcases hfield with rfl | rfl
      · exact hplain 0
      · exact hstrict 0
    exact read_message 500 [] (own_unbroken c secs 0) (hown hfield)

end OmtClient.Web.Http
