import OmtClient.Common.Buf
import OmtClient.Lib.Text

/-!
# Request heads

`parse_head` and `Request` of `crates/omt-web/src/http.rs`. Header names and values are
byte ranges into the buffer that the head was parsed from, as in the source; texts are
their UTF-8 bytes.

1. `parseHead_append`: once a head is complete or refused, more bytes change nothing.
2. `request_append`: nor do they change the request that the handler sees.
-/

namespace OmtClient.Web.Http

open OmtClient.Lib OmtClient.Common

def maxHeaderBytes : Nat := 16 * 1024
def maxHeaders : Nat := 64
def methodMax : Nat := 15
def pathMax : Nat := 2047

/-- A range of bytes of the buffer. -/
abbrev Span := Nat × Nat

structure Head where
  method : Bytes
  path : Bytes
  headers : List (Span × Span)
  /-- The header block's size, through the blank line. -/
  headLen : Nat
  contentLength : Nat
  keepAlive : Bool
  deriving DecidableEq, Repr

inductive Parse
  | incomplete
  | complete (head : Head)
  | refuse (status : Nat)
  deriving DecidableEq, Repr

/-- `is_tchar`. -/
def isTchar (c : Byte) : Bool :=
  (48 ≤ c && c ≤ 57) || (65 ≤ c && c ≤ 90) || (97 ≤ c && c ≤ 122) ||
    ([33, 35, 36, 37, 38, 39, 42, 43, 45, 46, 94, 95, 96, 124, 126] : Bytes).contains c

def isOws (c : Byte) : Bool := c == 32 || c == 9

/-- `trim_ows`: how much it cut from the front, and what is left. -/
def trimOws (s : Bytes) : Nat × Bytes :=
  ((s.takeWhile isOws).length, ((s.dropWhile isOws).reverse.dropWhile isOws).reverse)

/-- The first carriage return of `block` from `pos` on, or else `stop`. -/
def lineEnd (block : Bytes) (pos stop : Nat) : Nat :=
  match (block.drop pos).findIdx? (· == 13) with
  | some i => pos + i
  | none => stop

/-- What the request line says, and where it ends. -/
structure RequestLine where
  method : Bytes
  path : Bytes
  http11 : Bool
  stop : Nat
  deriving DecidableEq, Repr

/-- The request line of a head, or the status to refuse it with. -/
def requestLine (data block : Bytes) : Except Nat RequestLine :=
  match block.findIdx? (· == 32) with
  | none => .error 400
  | some sp1 =>
    if sp1 = 0 ∨ methodMax < sp1 ∨ !(block.take sp1).all isTchar then .error 400
    else
      let stop := lineEnd block sp1 block.length
      if stop < block.length ∧ data[stop + 1]? ≠ some 10 then .error 400
      else
        let line := block.take stop
        match (line.drop (sp1 + 1)).findIdx? (· == 32) with
        | none => .error 400
        | some i =>
          let sp2 := sp1 + 1 + i
          let target := (line.take sp2).drop (sp1 + 1)
          if target.head? ≠ some 47 ∨ target.any fun c => c ≤ 0x20 || 0x7F ≤ c then .error 400
          else
            let path := target.takeWhile (· != 63)
            if pathMax < path.length then .error 414
            else if line.drop (sp2 + 1) = utf8 "HTTP/1.1" then .ok ⟨block.take sp1, path, true, stop⟩
            else if line.drop (sp2 + 1) = utf8 "HTTP/1.0" then .ok ⟨block.take sp1, path, false, stop⟩
            else .error 505

/-- What the header fields read so far say. -/
structure Fields where
  headers : List (Span × Span)
  contentLength : Nat
  haveLength : Bool
  close : Bool
  keep : Bool
  deriving DecidableEq, Repr

/-- One header field from `pos` on: what it adds, and where the next one starts. -/
def field (data block : Bytes) (stop pos : Nat) (st : Fields) : Except Nat (Fields × Nat) :=
  let eol := lineEnd block pos stop
  if eol < stop ∧ data[eol + 1]? ≠ some 10 then .error 400
  else
    let f := (block.take eol).drop pos
    -- obsolete line folding
    if f.head? = some 32 ∨ f.head? = some 9 then .error 400
    else
      match f.findIdx? (· == 58) with
      | none => .error 400
      | some colon =>
        let name := f.take colon
        if colon = 0 ∨ !name.all isTchar then .error 400
        else
          let (skipped, value) := trimOws (f.drop (colon + 1))
          if value.any fun c => (c < 0x20 && c != 9) || c == 0x7F then .error 400
          else if st.headers.length = maxHeaders then .error 431
          else
            let start := pos + colon + 1 + skipped
            let st := { st with
              headers := st.headers ++ [((pos, pos + colon), (start, start + value.length))] }
            if eqIgnoreAsciiCase name (utf8 "content-length") then
              match parseU64 value (2 ^ 32 - 1) with
              | none => .error 400
              | some n =>
                if st.haveLength ∧ n ≠ st.contentLength then .error 400
                else .ok ({ st with contentLength := n, haveLength := true }, eol + 2)
            else if eqIgnoreAsciiCase name (utf8 "transfer-encoding") then .error 411
            else if eqIgnoreAsciiCase name (utf8 "connection") then
              let tokens := (value.splitOn 44).map fun t => (trimOws t).2
              .ok ({ st with
                close := st.close || tokens.any fun t => eqIgnoreAsciiCase t (utf8 "close")
                keep := st.keep || tokens.any fun t => eqIgnoreAsciiCase t (utf8 "keep-alive") }, eol + 2)
            else .ok (st, eol + 2)

/-- The header fields from `pos` up to the end of the block; a field takes two bytes at
least, so `stop` turns are enough. -/
def fields (data block : Bytes) (stop : Nat) : Nat → Nat → Fields → Except Nat Fields
  | 0, _, st => .ok st
  | fuel + 1, pos, st =>
    if pos < stop then
      match field data block stop pos st with
      | .error status => .error status
      | .ok (st, pos) => fields data block stop fuel pos st
    else .ok st

/-- The head whose block ends at `stop`. -/
def parseBlock (data : Bytes) (stop : Nat) : Parse :=
  let block := data.take stop
  match requestLine data block with
  | .error status => .refuse status
  | .ok line =>
    match fields data block stop stop (line.stop + 2) ⟨[], 0, false, false, false⟩ with
    | .error status => .refuse status
    | .ok st =>
      .complete { method := line.method, path := line.path, headers := st.headers, headLen := stop + 4
                  contentLength := st.contentLength
                  keepAlive := !st.close && (line.http11 || st.keep) }

/-- The blank line that ends a head. -/
def blankLine : Bytes := [13, 10, 13, 10]

/-- `parse_head`. -/
def parseHead (data : Bytes) : Parse :=
  match findSub blankLine (data.take maxHeaderBytes) with
  | none => if maxHeaderBytes ≤ data.length then .refuse 431 else .incomplete
  | some stop => parseBlock data stop

/-- A request as the handler sees it: `header` is the only way to the header fields. -/
structure Request where
  method : Bytes
  path : Bytes
  headers : List (Bytes × Bytes)
  body : Bytes
  peer : Bytes
  deriving DecidableEq, Repr

def span (data : Bytes) (s : Span) : Bytes := (data.take s.2).drop s.1

/-- `Request::new`. -/
def Request.new (head : Head) (data peer : Bytes) : Request :=
  let bodyEnd := min (head.headLen + head.contentLength) data.length
  { method := head.method, path := head.path
    headers := head.headers.map fun h => (span data h.1, span data h.2)
    body := (data.take bodyEnd).drop (min head.headLen bodyEnd), peer }

/-- `Request::header`: the first header of a name. -/
def Request.header (r : Request) (name : Bytes) : Option Bytes :=
  (r.headers.find? fun h => eqIgnoreAsciiCase h.1 name).map Prod.snd

/-! ## Heads do not change with what follows -/

namespace HttpLemmas

variable {data block more : Bytes} {stop pos : Nat} {st : Fields}

theorem lineEnd_le (hpos : pos ≤ stop) (hblock : block.length = stop) :
    pos ≤ lineEnd block pos stop ∧ lineEnd block pos stop ≤ stop := by
  rw [lineEnd]
  split
  · next i h =>
    have hlt : i < (block.drop pos).length := (List.findIdx?_eq_some_iff_getElem.mp h).1
    rw [List.length_drop, hblock] at hlt
    omega
  · exact ⟨hpos, Nat.le_refl _⟩

theorem newline_append (h : stop < data.length) (k : Nat) :
    (k < stop ∧ (data ++ more)[k + 1]? ≠ some 10) ↔ (k < stop ∧ data[k + 1]? ≠ some 10) := by
  constructor
  · rintro ⟨hk, hne⟩
    rw [List.getElem?_append_left (by omega)] at hne
    exact ⟨hk, hne⟩
  · rintro ⟨hk, hne⟩
    rw [List.getElem?_append_left (by omega)]
    exact ⟨hk, hne⟩

theorem requestLine_append (h : block.length < data.length) :
    requestLine (data ++ more) block = requestLine data block := by
  unfold requestLine
  simp only [newline_append h]

theorem field_append (h : stop < data.length) :
    field (data ++ more) block stop pos st = field data block stop pos st := by
  unfold field
  simp only [newline_append h]

theorem fields_append (h : stop < data.length) (fuel : Nat) :
    fields (data ++ more) block stop fuel pos st = fields data block stop fuel pos st := by
  induction fuel generalizing pos st with
  | zero => rfl
  | succ fuel ih =>
    rw [fields, fields, field_append h]
    split
    · split
      · rfl
      · exact ih
    · rfl

theorem parseBlock_append (h : stop < data.length) :
    parseBlock (data ++ more) stop = parseBlock data stop := by
  have htake : (data ++ more).take stop = data.take stop := by
    rw [List.take_append_of_le_length (Nat.le_of_lt h)]
  have hblock : (data.take stop).length < data.length := by
    rw [List.length_take]
    omega
  simp only [parseBlock, htake, requestLine_append hblock, fields_append h]

/-- Where a blank line is found, it is inside the data and the limit. -/
theorem blankLine_bounds (h : findSub blankLine (data.take maxHeaderBytes) = some stop) :
    stop + 4 ≤ data.length ∧ stop + 4 ≤ maxHeaderBytes := by
  have hle : stop + 4 ≤ (data.take maxHeaderBytes).length := (findSub_eq_some h).2
  rw [List.length_take] at hle
  omega

end HttpLemmas

open HttpLemmas

/-- Once a head is complete or refused, more bytes change nothing. -/
theorem parseHead_append {data : Bytes} (more : Bytes) (h : parseHead data ≠ .incomplete) :
    parseHead (data ++ more) = parseHead data := by
  unfold parseHead at h ⊢
  cases hfind : findSub blankLine (data.take maxHeaderBytes) with
  | some stop =>
    have hbounds := blankLine_bounds hfind
    have hmore : findSub blankLine ((data ++ more).take maxHeaderBytes) = some stop := by
      rw [List.take_append]
      exact findSub_append _ hfind
    rw [hmore]
    exact parseBlock_append (by omega)
  | none =>
    rw [hfind] at h
    by_cases hlong : maxHeaderBytes ≤ data.length
    · have htake : (data ++ more).take maxHeaderBytes = data.take maxHeaderBytes := by
        rw [List.take_append_of_le_length hlong]
      rw [htake, hfind]
      dsimp only
      rw [if_pos hlong, if_pos (by rw [List.length_append]; omega)]
    · exact absurd (if_neg hlong) h

namespace HttpLemmas

variable {data block more : Bytes} {stop pos : Nat} {st st' : Fields}

theorem length_trimOws (s : Bytes) : (trimOws s).1 + (trimOws s).2.length ≤ s.length := by
  have hsplit : (s.takeWhile isOws).length + (s.dropWhile isOws).length = s.length := by
    rw [← List.length_append, List.takeWhile_append_dropWhile]
  have hle : (((s.dropWhile isOws).reverse.dropWhile isOws).reverse).length ≤ (s.dropWhile isOws).length := by
    have := (List.dropWhile_sublist isOws (l := (s.dropWhile isOws).reverse)).length_le
    rwa [List.length_reverse] at this ⊢
  show (s.takeWhile isOws).length + (((s.dropWhile isOws).reverse.dropWhile isOws).reverse).length ≤ _
  omega

/-- Every span is inside the block. -/
def Inside (stop : Nat) (st : Fields) : Prop := ∀ h ∈ st.headers, h.1.2 ≤ stop ∧ h.2.2 ≤ stop

theorem field_inside (hpos : pos ≤ stop) (hblock : block.length = stop) (hst : Inside stop st)
    {next : Nat} (h : field data block stop pos st = .ok (st', next)) : Inside stop st' := by
  have hend := lineEnd_le hpos hblock
  unfold field at h
  dsimp only at h
  split at h
  · cases h
  split at h
  · cases h
  split at h
  · cases h
  next colon hcolon =>
  split at h
  · cases h
  split at h
  · cases h
  split at h
  · cases h
  -- the new header is inside its line
  have hlen : ((block.take (lineEnd block pos stop)).drop pos).length = lineEnd block pos stop - pos := by
    rw [List.length_drop, List.length_take, hblock]
    omega
  have hless : colon < ((block.take (lineEnd block pos stop)).drop pos).length :=
    (List.findIdx?_eq_some_iff_getElem.mp hcolon).1
  have htrim := length_trimOws (((block.take (lineEnd block pos stop)).drop pos).drop (colon + 1))
  rw [List.length_drop, hlen] at htrim
  rw [hlen] at hless
  have hnew : ∀ e ∈ st.headers ++ [((pos, pos + colon),
      (pos + colon + 1 + (trimOws (((block.take (lineEnd block pos stop)).drop pos).drop (colon + 1))).1,
        pos + colon + 1 + (trimOws (((block.take (lineEnd block pos stop)).drop pos).drop (colon + 1))).1 +
        (trimOws (((block.take (lineEnd block pos stop)).drop pos).drop (colon + 1))).2.length))],
      e.1.2 ≤ stop ∧ e.2.2 ≤ stop := by
    intro e he
    rcases List.mem_append.mp he with he | he
    · exact hst e he
    · rw [List.mem_singleton] at he
      subst he
      dsimp only
      omega
  split at h
  · split at h
    · cases h
    split at h
    · cases h
    · cases h
      exact hnew
  split at h
  · cases h
  split at h
  · cases h
    exact hnew
  · cases h
    exact hnew

theorem fields_inside (hblock : block.length = stop) (hst : Inside stop st) (fuel : Nat)
    (h : fields data block stop fuel pos st = .ok st') : Inside stop st' := by
  induction fuel generalizing pos st with
  | zero =>
    cases h
    exact hst
  | succ fuel ih =>
    rw [fields] at h
    split at h
    · next hpos =>
      split at h
      · cases h
      · next st1 pos1 hfield => exact ih (field_inside (Nat.le_of_lt hpos) hblock hst hfield) h
    · cases h
      exact hst

theorem span_append {s : Span} (h : s.2 ≤ data.length) : span (data ++ more) s = span data s := by
  rw [span, List.take_append_of_le_length h]
  rfl

end HttpLemmas

/-- A complete head is inside its data and the limit, and so are its headers. -/
theorem parseHead_complete {data : Bytes} {head : Head} (h : parseHead data = .complete head) :
    4 ≤ head.headLen ∧ head.headLen ≤ data.length ∧ head.headLen ≤ maxHeaderBytes ∧
      ∀ e ∈ head.headers, e.1.2 ≤ head.headLen ∧ e.2.2 ≤ head.headLen := by
  unfold parseHead at h
  split at h
  · split at h
    · cases h
    · cases h
  · next stop hfind =>
    have hbounds := blankLine_bounds hfind
    unfold parseBlock at h
    dsimp only at h
    split at h
    · cases h
    split at h
    · cases h
    next st hfields =>
    cases h
    have hblock : (data.take stop).length = stop := by
      rw [List.length_take]
      omega
    have hinside := fields_inside hblock (fun e he => absurd he List.not_mem_nil) _ hfields
    refine ⟨Nat.le_add_left _ _, hbounds.1, hbounds.2, fun e he => ?_⟩
    have := hinside e he
    dsimp only
    omega

/-- What follows a request does not change what the handler sees of it. -/
theorem request_append {data : Bytes} {head : Head} (h : parseHead data = .complete head)
    (hbody : head.headLen + head.contentLength ≤ data.length) (more peer : Bytes) :
    Request.new head (data ++ more) peer = Request.new head data peer := by
  obtain ⟨-, hlen, -, hheaders⟩ := parseHead_complete h
  have hmap : (head.headers.map fun e => (span (data ++ more) e.1, span (data ++ more) e.2)) =
      head.headers.map fun e => (span data e.1, span data e.2) := by
    refine List.map_congr_left fun e he => ?_
    have hspan := hheaders e he
    rw [span_append (Nat.le_trans hspan.1 hlen), span_append (Nat.le_trans hspan.2 hlen)]
  have hend : min (head.headLen + head.contentLength) (data ++ more).length =
      min (head.headLen + head.contentLength) data.length := by
    rw [List.length_append, Nat.min_eq_left hbody, Nat.min_eq_left (Nat.le_trans hbody (Nat.le_add_right _ _))]
  simp only [Request.new, hmap, hend]
  rw [List.take_append_of_le_length (Nat.min_le_right _ _)]

end OmtClient.Web.Http
