import OmtClient.Deploy.Core
import OmtClient.Web.Http

/-!
# The download of the deployer

`exchange` and `read_chunked` of `crates/omt-deploy/src/https.rs`, from the first byte of the response
on, for every way in which the connection gives out its bytes. Sums that a `u64` or a `usize` does not
hold end the program.

1. `step_inv`, `run_inv`: what was read by an exchange that is not done.
2. `reach`: how a connection comes to give out some text at the end of a read.
3. `exchange_exact`: from which limits on no sum is too large, and which bodies are whole.
4. `unchecked_body`: a body that is larger than its limit.
-/

namespace OmtClient.Deploy.Https

open OmtClient.Lib OmtClient.Common
open OmtClient.Web.Http (blankLine)

def maxHeaderBytes : Nat := 64 * 1024

/-- The length of `chunk`. -/
def chunkBytes : Nat := 16384

inductive Reply
  | body (body : Bytes)
  | redirect (location : Option String)
  | status (code : Nat)
  deriving DecidableEq

/-- How an exchange ends. -/
inductive Outcome
  | reply (r : Reply)
  | failed (message : String)
  /-- Arithmetic that overflows. -/
  | overflow
  deriving DecidableEq

/-! ## The head -/

/-- `str::split`, at `"\r\n"`. -/
def splitLines : Bytes → List Bytes
  | [] => [[]]
  | 13 :: 10 :: rest => [] :: splitLines rest
  | c :: rest =>
    match splitLines rest with
    | [] => [[c]]
    | l :: ls => (c :: l) :: ls

def headerValue (headers name : String) : Option String :=
  ((splitLines (utf8 headers)).tail.find? fun l =>
    len name < l.length && l[len name]? == some 58 && eqIgnoreAsciiCase (l.take (len name)) (utf8 name)).map
      fun l => trim (fromUtf8Lossy (l.drop (len name + 1)))

/-- How the end of a body is told. -/
inductive Framing
  | chunked
  | sized (length : Nat)
  | closed
  deriving DecidableEq

/-- What `exchange` makes of the head: an answer without a body, or how the body is framed. -/
def readHead (headers : String) : Except String (Reply ⊕ Framing) :=
  if len headers < 12 ∨ ¬ utf8 "HTTP/1." <+: utf8 headers then .error "malformed HTTP response"
  else match parseU64 (((utf8 headers).drop 9).take 3) 999 with
    | none => .error "malformed HTTP response"
    | some code =>
      if (300 ≤ code ∧ code < 400) ∧ code ≠ 304 then
        .ok (.inl (.redirect ((headerValue headers "Location").filter (· ≠ ""))))
      else if code ≠ 200 then .ok (.inl (.status code))
      else if (headerValue headers "Transfer-Encoding").any fun te => eqIgnoreAsciiCase (utf8 te) (utf8 "chunked") then
        .ok (.inr .chunked)
      else match headerValue headers "Content-Length" with
        | some v =>
          match parseU64 (utf8 v) (2 ^ 64 - 1) with
          | none => .error "malformed Content-Length"
          | some l => .ok (.inr (.sized l))
        | none => .ok (.inr .closed)

/-! ## The body -/

/-- Where the exchange waits for bytes. -/
inductive Phase
  | head (data : Bytes)
  /-- For a chunk size; `held` is `have`. -/
  | line (held out : Bytes)
  /-- For the data of a chunk. -/
  | data (size : Nat) (held out : Bytes)
  | body (length : Option Nat) (body : Bytes)
  | done (outcome : Outcome)
  deriving DecidableEq

def tooLarge (limit : Nat) : Outcome := .failed s!"response body exceeds {limit} bytes"

/-- The digits of a chunk size, and how many they are. -/
def readSize (limit : Nat) : Bytes → Nat → Nat → Except Outcome (Nat × Nat)
  | [], size, digits => .ok (size, digits)
  | c :: rest, size, digits =>
    match toDigit 16 c with
    | none => .ok (size, digits)
    | some v =>
      if limit / 16 + 1 < size then .error (tooLarge limit)
      else if 2 ^ 64 ≤ size * 16 + v then .error .overflow
      else readSize limit rest (size * 16 + v) (digits + 1)

/-- The turns of `read_chunked` up to a read. -/
def chunkTurn (limit : Nat) (held out : Bytes) : Phase :=
  match _h : splitOnce 10 held with
  | none => if 1024 < held.length then .done (.failed "malformed chunked response") else .line held out
  | some (line, rest) =>
    match readSize limit line 0 0 with
    | .error outcome => .done outcome
    | .ok (size, digits) =>
      if digits = 0 then .done (.failed "malformed chunked response")
      else if size = 0 then .done (.reply (.body out))
      else if 2 ^ 64 ≤ out.length + size then .done .overflow
      else if limit < out.length + size then .done (tooLarge limit)
      else if 2 ^ 64 ≤ size + 2 then .done .overflow
      else if rest.length < size + 2 then .data size rest out
      else chunkTurn limit (rest.drop (size + 2)) (out ++ rest.take size)
termination_by held.length
decreasing_by
  have hcut := congrArg List.length (splitOnce_eq_some.mp _h).1
  rw [List.length_append, List.length_cons] at hcut
  rw [List.length_drop]
  omega

/-- The data of a chunk is taken when it is there. -/
def dataTurn (limit size : Nat) (held out : Bytes) : Phase :=
  if held.length < size + 2 then .data size held out
  else chunkTurn limit (held.drop (size + 2)) (out ++ held.take size)

/-- The condition of the loop over a body that is not chunked, and what follows it. -/
def bodyTurn (length : Option Nat) (body : Bytes) : Phase :=
  match length with
  | none => .body none body
  | some l =>
    if body.length < l then .body (some l) body
    else if body.length ≠ l then .done (.failed "the response is longer than its Content-Length")
    else .done (.reply (.body body))

/-- A turn of that loop after its read. -/
def moreBody (limit : Nat) (length : Option Nat) (body : Bytes) : Phase :=
  if limit < body.length then .done (tooLarge limit) else bodyTurn length body

/-- From the end of the head on; `rest` came with it. -/
def bodyStart (limit : Nat) (head rest : Bytes) : Phase :=
  match readHead (fromUtf8Lossy head) with
  | .error message => .done (.failed message)
  | .ok (.inl r) => .done (.reply r)
  | .ok (.inr .chunked) => chunkTurn limit rest []
  | .ok (.inr (.sized l)) => if limit < l then .done (tooLarge limit) else bodyTurn (some l) rest
  | .ok (.inr .closed) => bodyTurn none rest

/-- A turn of the loop over the head after its read. -/
def headTurn (limit : Nat) (data : Bytes) : Phase :=
  match findSub blankLine data with
  | some i => bodyStart limit (data.take (i + 4)) (data.drop (i + 4))
  | none => if maxHeaderBytes < data.length then .done (.failed "response headers are too large") else .head data

/-! ## The reads -/

/-- What follows when these bytes come. -/
def Phase.receive (limit : Nat) (got : Bytes) : Phase → Phase
  | .head came => headTurn limit (came ++ got)
  | .line held out => chunkTurn limit (held ++ got) out
  | .data size held out => dataTurn limit size (held ++ got) out
  | .body length came => moreBody limit length (came ++ got)
  | .done outcome => .done outcome

/-- What follows at the end of the stream. -/
def Phase.ended : Phase → Phase
  | .head _ => .done (.failed "the server closed the connection before responding")
  | .line _ _ | .data _ _ _ | .body (some _) _ => .done (.failed "the response ended early")
  | .body none came => .done (.reply (.body came))
  | .done outcome => .done outcome

/-- `Conn::read` fails, or gives some of the bytes that are left, one at least. -/
inductive Read
  | failed (message : String)
  | upTo (more : Nat)
  deriving DecidableEq

structure Exchange where
  phase : Phase
  /-- What the connection has still to give. -/
  rest : Bytes
  deriving DecidableEq

/-- One read, and the turns after it. -/
def Exchange.step (limit : Nat) (c : Exchange) : Read → Exchange
  | .failed message =>
    match c.phase with
    | .done _ => c
    | _ => { c with phase := .done (.failed message) }
  | .upTo more =>
    if c.rest = [] then { c with phase := c.phase.ended }
    else
      let k := min (more + 1) chunkBytes
      ⟨c.phase.receive limit (c.rest.take k), c.rest.drop k⟩

/-- `exchange`, as far as the reads go. -/
def exchange (limit : Nat) (bytes : Bytes) (reads : List Read) : Exchange :=
  reads.foldl (Exchange.step limit) ⟨.head [], bytes⟩

/-! ## What is asked -/

/-- The exchange ends in this way. -/
def Returns (limit : Nat) (bytes : Bytes) (reads : List Read) (outcome : Outcome) : Prop :=
  (exchange limit bytes reads).phase = .done outcome

/-- A line that has a chunk size: hexadecimal digits, and what there is of extensions. -/
def SizeLine (line : Bytes) (size : Nat) : Prop :=
  10 ∉ line ∧ ∃ digits more, line = digits ++ more ∧ digits ≠ [] ∧ valueFrom 16 0 digits = some size ∧
    ∀ c, more.head? = some c → toDigit 16 c = none

/-- Chunks, up to the one that is empty. Trailers may follow it. -/
inductive ChunkSeq : Bytes → Bytes → Prop
  | last {line more : Bytes} (hline : SizeLine line 0) : ChunkSeq (line ++ 10 :: more) []
  | chunk {line data more out : Bytes} (hline : SizeLine line data.length) (hdata : data ≠ []) (hseq : ChunkSeq more out) :
      ChunkSeq (line ++ 10 :: (data ++ 13 :: 10 :: more)) (data ++ out)

/-- The whole body, by its framing. -/
def Whole (tail body : Bytes) : Framing → Prop
  | .chunked => ChunkSeq tail body
  | .sized length => body.length = length ∧ body <+: tail
  | .closed => body = tail

/-- The response has a body that is framed so, and it follows the head. -/
def Framed (bytes : Bytes) (stop : Nat) (framing : Framing) : Prop :=
  findSub blankLine bytes = some stop ∧ readHead (fromUtf8Lossy (bytes.take (stop + 4))) = .ok (.inr framing)

/-- Every exchange comes to an end, and a body that is returned is whole and within the limit. -/
structure Kept (limit : Nat) (bytes : Bytes) : Prop where
  ends : ∀ reads : List Read, bytes.length < reads.length → ∃ outcome, Returns limit bytes reads outcome
  whole : ∀ reads body, Returns limit bytes reads (.reply (.body body)) → body.length ≤ limit ∧
    ∃ stop framing, Framed bytes stop framing ∧ Whole (bytes.drop (stop + 4)) body framing

/-- The longest line with a chunk size that is read. -/
def lineBytes : Nat := 1024 + chunkBytes

/-- The chunks before `more` are taken for `out`; `proper` if two line break bytes follow the data
of each of them. -/
inductive Chunks (limit : Nat) (tail : Bytes) : Bytes → Bytes → Bool → Prop
  | start : Chunks limit tail [] tail true
  | chunk {line data gap more out : Bytes} {proper : Bool} (h : Chunks limit tail out (line ++ 10 :: (data ++ (gap ++ more))) proper)
      (hline : SizeLine line data.length) (hread : line.length < lineBytes) (hdata : data ≠ []) (hgap : gap.length = 2)
      (hlimit : out.length + data.length ≤ limit) (hsize : data.length + 2 < 2 ^ 64) :
      Chunks limit tail (out ++ data) more (proper && gap == [13, 10])

/-- What does not go wrong with a body that is framed so. -/
def Proper (limit : Nat) (bytes : Bytes) (stop : Nat) : Framing → Prop
  | .sized _ => True
  | .closed => (bytes.drop (stop + 4)).length ≤ limit ∨ chunkBytes ≤ (bytes.drop (stop + 4)).length ∨
      maxHeaderBytes + chunkBytes < bytes.length
  | .chunked => maxHeaderBytes + chunkBytes < stop + 4 ∨ ∀ out line more, SizeLine line 0 → line.length < lineBytes →
      ¬ Chunks limit (bytes.drop (stop + 4)) out (line ++ 10 :: more) false

namespace HttpsLemmas

variable {limit stop size : Nat} {bytes tail line digits held out more body rest : Bytes} {proper : Bool} {framing : Framing}

/-- A head of a chunked response. -/
def chunkedHead : Bytes := utf8 "HTTP/1.1 200 OK\r\nTransfer-Encoding: chunked\r\n\r\n"

theorem chunkedHead_framed (tail : Bytes) : Framed (chunkedHead ++ tail) 43 .chunked ∧ (chunkedHead ++ tail).drop (43 + 4) = tail := by
  have hlen : chunkedHead.length = 43 + 4 := by decide +kernel
  have hread : readHead (fromUtf8Lossy chunkedHead) = .ok (.inr .chunked) := by decide +kernel
  refine ⟨⟨findSub_append tail (by decide +kernel), ?_⟩, List.drop_left' hlen⟩
  rw [List.take_left' hlen, hread]

/-! ### Sizes -/

theorem valueFrom_le {s n : Nat} {ds : Bytes} (h : valueFrom 16 s ds = some n) : s ≤ n ∧ (ds ≠ [] → s ≤ n / 16) := by
  induction ds generalizing s with
  | nil =>
    rw [valueFrom_nil] at h
    exact ⟨(Option.some.inj h).le, fun hne => (hne rfl).elim⟩
  | cons c ds ih =>
    rw [valueFrom_cons] at h
    obtain ⟨v, -, hrest⟩ := Option.bind_eq_some_iff.mp h
    have hle := (ih hrest).1
    exact ⟨by omega, fun _ => by omega⟩

theorem readSize_none {c : Byte} (h : toDigit 16 c = none) (rest : Bytes) (s n : Nat) :
    readSize limit (c :: rest) s n = .ok (s, n) := by
  rw [readSize, h]

theorem readSize_some {c : Byte} {v : Nat} (h : toDigit 16 c = some v) (rest : Bytes) (s n : Nat) :
    readSize limit (c :: rest) s n =
      if limit / 16 + 1 < s then .error (tooLarge limit) else if 2 ^ 64 ≤ s * 16 + v then .error .overflow
      else readSize limit rest (s * 16 + v) (n + 1) := by
  rw [readSize, h]

theorem readSize_ok {s n s' n' : Nat} (h : readSize limit line s n = .ok (s', n')) :
    ∃ digits more, line = digits ++ more ∧ valueFrom 16 s digits = some s' ∧ n' = n + digits.length ∧
      (∀ c, more.head? = some c → toDigit 16 c = none) ∧ (s ≤ 16 * (limit / 16) + 31 → s' ≤ 16 * (limit / 16) + 31) := by
  induction line generalizing s n with
  | nil =>
    obtain ⟨rfl, rfl⟩ := Prod.mk.inj (Except.ok.inj h)
    exact ⟨[], [], rfl, rfl, rfl, fun c hc => (by cases hc), id⟩
  | cons c line ih =>
    cases hdigit : toDigit 16 c with
    | none =>
      rw [readSize_none hdigit, Except.ok.injEq, Prod.mk.injEq] at h
      obtain ⟨rfl, rfl⟩ := h
      refine ⟨[], c :: line, rfl, rfl, rfl, fun c' hc' => ?_, id⟩
      rw [← Option.some.inj hc', hdigit]
    | some v =>
      rw [readSize_some hdigit] at h
      have hv := toDigit_lt hdigit
      split at h
      · cases h
      split at h
      · cases h
      obtain ⟨digits, more, rfl, hvalue, rfl, hmore, hle⟩ := ih h
      refine ⟨c :: digits, more, rfl, ?_, by rw [List.length_cons]; omega, hmore, fun _ => hle (by omega)⟩
      rw [valueFrom_cons, hdigit, Option.bind_some, hvalue]

/-- Digits that pass are read. -/
theorem readSize_append {s n s' : Nat} (hvalue : valueFrom 16 s digits = some s') (hguard : s' / 16 ≤ limit / 16 + 1)
    (hfits : s' < 2 ^ 64) : readSize limit (digits ++ more) s n = readSize limit more s' (n + digits.length) := by
  induction digits generalizing s n with
  | nil =>
    rw [valueFrom_nil] at hvalue
    rw [Option.some.inj hvalue, List.nil_append]
    rfl
  | cons c digits ih =>
    rw [valueFrom_cons] at hvalue
    obtain ⟨v, hdigit, hrest⟩ := Option.bind_eq_some_iff.mp hvalue
    have hnext := (valueFrom_le hrest).1
    rw [List.cons_append, readSize_some hdigit, if_neg (by omega), if_neg (by omega), ih hrest, List.length_cons]
    congr 1
    omega

theorem readSize_value {s n s' : Nat} (hvalue : valueFrom 16 s digits = some s')
    (hmore : ∀ c, more.head? = some c → toDigit 16 c = none) (hguard : s' / 16 ≤ limit / 16 + 1) (hfits : s' < 2 ^ 64) : readSize limit (digits ++ more) s n = .ok (s', n + digits.length) := by
  rw [readSize_append hvalue hguard hfits]
  cases more with
  | nil => rfl
  | cons c more =>
    rw [readSize_none (hmore c rfl)]

/-- From most limits on no size overflows. -/
theorem readSize_error {s n : Nat} {outcome : Outcome} (hlimit : limit ≤ 2 ^ 63 - 16) (h : readSize limit line s n = .error outcome) :
    outcome = tooLarge limit := by
  induction line generalizing s n with
  | nil => cases h
  | cons c line ih =>
    cases hdigit : toDigit 16 c with
    | none =>
      rw [readSize_none hdigit] at h
      cases h
    | some v =>
      rw [readSize_some hdigit] at h
      have hv := toDigit_lt hdigit
      split at h
      · exact (Except.error.inj h).symm
      next hguard =>
        rw [if_neg (by omega)] at h
        exact ih h

theorem readSize_other {s n : Nat} {outcome : Outcome} (h : readSize limit line s n = .error outcome) :
    ∀ body, outcome ≠ .reply (.body body) := by
  induction line generalizing s n with
  | nil => cases h
  | cons c line ih =>
    cases hdigit : toDigit 16 c with
    | none =>
      rw [readSize_none hdigit] at h
      cases h
    | some v =>
      rw [readSize_some hdigit] at h
      split at h
      · rw [← Except.error.inj h]
        exact fun body hbody => by cases hbody
      split at h
      · rw [← Except.error.inj h]
        exact fun body hbody => by cases hbody
      · exact ih h

/-- A line has one size. -/
theorem size_unique {a b : Nat} (ha : SizeLine line a) (hb : SizeLine line b) : a = b := by
  obtain ⟨-, digits, more, rfl, -, hvalue, hmore⟩ := ha
  obtain ⟨-, digits', more', hsplit, -, hvalue', hmore'⟩ := hb
  have hdigits : ∀ {ds : Bytes} {s n : Nat}, valueFrom 16 s ds = some n → ∀ c ∈ ds, (toDigit 16 c).isSome = true := by
    intro ds
    induction ds with
    | nil => exact fun _ c hc => by cases hc
    | cons d ds ih =>
      intro s n h
      rw [valueFrom_cons] at h
      obtain ⟨v, hd, hrest⟩ := Option.bind_eq_some_iff.mp h
      exact List.forall_mem_cons.mpr ⟨by rw [hd]; rfl, ih hrest⟩
  have htake : ∀ {ds m : Bytes} {n : Nat}, valueFrom 16 0 ds = some n → (∀ c, m.head? = some c → toDigit 16 c = none) →
      (ds ++ m).takeWhile (fun c => (toDigit 16 c).isSome) = ds := by
    intro ds m n hds hm
    rw [List.takeWhile_append_of_pos (hdigits hds)]
    cases m with
    | nil => rw [List.takeWhile_nil, List.append_nil]
    | cons c m =>
      rw [List.takeWhile_cons_of_neg (by rw [hm c rfl]; exact Bool.false_ne_true), List.append_nil]
  have hsame : digits = digits' := by rw [← htake hvalue hmore, hsplit, htake hvalue' hmore']
  rw [hsame, hvalue'] at hvalue
  exact (Option.some.inj hvalue).symm

/-! ### Chunks -/

/-- A line with a size is one line. -/
theorem line_unique {line' more' : Bytes} {a b : Nat} (ha : SizeLine line a) (hb : SizeLine line' b)
    (h : line ++ 10 :: more = line' ++ 10 :: more') : line = line' ∧ more = more' ∧ a = b := by
  have hcut := congrArg (splitOnce 10) h
  rw [splitOnce_append ha.1, splitOnce_append hb.1, Option.some.injEq, Prod.mk.injEq] at hcut
  obtain ⟨rfl, rfl⟩ := hcut
  exact ⟨rfl, rfl, size_unique ha hb⟩

theorem chunks_limit (h : Chunks limit tail out more proper) : out.length ≤ limit := by
  cases h with
  | start => exact Nat.zero_le _
  | chunk h hline hread hdata hgap hlimit hsize =>
    rw [List.length_append]
    exact hlimit

/-- Chunks that are as they should be come before a sequence. -/
theorem chunks_seq (h : Chunks limit tail out more proper) (hproper : proper = true) (hseq : ChunkSeq more body) :
    ChunkSeq tail (out ++ body) := by
  induction h generalizing body with
  | start => exact hseq
  | @chunk line data gap more out proper h hline hread hdata hgap hlimit hsize ih =>
    obtain ⟨hbefore, heq⟩ := Bool.and_eq_true_iff.mp hproper
    rw [beq_iff_eq.mp heq] at ih
    rw [List.append_assoc]
    exact ih hbefore (.chunk hline hdata hseq)

/-- And such a sequence has no others in it. -/
theorem seq_chunks (h : Chunks limit tail out more proper) (hseq : ChunkSeq tail body) :
    proper = true ∧ ∃ body', body = out ++ body' ∧ ChunkSeq more body' := by
  induction h with
  | start => exact ⟨rfl, body, rfl, hseq⟩
  | @chunk line data gap more out proper h hline hread hdata hgap hlimit hsize ih =>
    obtain ⟨hproper, body', rfl, hbody⟩ := ih
    generalize htext : line ++ 10 :: (data ++ (gap ++ more)) = text at hbody
    cases hbody with
    | @last line' more' hline' =>
      obtain ⟨-, -, hzero⟩ := line_unique hline hline' htext
      exact absurd (List.eq_nil_of_length_eq_zero hzero) hdata
    | @chunk line' data' more' out' hline' hdata' hseq' =>
      obtain ⟨-, hrest, hlen⟩ := line_unique hline hline' htext
      obtain ⟨rfl, hgaps⟩ := List.append_inj hrest hlen
      have hgaps' : gap ++ more = [13, 10] ++ more' := hgaps
      obtain ⟨rfl, rfl⟩ := List.append_inj hgaps' hgap
      rw [hproper, ← List.append_assoc]
      exact ⟨rfl, out', rfl, hseq'⟩

/-! ### What is kept -/

/-- All that came so far was within the limit, or it came with the head. -/
def Came (limit stop : Nat) (body : Bytes) : Prop :=
  body.length ≤ limit ∨ body.length < chunkBytes ∧ stop + 4 + body.length ≤ maxHeaderBytes + chunkBytes

/-- Behind the head, by the framing. -/
inductive Reading (limit : Nat) (bytes : Bytes) (stop : Nat) (rest : Bytes) : Framing → Phase → Prop
  | line {held out : Bytes} {proper : Bool} (h : Chunks limit (bytes.drop (stop + 4)) out (held ++ rest) proper)
      (hheld : held.length ≤ 1024) : Reading limit bytes stop rest .chunked (.line held out)
  | data {line held out : Bytes} {size : Nat} {proper : Bool}
      (h : Chunks limit (bytes.drop (stop + 4)) out (line ++ 10 :: (held ++ rest)) proper) (hline : SizeLine line size)
      (hread : line.length < lineBytes) (hpos : 0 < size) (hsize : size + 2 < 2 ^ 64) (hlimit : out.length + size ≤ limit)
      (hheld : held.length < size + 2) : Reading limit bytes stop rest .chunked (.data size held out)
  | sized {body : Bytes} {l : Nat} (hsplit : bytes.drop (stop + 4) = body ++ rest) (hl : l ≤ limit) :
      Reading limit bytes stop rest (.sized l) (.body (some l) body)
  | closed {body : Bytes} (hsplit : bytes.drop (stop + 4) = body ++ rest) (hcame : Came limit stop body) :
      Reading limit bytes stop rest .closed (.body none body)
  | chunks {line more out : Bytes} {proper : Bool} (h : Chunks limit (bytes.drop (stop + 4)) out (line ++ 10 :: more) proper)
      (hline : SizeLine line 0) (hread : line.length < lineBytes) : Reading limit bytes stop rest .chunked (.done (.reply (.body out)))
  | length {body : Bytes} (hbody : body <+: bytes.drop (stop + 4)) (hl : body.length ≤ limit) :
      Reading limit bytes stop rest (.sized body.length) (.done (.reply (.body body)))
  | all {body : Bytes} (hbody : body = bytes.drop (stop + 4)) (hcame : Came limit stop body) :
      Reading limit bytes stop rest .closed (.done (.reply (.body body)))

/-- Where an exchange is. -/
inductive At (limit : Nat) (bytes rest : Bytes) : Phase → Prop
  | head {data : Bytes} (hsplit : bytes = data ++ rest) (hnone : findSub blankLine data = none)
      (hfit : data.length ≤ maxHeaderBytes) : At limit bytes rest (.head data)
  | found {stop : Nat} {framing : Framing} {phase : Phase} (hframed : Framed bytes stop framing)
      (hhead : stop + 4 ≤ maxHeaderBytes + chunkBytes) (h : Reading limit bytes stop rest framing phase) : At limit bytes rest phase
  | other {outcome : Outcome} (hbody : ∀ body, outcome ≠ .reply (.body body)) (hover : outcome = .overflow → 2 ^ 63 - 16 < limit) :
      At limit bytes rest (.done outcome)

theorem failed_at (message : String) : At limit bytes rest (.done (.failed message)) :=
  .other (fun body h => (by cases h)) (fun h => by cases h)

theorem tooLarge_at : At limit bytes rest (.done (tooLarge limit)) := failed_at _

/-- A chunk whose data is there. -/
theorem chunk_taken (h : Chunks limit tail out (line ++ 10 :: (held ++ rest)) proper) (hline : SizeLine line size)
    (hread : line.length < lineBytes) (hpos : 0 < size) (hsize : size + 2 < 2 ^ 64) (hlimit : out.length + size ≤ limit)
    (hheld : size + 2 ≤ held.length) :
    ∃ proper', Chunks limit tail (out ++ held.take size) (held.drop (size + 2) ++ rest) proper' := by
  have htaken : (held.take size).length = size := List.length_take_of_le (by omega)
  have hgap : ((held.drop size).take 2).length = 2 := List.length_take_of_le (by rw [List.length_drop]; omega)
  have hsplit : held ++ rest = held.take size ++ ((held.drop size).take 2 ++ (held.drop (size + 2) ++ rest)) := by
    rw [← List.append_assoc ((held.drop size).take 2), ← List.drop_drop, List.take_append_drop, ← List.append_assoc,
      List.take_append_drop]
  rw [hsplit] at h
  exact ⟨_, .chunk h (by rwa [htaken]) hread (List.ne_nil_of_length_pos (by omega)) hgap (by omega) (by omega)⟩

/-- The turns of `read_chunked` take chunks. -/
theorem chunkTurn_at (hframed : Framed bytes stop .chunked) (hhead : stop + 4 ≤ maxHeaderBytes + chunkBytes) (held out : Bytes)
    (proper : Bool) (h : Chunks limit (bytes.drop (stop + 4)) out (held ++ rest) proper) (hheld : held.length ≤ lineBytes) :
    At limit bytes rest (chunkTurn limit held out) := by
  induction hlen : held.length using Nat.strongRecOn generalizing held out proper with
  | ind n ih =>
    rw [chunkTurn]
    split
    · split
      · exact failed_at _
      next hshort => exact .found hframed hhead (.line h (Nat.not_lt.mp hshort))
    next line more hcut =>
      obtain ⟨rfl, hfree⟩ := splitOnce_eq_some.mp hcut
      rw [List.length_append, List.length_cons] at hlen hheld
      cases hread : readSize limit line 0 0 with
      | error outcome =>
        refine .other (readSize_other hread) fun hover => ?_
        by_contra hlimit
        rw [readSize_error (Nat.not_lt.mp hlimit) hread] at hover
        cases hover
      | ok x =>
        obtain ⟨size, digits⟩ := x
        obtain ⟨ds, ext, rfl, hvalue, hcount, hext, hbound⟩ := readSize_ok hread
        dsimp only
        split
        · exact failed_at _
        next hdigits =>
        have hline : SizeLine (ds ++ ext) size := by
          refine ⟨hfree, ds, ext, rfl, ?_, hvalue, hext⟩
          rintro rfl
          exact hdigits hcount
        have hshort : (ds ++ ext).length < lineBytes := by omega
        rw [List.append_assoc, List.cons_append] at h
        have hout := chunks_limit h
        split
        next hzero =>
          rw [hzero] at hline
          exact .found hframed hhead (.chunks h hline hshort)
        next hpos =>
        split
        · exact .other (fun body h => (by cases h)) fun _ => by omega
        split
        · exact tooLarge_at
        next hlimit =>
        split
        · exact .other (fun body h => (by cases h)) fun _ => by omega
        next hsize =>
        split
        next hwait =>
          exact .found hframed hhead
            (.data h hline hshort (Nat.pos_of_ne_zero hpos) (Nat.not_le.mp hsize) (Nat.not_lt.mp hlimit) hwait)
        next hall =>
          obtain ⟨proper', hnext⟩ := chunk_taken h hline hshort (by omega) (by omega) (by omega) (Nat.not_lt.mp hall)
          refine ih _ ?_ _ _ _ hnext ?_ rfl
          · rw [List.length_drop]
            omega
          · rw [List.length_drop]
            omega

/-- A line that has not ended. -/
theorem chunkTurn_short (hfree : (10 : Byte) ∉ held) (hshort : held.length ≤ 1024) : chunkTurn limit held out = .line held out := by
  have hnone : splitOnce 10 held = none := splitOnce_eq_none.mpr hfree
  rw [chunkTurn]
  split
  · exact if_neg (Nat.not_lt.mpr hshort)
  next line' rest' hcut =>
    rw [hnone] at hcut
    cases hcut

/-- What is made of a line that is there. -/
theorem chunkTurn_line (hfree : (10 : Byte) ∉ line) : chunkTurn limit (line ++ 10 :: more) out =
    match readSize limit line 0 0 with
    | .error outcome => .done outcome
    | .ok (size, digits) =>
      if digits = 0 then .done (.failed "malformed chunked response")
      else if size = 0 then .done (.reply (.body out))
      else if 2 ^ 64 ≤ out.length + size then .done .overflow
      else if limit < out.length + size then .done (tooLarge limit)
      else if 2 ^ 64 ≤ size + 2 then .done .overflow
      else dataTurn limit size more out := by
  have hcut' : splitOnce 10 (line ++ 10 :: more) = some (line, more) := splitOnce_append hfree
  rw [chunkTurn]
  split
  next hnone =>
    rw [hcut'] at hnone
    cases hnone
  next line' rest' hcut =>
    rw [hcut', Option.some.injEq, Prod.mk.injEq] at hcut
    obtain ⟨rfl, rfl⟩ := hcut
    rfl

theorem dataTurn_at (hframed : Framed bytes stop .chunked) (hhead : stop + 4 ≤ maxHeaderBytes + chunkBytes)
    (h : Chunks limit (bytes.drop (stop + 4)) out (line ++ 10 :: (held ++ rest)) proper) (hline : SizeLine line size)
    (hread : line.length < lineBytes) (hpos : 0 < size) (hsize : size + 2 < 2 ^ 64) (hlimit : out.length + size ≤ limit)
    (hheld : held.length ≤ size + 2 + lineBytes) : At limit bytes rest (dataTurn limit size held out) := by
  rw [dataTurn]
  split
  next hwait => exact .found hframed hhead (.data h hline hread hpos hsize hlimit hwait)
  next hall =>
    obtain ⟨proper', hnext⟩ := chunk_taken h hline hread hpos hsize hlimit (Nat.not_lt.mp hall)
    refine chunkTurn_at hframed hhead _ _ _ hnext ?_
    rw [List.length_drop]
    omega

theorem bodyTurn_at (hframed : Framed bytes stop framing) (hhead : stop + 4 ≤ maxHeaderBytes + chunkBytes)
    (hsplit : bytes.drop (stop + 4) = body ++ rest) {length : Option Nat}
    (hframing : framing = length.elim .closed .sized) (hl : ∀ l, length = some l → l ≤ limit)
    (hcame : length = none → Came limit stop body) : At limit bytes rest (bodyTurn length body) := by
  cases length with
  | none =>
    rw [hframing] at hframed
    exact .found hframed hhead (.closed hsplit (hcame rfl))
  | some l =>
    rw [hframing] at hframed
    rw [bodyTurn]
    split
    · exact .found hframed hhead (.sized hsplit (hl l rfl))
    split
    · exact failed_at _
    next hall heq =>
      obtain rfl := Decidable.not_not.mp heq
      exact .found hframed hhead (.length ⟨rest, hsplit.symm⟩ (hl _ rfl))

theorem readHead_bare {headers : String} {r : Reply} (h : readHead headers = .ok (.inl r)) (body : Bytes) : r ≠ .body body := by
  unfold readHead at h
  split at h
  · cases h
  split at h
  · cases h
  split at h
  · cases h
    exact fun hbody => by cases hbody
  split at h
  · cases h
    exact fun hbody => by cases hbody
  split at h
  · cases h
  split at h
  · split at h <;> cases h
  · cases h

theorem bodyStart_at (hfind : findSub blankLine bytes = some stop) (hhead : stop + 4 ≤ maxHeaderBytes + chunkBytes)
    (hsplit : bytes.drop (stop + 4) = held ++ rest) (hlast : held.length < chunkBytes)
    (hcame : stop + 4 + held.length ≤ maxHeaderBytes + chunkBytes) :
    At limit bytes rest (bodyStart limit (bytes.take (stop + 4)) held) := by
  rw [bodyStart]
  cases hread : readHead (fromUtf8Lossy (bytes.take (stop + 4))) with
  | error message => exact failed_at _
  | ok answer =>
    cases answer with
    | inl r => exact .other (fun body h => readHead_bare hread body (Outcome.reply.inj h)) fun h => (by cases h)
    | inr framing =>
      have hframed : Framed bytes stop framing := ⟨hfind, hread⟩
      cases framing with
      | chunked =>
        refine chunkTurn_at hframed hhead _ _ true ?_ (by rw [lineBytes]; omega)
        rw [← hsplit]
        exact .start
      | sized l =>
        dsimp only
        split
        · exact tooLarge_at
        next hl => exact bodyTurn_at hframed hhead hsplit rfl (fun l' h => by cases h; omega) (fun h => by cases h)
      | closed => exact bodyTurn_at hframed hhead hsplit rfl (fun l' h => by cases h) fun _ => .inr ⟨hlast, hcame⟩

theorem headTurn_none {data : Bytes} (h : findSub blankLine data = none) : headTurn limit data =
    if maxHeaderBytes < data.length then .done (.failed "response headers are too large") else .head data := by
  rw [headTurn, h]

theorem headTurn_found {data : Bytes} {i : Nat} (h : findSub blankLine data = some i) :
    headTurn limit data = bodyStart limit (data.take (i + 4)) (data.drop (i + 4)) := by
  rw [headTurn, h]

theorem headTurn_at {data got : Bytes} (hsplit : bytes = data ++ got ++ rest) (hnone : findSub blankLine data = none)
    (hfit : data.length ≤ maxHeaderBytes) (hgot : got.length ≤ chunkBytes) : At limit bytes rest (headTurn limit (data ++ got)) := by
  rw [headTurn]
  cases hfind : findSub blankLine (data ++ got) with
  | none =>
    dsimp only
    split
    · exact failed_at _
    next hshort => exact .head hsplit hfind (Nat.not_lt.mp hshort)
  | some stop =>
    have hall : findSub blankLine bytes = some stop := by
      rw [hsplit]
      exact findSub_append rest hfind
    have hlen : stop + 4 ≤ (data ++ got).length := (findSub_eq_some hfind).2
    have hnew : data.length < stop + 4 := by
      by_contra hold
      rw [(findSub_within hfind).2.mpr (Nat.not_lt.mp hold)] at hnone
      cases hnone
    have htake : (data ++ got).take (stop + 4) = bytes.take (stop + 4) := by
      rw [hsplit, List.take_append_of_le_length hlen]
    have hdrop : bytes.drop (stop + 4) = (data ++ got).drop (stop + 4) ++ rest := by
      rw [hsplit, List.drop_append_of_le_length hlen]
    have hsum : (data ++ got).length = data.length + got.length := List.length_append
    dsimp only
    rw [htake]
    refine bodyStart_at hall ?_ hdrop ?_ ?_
    · omega
    · rw [List.length_drop]
      omega
    · rw [List.length_drop]
      omega

theorem start_at (bytes : Bytes) : At limit bytes bytes (.head []) := .head rfl (by decide) (Nat.zero_le _)

/-- The end of the stream. -/
theorem ended_at {phase : Phase} (h : At limit bytes [] phase) : At limit bytes [] phase.ended := by
  cases h with
  | head hsplit hnone hfit => exact failed_at _
  | found hframed hhead h =>
    cases h with
    | line h hheld => exact failed_at _
    | data h hline hread hpos hsize hlimit hheld => exact failed_at _
    | sized hsplit hl => exact failed_at _
    | closed hsplit hcame => exact .found hframed hhead (.all (by rw [hsplit, List.append_nil]) hcame)
    | chunks h hline hread => exact .found hframed hhead (.chunks h hline hread)
    | length hbody hl => exact .found hframed hhead (.length hbody hl)
    | all hbody hcame => exact .found hframed hhead (.all hbody hcame)
  | other hbody hover => exact .other hbody hover

/-- Bytes that come. -/
theorem receive_at {phase : Phase} {got : Bytes} (h : At limit bytes (got ++ rest) phase) (hgot : got.length ≤ chunkBytes) :
    At limit bytes rest (phase.receive limit got) := by
  cases h with
  | head hsplit hnone hfit => exact headTurn_at (by rw [hsplit, List.append_assoc]) hnone hfit hgot
  | found hframed hhead h =>
    cases h with
    | @line held out proper h hheld =>
      rw [← List.append_assoc] at h
      refine chunkTurn_at hframed hhead _ _ _ h ?_
      rw [List.length_append, lineBytes]
      omega
    | @data line held out size proper h hline hread hpos hsize hlimit hheld =>
      rw [← List.append_assoc] at h
      refine dataTurn_at hframed hhead h hline hread hpos hsize hlimit ?_
      rw [List.length_append, lineBytes]
      omega
    | @sized body l hsplit hl =>
      rw [← List.append_assoc] at hsplit
      rw [Phase.receive, moreBody]
      split
      · exact tooLarge_at
      · exact bodyTurn_at hframed hhead hsplit rfl (fun l' h => by cases h; exact hl) (fun h => by cases h)
    | @closed body hsplit hcame =>
      rw [← List.append_assoc] at hsplit
      rw [Phase.receive, moreBody]
      split
      · exact tooLarge_at
      next hl => exact bodyTurn_at hframed hhead hsplit rfl (fun l' h => by cases h) fun _ => .inl (Nat.not_lt.mp hl)
    | chunks h hline hread => exact .found hframed hhead (.chunks h hline hread)
    | length hbody hl => exact .found hframed hhead (.length hbody hl)
    | all hbody hcame => exact .found hframed hhead (.all hbody hcame)
  | other hbody hover => exact .other hbody hover

variable {c : Exchange}

/-- A read keeps what holds of the exchange. -/
theorem step_inv (h : At limit bytes c.rest c.phase) (read : Read) :
    At limit bytes (c.step limit read).rest (c.step limit read).phase := by
  obtain ⟨phase, rest⟩ := c
  cases read with
  | failed message =>
    rw [Exchange.step]
    cases phase with
    | done outcome => exact h
    | head data => exact failed_at message
    | line held out => exact failed_at message
    | data size held out => exact failed_at message
    | body length body => exact failed_at message
  | upTo more =>
    rw [Exchange.step]
    split
    next hend =>
      subst hend
      exact ended_at h
    next hrest =>
      rw [← List.take_append_drop (min (more + 1) chunkBytes) rest] at h
      exact receive_at h ((List.length_take_le _ _).trans (Nat.min_le_right _ _))

theorem run_inv (h : At limit bytes c.rest c.phase) (reads : List Read) :
    At limit bytes (reads.foldl (Exchange.step limit) c).rest (reads.foldl (Exchange.step limit) c).phase := by
  induction reads generalizing c with
  | nil => exact h
  | cons read reads ih => exact ih (step_inv h read)

theorem returns_at {reads : List Read} {outcome : Outcome} (h : Returns limit bytes reads outcome) :
    At limit bytes (exchange limit bytes reads).rest (.done outcome) := by
  have hat := run_inv (c := ⟨.head [], bytes⟩) (@start_at limit bytes) reads
  rw [← h]
  exact hat

/-! ### The end -/

/-- The exchange is over, or has taken so many bytes. -/
def Advanced (before n : Nat) (c : Exchange) : Prop := (∃ outcome, c.phase = .done outcome) ∨ c.rest.length + n ≤ before

theorem step_done {outcome : Outcome} (h : c.phase = .done outcome) (read : Read) : (c.step limit read).phase = .done outcome := by
  obtain ⟨phase, rest⟩ := c
  subst h
  cases read with
  | failed message => rfl
  | upTo more =>
    rw [Exchange.step]
    split <;> rfl

theorem run_done {outcome : Outcome} (h : c.phase = .done outcome) (reads : List Read) :
    (reads.foldl (Exchange.step limit) c).phase = .done outcome := by
  induction reads generalizing c with
  | nil => exact h
  | cons read reads ih => exact ih (step_done h read)

theorem step_advanced (read : Read) : Advanced c.rest.length 1 (c.step limit read) := by
  obtain ⟨phase, rest⟩ := c
  cases read with
  | failed message =>
    cases phase <;> exact .inl ⟨_, rfl⟩
  | upTo more =>
    rw [Exchange.step]
    split
    · cases phase with
      | body length body => cases length <;> exact .inl ⟨_, rfl⟩
      | head data => exact .inl ⟨_, rfl⟩
      | line held out => exact .inl ⟨_, rfl⟩
      | data size held out => exact .inl ⟨_, rfl⟩
      | done outcome => exact .inl ⟨_, rfl⟩
    next hrest =>
      have hpos := List.length_pos_of_ne_nil hrest
      have hchunk : 0 < chunkBytes := by decide
      refine .inr ?_
      rw [List.length_drop]
      omega

theorem run_advanced (reads : List Read) : Advanced c.rest.length reads.length (reads.foldl (Exchange.step limit) c) := by
  induction reads generalizing c with
  | nil => exact .inr (Nat.le_refl _)
  | cons read reads ih =>
    rcases @step_advanced limit c read with ⟨outcome, hdone⟩ | hless
    · exact .inl ⟨outcome, run_done hdone reads⟩
    · refine (@ih (c.step limit read)).imp_right fun hrest => ?_
      rw [List.foldl_cons, List.length_cons]
      omega

/-! ### Reads that are chosen -/

/-- How a text comes to be there at the end of a read: byte by byte, up to where the rest of it fits into one. -/
theorem reach {waiting turn : Bytes → Phase} {x : Bytes} {m : Nat}
    (hreceive : ∀ held got, (waiting held).receive limit got = turn (held ++ got))
    (hwait : ∀ n ≤ m, turn (x.take n) = waiting (x.take n)) (hm : m < x.length) (hlast : x.length ≤ m + chunkBytes)
    (hphase : c.phase = waiting []) (hrest : c.rest = x ++ more) :
    ∃ reads : List Read, reads.foldl (Exchange.step limit) c = ⟨turn x, more⟩ := by
  have hread : ∀ n k, n < x.length → n + (k + 1) ≤ x.length → k + 1 ≤ chunkBytes →
      (Exchange.mk (waiting (x.take n)) (x.drop n ++ more)).step limit (.upTo k) =
        ⟨turn (x.take (n + (k + 1))), x.drop (n + (k + 1)) ++ more⟩ := by
    intro n k hn hk hchunk
    have hne : x.drop n ++ more ≠ [] := fun hnil =>
      absurd (List.drop_eq_nil_iff.mp (List.append_eq_nil_iff.mp hnil).1) (Nat.not_le.mpr hn)
    have hlen : k + 1 ≤ (x.drop n).length := by
      rw [List.length_drop]
      omega
    rw [Exchange.step]
    dsimp only
    rw [if_neg hne, Nat.min_eq_left hchunk, List.take_append_of_le_length hlen, List.drop_append_of_le_length hlen, hreceive,
      ← List.take_add, List.drop_drop]
  have hsingle : ∀ n ≤ m,
      (List.replicate n (Read.upTo 0)).foldl (Exchange.step limit) c = ⟨waiting (x.take n), x.drop n ++ more⟩ := by
    intro n hn
    induction n with
    | zero =>
      rw [List.replicate_zero, List.foldl_nil, List.take_zero, List.drop_zero, ← hphase, ← hrest]
    | succ n ih =>
      rw [List.replicate_succ', List.foldl_append, ih (Nat.le_of_succ_le hn), List.foldl_cons, List.foldl_nil,
        hread n 0 (by omega) (by omega) (by decide), hwait (n + (0 + 1)) hn]
  refine ⟨List.replicate m (.upTo 0) ++ [.upTo (x.length - m - 1)], ?_⟩
  have hall : m + (x.length - m - 1 + 1) = x.length := by omega
  rw [List.foldl_append, hsingle m (Nat.le_refl _), List.foldl_cons, List.foldl_nil, hread m _ hm (by omega) (by omega), hall,
    List.take_length, List.drop_length, List.nil_append]

/-- An exchange comes to be there. -/
def Reached (limit : Nat) (bytes : Bytes) (c : Exchange) : Prop := ∃ reads, exchange limit bytes reads = c

theorem Reached.next {c' : Exchange} (h : Reached limit bytes c) (hmore : ∃ reads : List Read, reads.foldl (Exchange.step limit) c = c') :
    Reached limit bytes c' := by
  obtain ⟨reads, rfl⟩ := h
  obtain ⟨reads', rfl⟩ := hmore
  refine ⟨reads ++ reads', ?_⟩
  rw [exchange, List.foldl_append]
  rfl

/-- The head is there with what may come with it. -/
theorem head_reached {x : Bytes} (hfind : findSub blankLine bytes = some stop) (hsplit : bytes = x ++ more) (hall : stop + 4 ≤ x.length)
    (hlast : x.length ≤ min (stop + 3) maxHeaderBytes + chunkBytes) : Reached limit bytes ⟨headTurn limit x, more⟩ := by
  refine @reach limit more _ .head (headTurn limit) x (min (stop + 3) maxHeaderBytes) (fun _ _ => rfl) (fun n hn => ?_) (by omega)
    hlast rfl hsplit
  have hstarts : bytes = x.take n ++ (x.drop n ++ more) := by rw [← List.append_assoc, List.take_append_drop, hsplit]
  have htake : (x.take n).length = n := List.length_take_of_le (by omega)
  have hnone : findSub blankLine (x.take n) = none := by
    rw [hstarts] at hfind
    obtain ⟨hsame, hiff⟩ := findSub_within hfind
    cases hearly : findSub blankLine (x.take n) with
    | none => rfl
    | some k =>
      rw [hsame k hearly] at hearly
      have hle : stop + 4 ≤ (x.take n).length := hiff.mp hearly
      omega
  rw [headTurn_none hnone, htake, if_neg (by omega)]

/-- A line with a size is read so. -/
theorem sized_line (hline : SizeLine line size) (hguard : size / 16 ≤ limit / 16 + 1) (hfits : size < 2 ^ 64) :
    ∃ digits, digits ≠ 0 ∧ readSize limit line 0 0 = .ok (size, digits) := by
  obtain ⟨-, digits, more, rfl, hne, hvalue, hmore⟩ := hline
  refine ⟨0 + digits.length, ?_, readSize_value hvalue hmore hguard hfits⟩
  have hpos := List.length_pos_of_ne_nil hne
  omega

/-- A line comes to be there. -/
theorem line_reached (hfree : (10 : Byte) ∉ line) (hread : line.length < lineBytes)
    (h : Reached limit bytes ⟨.line [] out, line ++ 10 :: more⟩) : Reached limit bytes ⟨chunkTurn limit (line ++ [10]) out, more⟩ := by
  refine h.next (@reach limit more _ (fun held => .line held out) (fun held => chunkTurn limit held out) (line ++ [10])
    (min line.length 1024) (fun _ _ => rfl) (fun n hn => ?_) ?_ ?_ rfl (by simp))
  · have htake : (line ++ [10]).take n = line.take n := List.take_append_of_le_length (by omega)
    rw [htake]
    refine chunkTurn_short (fun hin => hfree (List.mem_of_mem_take hin)) ?_
    rw [List.length_take]
    omega
  · rw [List.length_append, List.length_singleton]
    omega
  · have hchunk : 0 < chunkBytes := by decide
    rw [lineBytes] at hread
    rw [List.length_append, List.length_singleton]
    omega

/-- Chunks are taken. -/
theorem chunks_reached (hlimit : limit < 2 ^ 64) (h : Chunks limit tail out more proper)
    (hstart : Reached limit bytes ⟨.line [] [], tail⟩) : Reached limit bytes ⟨.line [] out, more⟩ := by
  induction h with
  | start => exact hstart
  | @chunk line data gap more out proper h hline hread hdata hgap hsum hsize ih =>
    have hnext := line_reached hline.1 hread ih
    obtain ⟨digits, hdigits, hsized⟩ := @sized_line limit _ _ hline (by omega) (by omega)
    have hpos := List.length_pos_of_ne_nil hdata
    have hturn : chunkTurn limit (line ++ [10]) out = .data data.length [] out := by
      rw [chunkTurn_line hline.1, hsized]
      dsimp only
      rw [if_neg hdigits, if_neg (by omega), if_neg (by omega), if_neg (by omega), if_neg (by omega)]
      exact if_pos (by simp)
    rw [hturn] at hnext
    have hchunk : 0 < chunkBytes := by decide
    have hlen : (data ++ gap).length = data.length + 2 := by rw [List.length_append, hgap]
    have htaken := hnext.next (@reach limit more _ (fun held => .data data.length held out)
      (fun held => dataTurn limit data.length held out) (data ++ gap) (data.length + 1)
      (fun _ _ => rfl) (fun n hn => ?_) (by omega) (by omega) rfl (by simp))
    · have hdrop : (data ++ gap).drop (data.length + 2) = [] := List.drop_eq_nil_of_le (by omega)
      have htake : (data ++ gap).take data.length = data := List.take_left
      rw [dataTurn, if_neg (by omega), hdrop, htake, chunkTurn_short List.not_mem_nil (Nat.zero_le _)] at htaken
      exact htaken
    · rw [dataTurn, if_pos]
      rw [List.length_take]
      omega

/-- The chunks of a response come to be read. -/
theorem chunked_reached (hframed : Framed bytes stop .chunked) (hhead : stop + 4 ≤ maxHeaderBytes + chunkBytes) :
    Reached limit bytes ⟨.line [] [], bytes.drop (stop + 4)⟩ := by
  have hlen : stop + 4 ≤ bytes.length := (findSub_eq_some hframed.1).2
  have htake : (bytes.take (stop + 4)).length = stop + 4 := List.length_take_of_le hlen
  have hchunk : 0 < chunkBytes := by decide
  have hreached := @head_reached limit stop bytes _ _ hframed.1 (List.take_append_drop (stop + 4) bytes).symm (by omega) (by omega)
  have hfind : findSub blankLine (bytes.take (stop + 4)) = some stop := by
    have hfound := hframed.1
    rw [← List.take_append_drop (stop + 4) bytes] at hfound
    exact (findSub_within hfound).2.mpr htake.ge
  have hturn : headTurn limit (bytes.take (stop + 4)) = .line [] [] := by
    rw [headTurn_found hfind, List.take_take, Nat.min_self, List.drop_eq_nil_of_le htake.le, bodyStart, hframed.2]
    exact chunkTurn_short List.not_mem_nil (Nat.zero_le _)
  rwa [hturn] at hreached

/-- The empty chunk ends the body. -/
theorem last_turn (hline : SizeLine line 0) : chunkTurn limit (line ++ [10]) out = .done (.reply (.body out)) := by
  obtain ⟨digits, hdigits, hsized⟩ := @sized_line limit _ _ hline (Nat.zero_le _) (by decide)
  rw [chunkTurn_line hline.1, hsized]
  dsimp only
  rw [if_neg hdigits, if_pos rfl]

/-- A body without an end of its own is returned when its bytes came with the head. -/
theorem closed_returned (hframed : Framed bytes stop .closed) (hlast : (bytes.drop (stop + 4)).length < chunkBytes)
    (hall : bytes.length ≤ maxHeaderBytes + chunkBytes) :
    ∃ reads, Returns limit bytes reads (.reply (.body (bytes.drop (stop + 4)))) := by
  have hlen : stop + 4 ≤ bytes.length := (findSub_eq_some hframed.1).2
  rw [List.length_drop] at hlast
  obtain ⟨reads, hreads⟩ := @head_reached limit stop bytes [] bytes hframed.1 (List.append_nil _).symm hlen (by omega)
  refine ⟨reads ++ [.upTo 0], ?_⟩
  rw [Returns, exchange, List.foldl_append]
  rw [exchange] at hreads
  rw [hreads, List.foldl_cons, List.foldl_nil, headTurn_found hframed.1, bodyStart, hframed.2]
  rfl

theorem numeral_free (n : Nat) : (10 : Byte) ∉ numeral 16 n := by
  intro hin
  obtain ⟨d, hd, heq⟩ := mem_numeral (by decide) n 10 hin
  have hall : ∀ d < 16, (10 : Byte) ≠ ofDigit d := by decide
  exact hall d hd heq

theorem numeral_size (n : Nat) (hn : n < 2 ^ 64) : SizeLine (numeral 16 n) n ∧ (numeral 16 n).length ≤ 16 :=
  ⟨⟨numeral_free n, numeral 16 n, [], (List.append_nil _).symm, numeral_ne_nil, value_numeral (by decide) (by decide) n,
    fun c hc => by cases hc⟩, (length_numeral_le (by decide) (by decide)).mpr hn⟩

/-- Above a limit some sum overflows: a size itself, or a size and what was read before it. -/
theorem overflow_reached (hlow : 2 ^ 63 - 16 < limit) (hlimit : limit < 2 ^ 64) : ∃ bytes reads, Returns limit bytes reads .overflow := by
  have hlines : 1024 ≤ lineBytes := Nat.le_add_right _ _
  have hstart : ∀ tail, Reached limit (chunkedHead ++ tail) ⟨.line [] [], tail⟩ := by
    intro tail
    obtain ⟨hframed, hdrop⟩ := chunkedHead_framed tail
    have hreached := @chunked_reached limit _ _ hframed (by decide)
    rwa [hdrop] at hreached
  rcases Nat.lt_or_ge limit (2 ^ 64 - 16) with hbelow | htop
  · -- as many bytes as the limit, and the largest size that is not refused by its digits
    have hlarge : 16 * (limit / 16) + 31 < 2 ^ 64 := by omega
    obtain ⟨hline, hlen⟩ := numeral_size limit hlimit
    obtain ⟨hline', hlen'⟩ := numeral_size (16 * (limit / 16) + 31) hlarge
    have hdata : (List.replicate limit (0 : Byte)).length = limit := List.length_replicate
    obtain ⟨reads, hreads⟩ := line_reached hline'.1 (by omega) (chunks_reached hlimit
      (@Chunks.chunk limit _ (numeral 16 limit) (List.replicate limit 0) [13, 10] (numeral 16 (16 * (limit / 16) + 31) ++ [10]) [] true
        .start (by rwa [hdata]) (by omega) (List.ne_nil_of_length_pos (by omega)) rfl (by rw [hdata]; exact (Nat.zero_add _).le)
        (by omega)) (hstart _))
    obtain ⟨digits, hdigits, hsized⟩ := @sized_line limit _ _ hline' (by omega) hlarge
    refine ⟨_, reads, (congrArg Exchange.phase hreads).trans ?_⟩
    rw [chunkTurn_line hline'.1, hsized]
    dsimp only
    rw [if_neg hdigits, if_neg (by omega), if_pos]
    rw [List.nil_append, hdata]
    omega
  · have hfree : (10 : Byte) ∉ numeral 16 (2 ^ 60) ++ [48] := by
      rw [List.mem_append, List.mem_singleton, not_or]
      exact ⟨numeral_free _, by decide⟩
    obtain ⟨-, hlen⟩ := numeral_size (2 ^ 60) (by decide)
    obtain ⟨reads, hreads⟩ := @line_reached limit _ (numeral 16 (2 ^ 60) ++ [48]) [] [] hfree
      (by rw [List.length_append, List.length_singleton]; omega) (hstart _)
    refine ⟨_, reads, (congrArg Exchange.phase hreads).trans ?_⟩
    have hover : readSize limit (numeral 16 (2 ^ 60) ++ [48]) 0 0 = .error .overflow := by
      have hdigit : toDigit 16 48 = some 0 := by decide
      rw [readSize_append (value_numeral (by decide) (by decide) _) (by omega) (by decide), readSize_some hdigit,
        if_neg (by omega), if_pos (by decide)]
    rw [chunkTurn_line hfree, hover]

end HttpsLemmas

open HttpsLemmas

/-- No sum overflows just when the limit is at most so large; and a body that is returned is whole and within
the limit if and only if nothing is wrong with it by its framing. -/
theorem exchange_exact (limit : Nat) (hlimit : limit < 2 ^ 64) :
    ((∀ bytes reads, ¬ Returns limit bytes reads .overflow) ↔ limit ≤ 2 ^ 63 - 16) ∧
      ∀ bytes, Kept limit bytes ↔ ∀ stop framing, Framed bytes stop framing → Proper limit bytes stop framing := by
  refine ⟨⟨fun h => ?_, fun h bytes reads hreturns => ?_⟩, fun bytes => ⟨fun hkept stop framing hframed => ?_, fun hproper => ?_⟩⟩
  · by_contra hlow
    obtain ⟨bytes, reads, hover⟩ := overflow_reached (Nat.not_le.mp hlow) hlimit
    exact h bytes reads hover
  · cases returns_at hreturns with
    | found hframed hhead h => cases h
    | other hbody hover => exact absurd (hover rfl) (Nat.not_lt.mpr h)
  · cases framing with
    | sized l => trivial
    | closed =>
      by_contra hwrong
      obtain ⟨hlarge, hlast, hall⟩ : limit < (bytes.drop (stop + 4)).length ∧ (bytes.drop (stop + 4)).length < chunkBytes ∧
          bytes.length ≤ maxHeaderBytes + chunkBytes := by
        rw [Proper, not_or, not_or, Nat.not_le, Nat.not_le, Nat.not_lt] at hwrong
        exact hwrong
      obtain ⟨reads, hreturns⟩ := @closed_returned limit _ _ hframed hlast hall
      exact absurd (hkept.whole reads _ hreturns).1 (Nat.not_le.mpr hlarge)
    | chunked =>
      rw [Proper, or_iff_not_imp_left, Nat.not_lt]
      intro hhead out line more hline hread hchunks
      obtain ⟨reads, hreads⟩ := line_reached hline.1 hread (chunks_reached hlimit hchunks (chunked_reached hframed hhead))
      have hreturns : Returns limit bytes reads (.reply (.body out)) := by
        rw [Returns, hreads]
        exact last_turn hline
      obtain ⟨-, stop', framing', hframed', hwhole⟩ := hkept.whole reads out hreturns
      have hstop : stop' = stop := Option.some.inj (hframed'.1.symm.trans hframed.1)
      subst hstop
      have hchunked : framing' = .chunked := Sum.inr.inj (Except.ok.inj (hframed'.2.symm.trans hframed.2))
      subst hchunked
      exact Bool.false_ne_true (seq_chunks hchunks hwhole).1
  · refine ⟨fun reads hreads => ?_, fun reads body hreturns => ?_⟩
    · refine (@run_advanced limit ⟨.head [], bytes⟩ reads).resolve_right fun hless => ?_
      dsimp only at hless
      omega
    · cases returns_at hreturns with
      | other hbody hover => exact (hbody body rfl).elim
      | @found stop framing phase hframed hhead h =>
        have hfine := hproper _ _ hframed
        cases h with
        | @chunks line more _ proper h hline hread =>
          refine ⟨chunks_limit h, stop, .chunked, hframed, ?_⟩
          have hproper' : proper = true := by
            by_contra hno
            rw [Bool.eq_false_iff.mpr hno] at h
            exact hfine.elim (fun hlong => absurd hhead (Nat.not_le.mpr hlong)) fun hnone => hnone body line more hline hread h
          have hseq := chunks_seq h hproper' (.last hline)
          rwa [List.append_nil] at hseq
        | length hbody hl => exact ⟨hl, stop, _, hframed, rfl, hbody⟩
        | all hbody hcame =>
          refine ⟨?_, stop, .closed, hframed, hbody⟩
          have hdrop := congrArg List.length hbody
          rw [List.length_drop] at hdrop
          rw [Proper, List.length_drop] at hfine
          rcases hcame with hsmall | ⟨hlast, hall⟩
          · exact hsmall
          · omega

/-- The largest image that is downloaded. -/
def maxHeadlessBytes : Nat := 1024 * 1024

theorem download_exact : ((∀ bytes reads, ¬ Returns maxHeadlessBytes bytes reads .overflow) ↔ maxHeadlessBytes ≤ 2 ^ 63 - 16) ∧
    ∀ bytes, Kept maxHeadlessBytes bytes ↔ ∀ stop framing, Framed bytes stop framing → Proper maxHeadlessBytes bytes stop framing :=
  exchange_exact maxHeadlessBytes (by decide)

/-- A body without an end of its own is larger than its limit when it comes with the head. -/
theorem unchecked_body : ¬ Kept 4 (utf8 "HTTP/1.1 200 OK\r\n\r\nhello") := by
  intro hkept
  have hreturns : (exchange 4 (utf8 "HTTP/1.1 200 OK\r\n\r\nhello") [.upTo 23, .upTo 0]).phase = .done (.reply (.body (utf8 "hello"))) := by
    decide +kernel
  have hlen := (hkept.whole _ _ hreturns).1
  revert hlen
  decide

end OmtClient.Deploy.Https
