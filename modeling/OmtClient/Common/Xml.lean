import OmtClient.Lib.Bytes
import OmtClient.Lib.Text

/-!
# Bounded XML

The pull tokenizer of `crates/omt-common/src/xml.rs` and its two readers. A reader holds the
bytes from its position on and the names of the open elements, innermost first; positions
are told by how many bytes are left. A loop over the events of a document is `scan`, which
always has enough turns, for each event but the last takes a byte.
-/

namespace OmtClient.Common.Xml

open OmtClient.Lib

def maxDocument : Nat := 64 * 1024
def maxDepth : Nat := 32
def stack : Nat := 64

/-- Why a document was refused. -/
inductive Status
  | malformed
  | unsupported
  | notFound
  | duplicate
  deriving DecidableEq, Repr

inductive EventKind
  | start
  | empty
  | close
  | text
  | ref
  | decl
  | pi
  | doctype
  | comment
  | cdata
  | eof
  deriving DecidableEq, Repr

structure Event where
  kind : EventKind
  name : Bytes
  content : Bytes
  deriving DecidableEq, Repr

structure Reader where
  rest : Bytes
  opened : List Bytes
  deriving DecidableEq, Repr

def isSpace (c : Byte) : Bool := c == 32 || c == 9 || c == 10 || c == 13

/-- The bytes of character data: neither `<` nor `&`. -/
def isData (c : Byte) : Bool := c != 60 && c != 38

/-- The bytes between `&` and `;`. -/
def isRefByte (c : Byte) : Bool := !(c == 59 || c == 38 || c == 60) && !isSpace c

/-- The bytes of the name in a tag. -/
def isNameByte (c : Byte) : Bool := !isSpace c && c != 62 && c != 47

/-! ## Events -/

/-- `&name;`, past the ampersand. -/
def reference (s : Bytes) (opened : List Bytes) : Except Status (Event × Reader) :=
  let name := s.takeWhile isRefByte
  match s.drop name.length with
  | 59 :: rest => if name = [] then .error .malformed else .ok (⟨.ref, name, []⟩, ⟨rest, opened⟩)
  | _ => .error .malformed

/-- The XML declaration, among the instructions. -/
def isDecl (inner : Bytes) : Bool :=
  (utf8 "xml").isPrefixOf inner && (inner.length == 3 || isSpace (inner.getD 3 0))

/-- `<?...?>`, past the question mark. -/
def instruction (body : Bytes) (opened : List Bytes) : Except Status (Event × Reader) :=
  match findSub [63, 62] body with
  | none => .error .malformed
  | some k => .ok (⟨if isDecl (body.take k) then .decl else .pi, [], body.take k⟩, ⟨body.drop (k + 2), opened⟩)

/-- A comment or a CDATA section, past its opening. -/
def delimited (kind : EventKind) (closing body : Bytes) (opened : List Bytes) : Except Status (Event × Reader) :=
  match findSub closing body with
  | none => .error .malformed
  | some k => .ok (⟨kind, [], body.take k⟩, ⟨body.drop (k + closing.length), opened⟩)

/-- A byte in front of what a scan passed over. -/
def push (d : Byte) (p : Bytes × Bytes) : Bytes × Bytes := (d :: p.1, p.2)

/-- The body of a document type declaration and what follows it: up to a `>` outside quotes
and outside an internal subset in brackets. -/
def doctypeEnd : Int → Byte → Bytes → Option (Bytes × Bytes)
  | _, _, [] => none
  | brackets, quote, d :: ds =>
    if quote ≠ 0 then (doctypeEnd brackets (if d = quote then 0 else quote) ds).map (push d)
    else if d = 34 ∨ d = 39 then (doctypeEnd brackets d ds).map (push d)
    else if d = 91 then (doctypeEnd (brackets + 1) 0 ds).map (push d)
    else if d = 93 then (doctypeEnd (brackets - 1) 0 ds).map (push d)
    else if d = 62 ∧ brackets ≤ 0 then some ([], ds)
    else (doctypeEnd brackets 0 ds).map (push d)

/-- `<!DOCTYPE ...>`, past its opening. -/
def doctype (body : Bytes) (opened : List Bytes) : Except Status (Event × Reader) :=
  match doctypeEnd 0 0 body with
  | none => .error .malformed
  | some (content, rest) => .ok (⟨.doctype, [], content⟩, ⟨rest, opened⟩)

/-- The rest of a tag and what follows it: up to a `>` outside quotes. -/
def tagEnd : Byte → Bytes → Option (Bytes × Bytes)
  | _, [] => none
  | quote, d :: ds =>
    if quote ≠ 0 then (tagEnd (if d = quote then 0 else quote) ds).map (push d)
    else if d = 34 ∨ d = 39 then (tagEnd d ds).map (push d)
    else if d = 62 then some ([], ds)
    else (tagEnd 0 ds).map (push d)

/-- A tag, from its name on. -/
def tag (closing : Bool) (s : Bytes) (opened : List Bytes) : Except Status (Event × Reader) :=
  let name := s.takeWhile isNameByte
  match tagEnd 0 (s.drop name.length) with
  | none => .error .malformed
  | some (inner, rest) =>
    if name = [] then .error .malformed
    else if closing then
      if !inner.all isSpace || opened.head? != some name then .error .malformed
      else .ok (⟨.close, name, []⟩, ⟨rest, opened.drop 1⟩)
    else if inner.getLast? = some 47 then .ok (⟨.empty, name, inner.dropLast⟩, ⟨rest, opened⟩)
    else if stack ≤ opened.length then .error .unsupported
    else .ok (⟨.start, name, inner⟩, ⟨rest, name :: opened⟩)

/-- `next_event`. -/
def nextEvent (r : Reader) : Except Status (Event × Reader) :=
  match r.rest with
  | [] => .ok (⟨.eof, [], []⟩, r)
  | c :: s =>
    if c = 38 then reference s r.opened
    else if c ≠ 60 then
      let data := (c :: s).takeWhile isData
      .ok (⟨.text, [], data⟩, ⟨(c :: s).drop data.length, r.opened⟩)
    else if [63].isPrefixOf s then instruction (s.drop 1) r.opened
    else if (utf8 "!--").isPrefixOf s then delimited .comment (utf8 "-->") (s.drop 3) r.opened
    else if (utf8 "![CDATA[").isPrefixOf s then delimited .cdata (utf8 "]]>") (s.drop 8) r.opened
    else if eqIgnoreAsciiCase ((c :: s).take 9) (utf8 "<!DOCTYPE") then doctype ((c :: s).drop 9) r.opened
    else if [33].isPrefixOf s then .error .malformed
    else if [47].isPrefixOf s then tag true (s.drop 1) r.opened
    else tag false s r.opened

/-- A loop over the events of a document. A step gets the number of bytes left before the
event and after it. -/
def scan {σ ε : Type} (fail : Status → ε) (step : σ → Nat → Event → Nat → Except ε σ) :
    Nat → Reader → σ → Except ε σ
  | 0, _, s => .ok s
  | n + 1, r, s =>
    match nextEvent r with
    | .error status => .error (fail status)
    | .ok (ev, r') =>
      if ev.kind = .eof then .ok s
      else do scan fail step n r' (← step s r.rest.length ev r'.rest.length)

/-! ## The receiver's readers -/

/-- `predefined_entity`. -/
def predefinedEntity (name : Bytes) : Option Byte :=
  if name = utf8 "amp" then some 38
  else if name = utf8 "lt" then some 60
  else if name = utf8 "gt" then some 62
  else if name = utf8 "quot" then some 34
  else if name = utf8 "apos" then some 39
  else none

/-- The state of `unique_texts`: how deep it is, the text that is being captured with the
index of its tag, and the texts so far. -/
structure Capture where
  depth : Nat
  capturing : Option (Nat × Bytes)
  out : List (Option Bytes)
  deriving DecidableEq, Repr

/-- One turn of the loop of `unique_texts`. -/
def captureStep (tags : List Bytes) (c : Capture) (ev : Event) : Except Status Capture :=
  match ev.kind with
  | .doctype | .pi => .error .unsupported
  | .start =>
    if maxDepth < c.depth + 1 then .error .unsupported
    else
      match tags.findIdx? (· == ev.name) with
      | some i =>
        if (c.out.getD i none).isSome || c.capturing.isSome then .error .duplicate
        else .ok { c with depth := c.depth + 1, capturing := some (i, []) }
      | none => .ok { c with depth := c.depth + 1 }
  | .text =>
    match c.capturing with
    | some (i, text) =>
      if maxDocument < (text ++ ev.content).length then .error .unsupported
      else .ok { c with capturing := some (i, text ++ ev.content) }
    | none => .ok c
  | .ref =>
    match c.capturing with
    | some (i, text) =>
      match predefinedEntity ev.name with
      | some b => .ok { c with capturing := some (i, text ++ [b]) }
      | none => .error .malformed
    | none => .ok c
  | .close =>
    match c.capturing with
    | some (i, text) =>
      if tags.getD i [] = ev.name then
        .ok { depth := c.depth - 1, capturing := none, out := c.out.set i (some text) }
      else .ok { c with depth := c.depth - 1 }
    | none => .ok { c with depth := c.depth - 1 }
  | _ => .ok c

/-- `unique_texts`: the decoded text of each tag, in one pass. -/
def uniqueTexts (doc : Bytes) (tags : List Bytes) : Except Status (List (Option Bytes)) :=
  if maxDocument < doc.length then .error .unsupported
  else
    (scan id (fun c _ ev _ => captureStep tags c ev) (doc.length + 1) ⟨doc, []⟩
      ⟨0, none, List.replicate tags.length none⟩).map Capture.out

/-- `unique_text`. -/
def uniqueText (doc tag : Bytes) : Except Status Bytes := do
  match (← uniqueTexts doc [tag]).getLast?.join with
  | some text => .ok text
  | none => .error .notFound

/-- The first element of a document, in a number of turns. -/
def rootFrom (tag : Bytes) : Nat → Reader → Except Status Unit
  | 0, _ => .error .notFound
  | n + 1, r =>
    match nextEvent r with
    | .error s => .error (if s = .unsupported then s else .malformed)
    | .ok (ev, r') =>
      match ev.kind with
      | .doctype => .error .unsupported
      | .start | .empty => if ev.name = tag then .ok () else .error .unsupported
      | .eof => .error .notFound
      | _ => rootFrom tag n r'

/-- `root_is`. -/
def rootIs (doc tag : Bytes) : Except Status Unit := rootFrom tag (doc.length + 1) ⟨doc, []⟩

end OmtClient.Common.Xml
