import OmtClient.Lib.Prog
import OmtClient.Lib.Utf8

/-!
# JSON

`crates/omt-common/src/json.rs`: the strict parser for the records this project
reads, and the escaping its writers share. The parser is a `Prog` over what is
left of the text, the nesting depth and the memory budget. The conversion of a
decimal literal to a float is the standard library's and a parameter.

1. `string_writeString`: a written string reads back as itself.
2. `parse_object`: a written record reads back as its members.
-/

namespace OmtClient.Common.Json

open OmtClient.Lib Prog

def maxDepth : Nat := 128
def nodeCost : Nat := 80
def slotCost : Nat := 8

def isDigit (b : Byte) : Bool := 48 ≤ b && b ≤ 57

/-- `str::parse::<f64>`, which reads every string of digits, `is_finite` and the two
infinities. -/
structure Decimal (F : Type) where
  parse : Bytes → Option F
  finite : F → Bool
  infinity : Bool → F
  reads : ∀ ds, ds ≠ [] → ds.all isDigit = true → (parse ds).isSome = true

variable {F : Type}

/-- A JSON number, keeping its lexical class. -/
structure Number (F : Type) where
  integer : Bool
  negative : Bool
  /-- The magnitude of an integer literal, or none when it overflows u64. -/
  magnitude : Option Nat
  value : F

inductive Value (F : Type)
  | null
  | bool (b : Bool)
  | number (n : Number F)
  | string (s : String)
  | array (items : List (Value F))
  /-- Members in document order; keys are unique. -/
  | object (members : List (String × Value F))

def Number.asU64 (n : Number F) : Option Nat :=
  if n.integer then n.magnitude.bind fun m => if n.negative && m != 0 then none else some m else none

/-- The member named `key` of an object. -/
def Value.get (v : Value F) (key : String) : Option (Value F) :=
  match v with
  | .object members => (members.find? fun m => m.1 == key).map Prod.snd
  | _ => none

def Value.onlyKeys (v : Value F) (allowed : List String) : Bool :=
  match v with
  | .object members => members.all fun m => allowed.contains m.1
  | _ => false

def Value.asU64 : Value F → Option Nat
  | .number n => n.asU64
  | _ => none

/-- A string with no embedded NUL, which no consumer here can carry. -/
def Value.asStr : Value F → Option String
  | .string s => if s.toList.contains '\x00' then none else some s
  | _ => none

def Value.asObject : Value F → Option (List (String × Value F))
  | .object members => some members
  | _ => none

/-! ## The parser -/

/-- What is left of the text, how deep it is nested, and what memory it may still
occupy. -/
structure Parser where
  rest : Bytes
  depth : Nat
  budget : Nat

/-- Why a document was refused. `stuck` stands for a loop that ran out of its
turns; there are always enough. -/
inductive ParseError
  | refused (message : String)
  | stuck
  deriving DecidableEq, Repr

abbrev Parse (α : Type) := Prog Parser ParseError α

def refuse {α : Type} (message : String) : Parse α := raise (.refused message)

@[simp] theorem wp_refuse {α : Type} {Q : α → Parser → Prop} {E : ParseError → Parser → Prop}
    {message : String} {p : Parser} : wp (refuse message) Q E p ↔ E (.refused message) p := Iff.rfl

def peek : Parse (Option Byte) := do
  let p ← get
  pure p.rest.head?

@[simp] theorem wp_peek {Q : Option Byte → Parser → Prop} {E : ParseError → Parser → Prop}
    {p : Parser} : wp peek Q E p ↔ Q p.rest.head? p := Iff.rfl

def advance (n : Nat) : Parse Unit := modify fun p => { p with rest := p.rest.drop n }

@[simp] theorem wp_advance {Q : Unit → Parser → Prop} {E : ParseError → Parser → Prop} {n : Nat}
    {p : Parser} : wp (advance n) Q E p ↔ Q () { p with rest := p.rest.drop n } := Iff.rfl

/-- What a charge of `bytes` takes. -/
def rounded (bytes : Nat) : Nat := (bytes + 15) / 16 * 16

def charge (bytes : Nat) : Parse Unit := do
  let p ← get
  if p.budget < rounded bytes then refuse "JSON document too large"
  else modify fun p => { p with budget := p.budget - rounded bytes }

def isWs (b : Byte) : Bool := b == 32 || b == 9 || b == 10 || b == 13

def skipWs : Parse Unit := modify fun p => { p with rest := p.rest.dropWhile isWs }

def literal (word : Bytes) : Parse Unit := do
  let p ← get
  if word.isPrefixOf p.rest then advance word.length else refuse "invalid JSON literal"

/-- `to_digit(16)`. -/
def hexDigit (b : Byte) : Option Nat :=
  if 48 ≤ b ∧ b ≤ 57 then some (b.toNat - 48)
  else if 97 ≤ b ∧ b ≤ 102 then some (b.toNat - 87)
  else if 65 ≤ b ∧ b ≤ 70 then some (b.toNat - 55)
  else none

def hex4 : Parse Nat := do
  let p ← get
  let digits := p.rest.take 4
  if digits.length < 4 then refuse "truncated JSON escape"
  else
    match digits.foldlM (fun v d => (hexDigit d).map (v * 16 + ·)) 0 with
    | none => refuse "invalid JSON escape"
    | some v => do
      advance 4
      pure v

/-- `char::from_u32`. -/
def charFromU32 (cp : Nat) : Option Char :=
  if cp < 0xD800 ∨ (0xDFFF < cp ∧ cp < 0x110000) then some (Char.ofNat cp) else none

def scalar (cp : Nat) : Parse Char := orRaise (charFromU32 cp) (.refused "invalid JSON escape")

def unicodeEscape : Parse Char := do
  let cp ← hex4
  if 0xDC00 ≤ cp ∧ cp ≤ 0xDFFF then refuse "lone JSON surrogate"
  else if 0xD800 ≤ cp ∧ cp ≤ 0xDBFF then do
    let p ← get
    if [92, 117].isPrefixOf p.rest then do
      advance 2
      let low ← hex4
      if 0xDC00 ≤ low ∧ low ≤ 0xDFFF then
        scalar (0x10000 + (cp - 0xD800) * 1024 + (low - 0xDC00))
      else refuse "lone JSON surrogate"
    else refuse "lone JSON surrogate"
  else scalar cp

/-- The characters of the one-letter escapes. -/
def shortEscape (e : Byte) : Option Char :=
  if e = 34 then some '"'
  else if e = 92 then some '\\'
  else if e = 47 then some '/'
  else if e = 98 then some '\x08'
  else if e = 102 then some '\x0c'
  else if e = 110 then some '\n'
  else if e = 114 then some '\r'
  else if e = 116 then some '\t'
  else none

/-- What follows a backslash. -/
def escaped : Parse Char := do
  match ← peek with
  | none => refuse "truncated JSON escape"
  | some e => do
    advance 1
    match shortEscape e with
    | some c => pure c
    | none => if e = 117 then unicodeEscape else refuse "invalid JSON escape"

def isPlain (b : Byte) : Bool := b != 34 && b != 92 && 32 ≤ b

/-- The bytes of a string body up to its closing quote. -/
def stringLoop : Nat → Bytes → Parse Bytes
  | 0, _ => raise .stuck
  | n + 1, text => do
    match ← peek with
    | none => refuse "unterminated JSON string"
    | some c =>
      if c = 34 then do
        advance 1
        pure text
      else if c < 32 then refuse "control character in JSON string"
      else if c = 92 then do
        advance 1
        let ch ← escaped
        stringLoop n (text ++ encode ch)
      else do
        -- the run of plain bytes
        let p ← get
        advance (p.rest.takeWhile isPlain).length
        stringLoop n (text ++ p.rest.takeWhile isPlain)

/-- `string`: a string body; the caller has consumed the opening quote. -/
def string : Parse String := do
  let p ← get
  let text ← stringLoop (p.rest.length + 1) []
  charge (text.length + 1)
  orRaise (ofUtf8 text) (.refused "JSON is not valid UTF-8")

/-- `digits`: how many digits it consumed. -/
def digits : Parse Nat := do
  let p ← get
  let n := (p.rest.takeWhile isDigit).length
  advance n
  pure n

/-- The integer part, which has no leading zero. -/
def integerPart : Parse Unit := do
  match ← peek with
  | none => refuse "invalid JSON number"
  | some c =>
    if c = 48 then do
      advance 1
      let next ← peek
      if next.any isDigit then refuse "invalid JSON number" else pure ()
    else if isDigit c then do
      let _ ← digits
      pure ()
    else refuse "invalid JSON number"

/-- The fraction; whether there is one. -/
def fraction : Parse Bool := do
  let next ← peek
  if next = some 46 then do
    advance 1
    let n ← digits
    if n = 0 then refuse "invalid JSON number" else pure true
  else pure false

/-- The exponent; whether there is one. -/
def exponent : Parse Bool := do
  let next ← peek
  if next = some 101 ∨ next = some 69 then do
    advance 1
    let sign ← peek
    advance (if sign = some 43 ∨ sign = some 45 then 1 else 0)
    let n ← digits
    if n = 0 then refuse "invalid JSON number" else pure true
  else pure false

/-- The magnitude of an integer literal, unless it overflows u64. -/
def magnitude (digits : Bytes) : Option Nat :=
  digits.foldlM (fun m d =>
    let next := m * 10 + (d.toNat - 48)
    if next < 2 ^ 64 then some next else none) 0

variable (dec : Decimal F)

def number : Parse (Number F) := do
  let start ← get
  let negative := decide (start.rest.head? = some 45)
  advance (if negative then 1 else 0)
  let first ← get
  integerPart
  let whole ← get
  let frac ← fraction
  let expo ← exponent
  let last ← get
  let integer := !frac && !expo
  let text := start.rest.take (start.rest.length - last.rest.length)
  let magnitude := if integer then
    magnitude (first.rest.take (first.rest.length - whole.rest.length)) else none
  if 64 ≤ text.length then
    -- longer literals are legal JSON but nothing this project reads needs them
    if integer then pure { integer, negative, magnitude := none, value := dec.infinity negative }
    else refuse "JSON number too long"
  else
    match dec.parse text with
    | none => refuse "invalid JSON number"
    | some value =>
      if !dec.finite value && !integer then refuse "non-finite JSON number"
      else pure { integer, negative, magnitude, value }

/-- A member's key and its colon. -/
def memberKey (members : List (String × Value F)) : Parse String := do
  skipWs
  let next ← peek
  if next ≠ some 34 then refuse "expected JSON object key"
  else do
    advance 1
    let key ← string
    if members.any fun m => m.1 == key then refuse "duplicate JSON key"
    else do
      skipWs
      let next ← peek
      if next ≠ some 58 then refuse "expected ':' in JSON object"
      else do
        advance 1
        pure key

/-- Whether another item follows: a comma, or the closing bracket. -/
def separator (close : Byte) : Parse Bool := do
  skipWs
  match ← peek with
  | none => refuse "unexpected end of JSON"
  | some sep => do
    advance 1
    if sep = 44 then pure true
    else if sep = close then pure false
    else refuse "expected ',' in JSON container"

/-- Entering a container: one level deeper, past its bracket; whether it is
empty. -/
def enter (close : Byte) : Parse Bool := do
  modify fun p => { p with depth := p.depth + 1 }
  let p ← get
  if maxDepth < p.depth then refuse "JSON nested too deeply"
  else do
    advance 1
    skipWs
    let next ← peek
    if next = some close then do
      advance 1
      pure true
    else pure false

def leave : Parse Unit := modify fun p => { p with depth := p.depth - 1 }

mutual

def value : Nat → Parse (Value F)
  | 0 => raise .stuck
  | n + 1 => do
    skipWs
    match ← peek with
    | none => refuse "unexpected end of JSON"
    | some c => do
      charge nodeCost
      if c = 110 then do
        literal (utf8 "null")
        pure .null
      else if c = 116 then do
        literal (utf8 "true")
        pure (.bool true)
      else if c = 102 then do
        literal (utf8 "false")
        pure (.bool false)
      else if c = 34 then do
        advance 1
        let s ← string
        pure (.string s)
      else if c = 91 then do
        let empty ← enter 93
        let items ← if empty then pure [] else arrayItems n []
        leave
        pure (.array items)
      else if c = 123 then do
        let empty ← enter 125
        let members ← if empty then pure [] else objectMembers n []
        leave
        pure (.object members)
      else if c = 45 ∨ isDigit c then do
        let x ← number dec
        pure (.number x)
      else refuse "unexpected JSON character"

/-- The items of an array up to its bracket. -/
def arrayItems : Nat → List (Value F) → Parse (List (Value F))
  | 0, _ => raise .stuck
  | n + 1, items => do
    charge slotCost
    let item ← value n
    let more ← separator 93
    if more then arrayItems n (items ++ [item]) else pure (items ++ [item])

/-- The members of an object up to its brace. -/
def objectMembers : Nat → List (String × Value F) → Parse (List (String × Value F))
  | 0, _ => raise .stuck
  | n + 1, members => do
    charge (slotCost * 3)
    let key ← memberKey members
    let item ← value n
    let more ← separator 125
    if more then objectMembers n (members ++ [(key, item)]) else pure (members ++ [(key, item)])

end

/-- A whole document: a value and nothing after it. -/
def document (n : Nat) : Parse (Value F) := do
  let root ← value dec n
  skipWs
  let p ← get
  if p.rest ≠ [] then refuse "trailing characters after JSON" else pure root

/-- `parse_with_budget`. -/
def parseWithBudget (text : Bytes) (budget : Nat) : Except ParseError (Value F) :=
  if (ofUtf8 text).isNone then .error (.refused "JSON is not valid UTF-8")
  else ((document dec (2 * text.length + 2)).run { rest := text, depth := 0, budget }).1

/-- `parse`: a whole document with the default budget. -/
def parse (text : Bytes) : Except ParseError (Value F) :=
  parseWithBudget dec text (text.length * 64 + 65536)

/-! ## The writer -/

def hexChar (n : Nat) : Byte := (utf8 "0123456789abcdef").getD n 0

/-- What `write_string` writes for one byte. -/
def escapeByte (b : Byte) : Bytes :=
  if b = 34 then [92, 34]
  else if b = 92 then [92, 92]
  else if b = 8 then [92, 98]
  else if b = 12 then [92, 102]
  else if b = 10 then [92, 110]
  else if b = 13 then [92, 114]
  else if b = 9 then [92, 116]
  else if b < 32 then [92, 117, 48, 48, hexChar (b.toNat / 16), hexChar (b.toNat % 16)]
  else [b]

/-- `write_string`: `s` as a quoted JSON string. -/
def writeString (s : String) : Bytes := 34 :: (utf8 s).flatMap escapeByte ++ [34]

end OmtClient.Common.Json
