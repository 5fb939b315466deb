import OmtClient.Common.JsonRead
import OmtClient.Common.JsonSound

/-!
# The grammar of JSON

RFC 8259 as relations between bytes and what they denote, apart from the parser of
`crates/omt-common/src/json.rs`: the characters of a string, number literals, and
values with a bound on their levels. The parser reads nothing else.

1. `Chars`, `Literal`, `Denotes`: the grammar, and what each text of it denotes.
2. `value_denotes`: what the parser takes for a value is one of the grammar, by
   induction on its turns.
3. `parse_denotes`: a document that parses is one value with white space around it.
-/

namespace OmtClient.Common.Json

open OmtClient.Lib Prog JsonLemmas SoundLemmas

variable {F : Type}

/-! ## Strings -/

/-- `unescaped = %x20-21 / %x23-5B / %x5D-10FFFF`. -/
def unescaped (c : Char) : Bool := c != '"' && c != '\\' && 32 ≤ c.toNat

/-- The escapes of one letter and the characters they stand for. -/
def escapes : List (Byte × Char) :=
  [(34, '"'), (92, '\\'), (47, '/'), (98, '\x08'), (102, '\x0c'), (110, '\n'), (114, '\r'), (116, '\t')]

/-- The value of hexadecimal digits. -/
def hexValue (ds : Bytes) : Option Nat := ds.foldlM (fun v d => (hexDigit d).map (v * 16 + ·)) 0

def isHighSurrogate (cp : Nat) : Bool := 0xD800 ≤ cp && cp ≤ 0xDBFF

def isLowSurrogate (cp : Nat) : Bool := 0xDC00 ≤ cp && cp ≤ 0xDFFF

/-- Bytes between two quotes, and the characters that they denote. -/
inductive Chars : Bytes → List Char → Prop
  | nil : Chars [] []
  | plain {c : Char} {body : Bytes} {cs : List Char} : unescaped c = true → Chars body cs →
      Chars (encode c ++ body) (c :: cs)
  | short {e : Byte} {c : Char} {body : Bytes} {cs : List Char} : (e, c) ∈ escapes → Chars body cs →
      Chars (92 :: e :: body) (c :: cs)
  | unicode {ds : Bytes} {cp : Nat} {body : Bytes} {cs : List Char} : ds.length = 4 → hexValue ds = some cp →
      isHighSurrogate cp = false → isLowSurrogate cp = false → Chars body cs →
      Chars (92 :: 117 :: ds ++ body) (Char.ofNat cp :: cs)
  | pair {hs ls : Bytes} {high low : Nat} {body : Bytes} {cs : List Char} : hs.length = 4 → ls.length = 4 →
      hexValue hs = some high → hexValue ls = some low → isHighSurrogate high = true →
      isLowSurrogate low = true → Chars body cs →
      Chars (92 :: 117 :: hs ++ 92 :: 117 :: ls ++ body)
        (Char.ofNat (0x10000 + (high - 0xD800) * 1024 + (low - 0xDC00)) :: cs)

/-! ## Numbers -/

/-- `int`: a zero, or digits that do not start with one. -/
def IsInt (ds : Bytes) : Prop := ds = [48] ∨ ds ≠ [] ∧ ds.all isDigit = true ∧ ds.head? ≠ some 48

/-- `1*DIGIT`. -/
def IsDigits (ds : Bytes) : Prop := ds ≠ [] ∧ ds.all isDigit = true

/-- `exp = e [ minus / plus ] 1*DIGIT`. -/
structure Exponent where
  mark : Byte
  sign : Option Byte
  digits : Bytes
  mark_eq : mark = 101 ∨ mark = 69
  sign_eq : ∀ s, sign = some s → s = 43 ∨ s = 45
  digits_eq : IsDigits digits

def Exponent.bytes (e : Exponent) : Bytes := e.mark :: (e.sign.toList ++ e.digits)

/-- `number = [ minus ] int [ frac ] [ exp ]`. -/
structure Literal where
  negative : Bool
  whole : Bytes
  frac : Option Bytes
  expo : Option Exponent
  whole_eq : IsInt whole
  frac_eq : ∀ ds, frac = some ds → IsDigits ds

def Literal.fracBytes (t : Literal) : Bytes := (t.frac.map (46 :: ·)).getD []

def Literal.expoBytes (t : Literal) : Bytes := (t.expo.map Exponent.bytes).getD []

def Literal.bytes (t : Literal) : Bytes :=
  (if t.negative then [45] else []) ++ t.whole ++ (t.fracBytes ++ t.expoBytes)

/-- Neither a fraction nor an exponent. -/
def Literal.integer (t : Literal) : Bool := t.frac.isNone && t.expo.isNone

/-- What the parser keeps of a literal. An integer keeps its magnitude in 64 bits; one of 64
characters or more has no float either. Fractions and exponents are kept when they are
shorter and finite. -/
inductive Literal.Denotes (dec : Decimal F) (t : Literal) : Number F → Prop
  | integer {v : F} : t.integer = true → t.bytes.length < 64 → dec.parse t.bytes = some v →
      Denotes dec t ⟨true, t.negative, if decimal t.whole < 2 ^ 64 then some (decimal t.whole) else none, v⟩
  | long : t.integer = true → 64 ≤ t.bytes.length → Denotes dec t ⟨true, t.negative, none, dec.infinity t.negative⟩
  | float {v : F} : t.integer = false → t.bytes.length < 64 → dec.parse t.bytes = some v →
      dec.finite v = true → Denotes dec t ⟨false, t.negative, none, v⟩

/-! ## Values -/

/-- A value in a container, with the white space around it. -/
structure Element (F : Type) where
  before : Bytes
  body : Bytes
  after : Bytes
  value : Value F

def Element.text (e : Element F) : Bytes := e.before ++ e.body ++ e.after

def Element.spaced (e : Element F) : Prop := e.before.all isWs = true ∧ e.after.all isWs = true

/-- `member = string name-separator value`, with the white space around it. -/
structure Member (F : Type) where
  before : Bytes
  name : Bytes
  chars : List Char
  after : Bytes
  element : Element F

def Member.key (m : Member F) : String := String.ofList m.chars

def Member.text (m : Member F) : Bytes :=
  m.before ++ 34 :: (m.name ++ 34 :: (m.after ++ 58 :: m.element.text))

def Member.spaced (m : Member F) : Prop :=
  m.before.all isWs = true ∧ m.after.all isWs = true ∧ m.element.spaced

/-- Bytes that denote a value, with at most so many levels of containers. The names of an
object differ. -/
inductive Denotes (dec : Decimal F) : Nat → Bytes → Value F → Prop
  | null {levels : Nat} : Denotes dec levels (utf8 "null") .null
  | true {levels : Nat} : Denotes dec levels (utf8 "true") (.bool true)
  | false {levels : Nat} : Denotes dec levels (utf8 "false") (.bool false)
  | string {levels : Nat} {body : Bytes} {cs : List Char} : Chars body cs →
      Denotes dec levels (34 :: body ++ [34]) (.string (String.ofList cs))
  | number {levels : Nat} {n : Number F} (t : Literal) : t.Denotes dec n → Denotes dec levels t.bytes (.number n)
  | emptyArray {levels : Nat} {ws : Bytes} : ws.all isWs = true → Denotes dec (levels + 1) (91 :: ws ++ [93]) (.array [])
  | array {levels : Nat} (es : List (Element F)) : es ≠ [] → (∀ e ∈ es, e.spaced) →
      (∀ e ∈ es, Denotes dec levels e.body e.value) →
      Denotes dec (levels + 1) (91 :: [44].intercalate (es.map Element.text) ++ [93]) (.array (es.map Element.value))
  | emptyObject {levels : Nat} {ws : Bytes} : ws.all isWs = true → Denotes dec (levels + 1) (123 :: ws ++ [125]) (.object [])
  | object {levels : Nat} (ms : List (Member F)) : ms ≠ [] → (∀ m ∈ ms, m.spaced) →
      (∀ m ∈ ms, Chars m.name m.chars) → (ms.map Member.key).Nodup →
      (∀ m ∈ ms, Denotes dec levels m.element.body m.element.value) →
      Denotes dec (levels + 1) (123 :: [44].intercalate (ms.map Member.text) ++ [125])
        (.object (ms.map fun m => (m.key, m.element.value)))

/-- `JSON-text = ws value ws`, with at most 128 levels. -/
def DocumentDenotes (dec : Decimal F) (text : Bytes) (v : Value F) : Prop :=
  ∃ before body after, text = before ++ body ++ after ∧ before.all isWs = true ∧ after.all isWs = true ∧
    Denotes dec maxDepth body v

/-! ## What the texts of the grammar are made of -/

namespace GrammarLemmas

theorem isDigit_ascii {ds : Bytes} (h : ds.all isDigit = true) : ∀ b ∈ ds, b.toNat < 128 := by
  intro b hb
  have hdigit := List.all_eq_true.mp h b hb
  simp only [isDigit, Bool.and_eq_true, decide_eq_true_eq, UInt8.le_iff_toNat_le] at hdigit
  exact Nat.lt_of_le_of_lt hdigit.2 (by decide)

theorem hexDigit_ascii {b : Byte} {v : Nat} (h : hexDigit b = some v) : b.toNat < 128 := by
  have hle {c : Byte} (hc : c.toNat < 128) (hb : b ≤ c) : b.toNat < 128 :=
    Nat.lt_of_le_of_lt (UInt8.le_iff_toNat_le.mp hb) hc
  unfold hexDigit at h
  split at h
  · next hrange => exact hle (by decide) hrange.2
  · split at h
    · next hrange => exact hle (by decide) hrange.2
    · split at h
      · next hrange => exact hle (by decide) hrange.2
      · cases h

theorem hexValue_ascii {ds : Bytes} {v : Nat} (h : hexValue ds = some v) : ∀ b ∈ ds, b.toNat < 128 := by
  have hfrom {u : Nat} (h : ds.foldlM (fun v d => (hexDigit d).map (v * 16 + ·)) u = some v) :
      ∀ b ∈ ds, b.toNat < 128 := by
    clear *- h
    induction ds generalizing u with
    | nil => exact fun _ hb => nomatch hb
    | cons d ds ih =>
      rw [List.foldlM_cons] at h
      obtain ⟨w, hw, hrest⟩ := Option.bind_eq_some_iff.mp h
      obtain ⟨x, hx, _⟩ := Option.map_eq_some_iff.mp hw
      exact List.forall_mem_cons.mpr ⟨hexDigit_ascii hx, ih hrest⟩
  exact hfrom h

/-- Four hexadecimal digits have sixteen bits. -/
theorem hexDigit_lt {b : Byte} {v : Nat} (h : hexDigit b = some v) : v < 16 := by
  unfold hexDigit at h
  simp only [UInt8.le_iff_toNat_le] at h
  split at h
  · next hrange =>
    cases h
    have := show (57 : Byte).toNat = 57 from rfl
    omega
  · split at h
    · next hrange =>
      cases h
      have := show (102 : Byte).toNat = 102 from rfl
      omega
    · split at h
      · next hrange =>
        cases h
        have := show (70 : Byte).toNat = 70 from rfl
        omega
      · cases h

theorem hexValue_lt {ds : Bytes} {v : Nat} (h : hexValue ds = some v) : v < 16 ^ ds.length := by
  induction ds using List.reverseRecOn generalizing v with
  | nil =>
    cases h
    decide
  | append_singleton ds d ih =>
    rw [hexValue, List.foldlM_append] at h
    obtain ⟨u, hu, hstep⟩ := Option.bind_eq_some_iff.mp h
    rw [List.foldlM_cons] at hstep
    obtain ⟨w, hw, hlast⟩ := Option.bind_eq_some_iff.mp hstep
    cases hlast
    obtain ⟨x, hx, rfl⟩ := Option.map_eq_some_iff.mp hw
    have hless := ih hu
    have hdigit := hexDigit_lt hx
    rw [List.length_append, List.length_singleton, Nat.pow_succ]
    omega

theorem shortEscape_iff {e : Byte} {c : Char} : shortEscape e = some c ↔ (e, c) ∈ escapes := by
  constructor
  · intro h
    unfold shortEscape at h
    repeat' split at h
    all_goals try cases h
    all_goals
      next he =>
        subst he
        decide
  · intro h
    simp only [escapes, List.mem_cons, Prod.mk.injEq, List.not_mem_nil, or_false] at h
    rcases h with ⟨rfl, rfl⟩ | ⟨rfl, rfl⟩ | ⟨rfl, rfl⟩ | ⟨rfl, rfl⟩ | ⟨rfl, rfl⟩ | ⟨rfl, rfl⟩ | ⟨rfl, rfl⟩ | ⟨rfl, rfl⟩ <;> rfl

theorem valid_escape {e : Byte} {c : Char} (h : (e, c) ∈ escapes) : Valid [92, e] := by
  refine valid_plain ?_
  simp only [escapes, List.mem_cons, Prod.mk.injEq, List.not_mem_nil, or_false] at h
  rcases h with ⟨rfl, _⟩ | ⟨rfl, _⟩ | ⟨rfl, _⟩ | ⟨rfl, _⟩ | ⟨rfl, _⟩ | ⟨rfl, _⟩ | ⟨rfl, _⟩ | ⟨rfl, _⟩ <;> decide

theorem valid_hex {ds : Bytes} {v : Nat} (h : hexValue ds = some v) : Valid (92 :: 117 :: ds) :=
  valid_append (a := [92, 117]) (valid_plain (by decide)) (valid_ascii (hexValue_ascii h))

theorem valid_chars {body : Bytes} {cs : List Char} (h : Chars body cs) : Valid body := by
  induction h with
  | nil => exact ⟨"", rfl⟩
  | plain _ _ ih => exact valid_append (valid_encode _) ih
  | short hmem _ ih => exact valid_append (a := [92, _]) (valid_escape hmem) ih
  | unicode _ hhex _ _ _ ih => exact valid_append (valid_hex hhex) ih
  | pair _ _ hhigh hlow _ _ _ ih => exact valid_append (valid_append (valid_hex hhigh) (valid_hex hlow)) ih

theorem isInt_digits {ds : Bytes} (h : IsInt ds) : IsDigits ds := by
  rcases h with rfl | ⟨hne, hall, _⟩
  · exact ⟨nofun, rfl⟩
  · exact ⟨hne, hall⟩

theorem valid_literal (t : Literal) : Valid t.bytes := by
  have hwhole := isDigit_ascii (isInt_digits t.whole_eq).2
  have hsign : Valid (if t.negative then [45] else []) := by
    split
    · exact valid_plain (by decide)
    · exact ⟨"", rfl⟩
  have hfrac : Valid t.fracBytes := by
    unfold Literal.fracBytes
    cases hf : t.frac with
    | none => exact ⟨"", rfl⟩
    | some ds => exact valid_append (a := [46]) (valid_plain (by decide)) (valid_ascii (isDigit_ascii (t.frac_eq ds hf).2))
  have hexpo : Valid t.expoBytes := by
    unfold Literal.expoBytes
    cases t.expo with
    | none => exact ⟨"", rfl⟩
    | some e =>
      refine valid_append (a := [e.mark]) (valid_ascii ?_) (valid_append (valid_ascii ?_)
        (valid_ascii (isDigit_ascii e.digits_eq.2)))
      · intro b hb
        cases List.mem_singleton.mp hb
        rcases e.mark_eq with hm | hm <;> rw [hm] <;> decide
      · intro b hb
        rcases e.sign_eq b (Option.mem_toList.mp hb) with rfl | rfl <;> decide
  exact valid_append (valid_append hsign (valid_ascii hwhole)) (valid_append hfrac hexpo)

theorem valid_intercalate (texts : List Bytes) (h : ∀ t ∈ texts, Valid t) : Valid ([44].intercalate texts) := by
  induction texts with
  | nil => exact ⟨"", rfl⟩
  | cons t ts ih =>
    have hts := ih fun x hx => h x (List.mem_cons_of_mem _ hx)
    cases ts with
    | nil =>
      rw [List.intercalate_singleton]
      exact h t List.mem_cons_self
    | cons t' ts =>
      rw [List.intercalate_cons_cons]
      exact valid_append (valid_append (h t List.mem_cons_self) (valid_plain (by decide))) hts

theorem valid_enclosed {first last : Byte} {inner : Bytes} (hfirst : first.toNat < 128) (hlast : last.toNat < 128)
    (h : Valid inner) : Valid (first :: inner ++ [last]) := by
  refine valid_append (valid_append (a := [first]) (valid_ascii ?_) h) (valid_ascii ?_)
  · intro b hb
    cases List.mem_singleton.mp hb
    exact hfirst
  · intro b hb
    cases List.mem_singleton.mp hb
    exact hlast

theorem valid_element {e : Element F} (hspaced : e.spaced) (h : Valid e.body) : Valid e.text :=
  valid_append (valid_append (valid_ascii (isWs_ascii hspaced.1)) h) (valid_ascii (isWs_ascii hspaced.2))

theorem valid_member {m : Member F} (hspaced : m.spaced) (hname : Chars m.name m.chars)
    (h : Valid m.element.body) : Valid m.text := by
  have hquote : Valid [34] := valid_plain (by decide)
  have hcolon : Valid [58] := valid_plain (by decide)
  refine valid_append (valid_ascii (isWs_ascii hspaced.1)) (valid_append (a := [34]) hquote ?_)
  refine valid_append (valid_chars hname) (valid_append (a := [34]) hquote ?_)
  exact valid_append (valid_ascii (isWs_ascii hspaced.2.1)) (valid_append (a := [58]) hcolon (valid_element hspaced.2.2 h))

/-- What denotes a value is UTF-8. -/
theorem valid_denotes {dec : Decimal F} {levels : Nat} {body : Bytes} {v : Value F} (h : Denotes dec levels body v) :
    Valid body := by
  induction h with
  | null => exact ⟨"null", rfl⟩
  | true => exact ⟨"true", rfl⟩
  | false => exact ⟨"false", rfl⟩
  | string hchars => exact valid_enclosed (by decide) (by decide) (valid_chars hchars)
  | number t _ => exact valid_literal t
  | emptyArray hws => exact valid_enclosed (by decide) (by decide) (valid_ascii (isWs_ascii hws))
  | array es _ hspaced _ ih =>
    refine valid_enclosed (by decide) (by decide) (valid_intercalate _ fun t ht => ?_)
    obtain ⟨e, he, rfl⟩ := List.mem_map.mp ht
    exact valid_element (hspaced e he) (ih e he)
  | emptyObject hws => exact valid_enclosed (by decide) (by decide) (valid_ascii (isWs_ascii hws))
  | object ms _ hspaced hnames _ _ ih =>
    refine valid_enclosed (by decide) (by decide) (valid_intercalate _ fun t ht => ?_)
    obtain ⟨m, hm, rfl⟩ := List.mem_map.mp ht
    exact valid_member (hspaced m hm) (hnames m hm) (ih m hm)

end GrammarLemmas

/-! ## What the parser takes -/

/-- The parser went from `p` to `q` over `bytes`, and is as deep as it was. -/
structure Took (p q : Parser) (bytes : Bytes) : Prop where
  text : p.rest = bytes ++ q.rest
  depth : q.depth = p.depth

namespace GrammarLemmas

variable {p q r : Parser} {a b : Bytes}

theorem Took.trans (h : Took p q a) (h' : Took q r b) : Took p r (a ++ b) :=
  ⟨by rw [h.text, h'.text, List.append_assoc], h'.depth.trans h.depth⟩

theorem Took.valid (h : Took p q a) (ha : Valid a) (hp : Valid p.rest) : Valid q.rest :=
  valid_of_append ha (h.text ▸ hp)

theorem wp_advance_took {E : ParseError → Parser → Prop} (tl : Bytes) (h : p.rest = a ++ tl) :
    wp (advance a.length) (fun _ q => Took p q a ∧ q.rest = tl) E p := by
  rw [wp_advance]
  have hdrop : p.rest.drop a.length = tl := by rw [h, List.drop_left]
  exact ⟨⟨by rw [hdrop]; exact h, rfl⟩, hdrop⟩

theorem wp_skipWs_took {E : ParseError → Parser → Prop} :
    wp skipWs (fun _ q => ∃ ws, ws.all isWs = true ∧ Took p q ws) E p := by
  rw [skipWs, wp_modify]
  exact ⟨p.rest.takeWhile isWs, List.all_takeWhile, List.takeWhile_append_dropWhile.symm, rfl⟩

theorem wp_charge_took (bytes : Nat) :
    wp (charge bytes) (fun _ q => Took p q []) (fun _ _ => True) p := by
  rw [charge, wp_bind, wp_get]
  split
  · trivial
  · exact ⟨rfl, rfl⟩

/-! ### Strings -/

theorem wp_hex4_took :
    wp hex4 (fun v q => ∃ ds, ds.length = 4 ∧ hexValue ds = some v ∧ Took p q ds) (fun _ _ => True) p := by
  rw [hex4, wp_bind, wp_get]
  dsimp only
  split
  · trivial
  next hlen =>
  split
  · trivial
  next v hv =>
  rw [wp_bind, wp_advance, wp_pure]
  refine ⟨p.rest.take 4, ?_, hv, (List.take_append_drop 4 p.rest).symm, rfl⟩
  have hle := List.length_take_le 4 p.rest
  omega

theorem decide_and_true {x y : Prop} [Decidable x] [Decidable y] (h : x ∧ y) : (decide x && decide y) = true :=
  Bool.and_eq_true_iff.mpr ⟨decide_eq_true h.1, decide_eq_true h.2⟩

theorem surrogate_ne {cp : Nat} (hhigh : ¬ (0xD800 ≤ cp ∧ cp ≤ 0xDBFF)) (hlow : ¬ (0xDC00 ≤ cp ∧ cp ≤ 0xDFFF)) :
    isHighSurrogate cp = false ∧ isLowSurrogate cp = false := by
  refine ⟨?_, ?_⟩
  · rw [isHighSurrogate, ← Bool.decide_and]
    exact decide_eq_false hhigh
  · rw [isLowSurrogate, ← Bool.decide_and]
    exact decide_eq_false hlow

theorem wp_scalar_took (cp : Nat) : wp (scalar cp) (fun c q => c = Char.ofNat cp ∧ q = p) (fun _ _ => True) p := by
  rw [scalar, wp_orRaise]
  refine ⟨fun c hc => ⟨?_, rfl⟩, fun _ => trivial⟩
  unfold charFromU32 at hc
  split at hc
  · exact (Option.some.inj hc).symm
  · cases hc

/-- The bytes of an escape, and the character they denote wherever they stand. -/
def Escape (bytes : Bytes) (c : Char) : Prop :=
  Valid bytes ∧ ∀ {body : Bytes} {cs : List Char}, Chars body cs → Chars (bytes ++ body) (c :: cs)

theorem wp_unicodeEscape_took :
    wp unicodeEscape (fun c q => ∃ bytes, Escape (92 :: 117 :: bytes) c ∧ Took p q bytes) (fun _ _ => True) p := by
  rw [unicodeEscape]
  refine wp_seq wp_hex4_took ?_
  rintro cp q ⟨ds, hlen, hhex, htook⟩
  split
  · trivial
  next hlow =>
  split
  · next hhigh =>
    rw [wp_bind, wp_get]
    split
    · next hmark =>
      obtain ⟨tl, htl⟩ := List.isPrefixOf_iff_prefix.mp hmark
      refine wp_seq (wp_advance_took (a := [92, 117]) tl htl.symm) ?_
      rintro _ r ⟨htook', _⟩
      refine wp_seq wp_hex4_took ?_
      rintro low u ⟨ls, hlen', hhex', htook''⟩
      split
      · next hlow' =>
        have hpair {body : Bytes} {cs : List Char} (hchars : Chars body cs) := Chars.pair hlen hlen' hhex hhex'
          (decide_and_true hhigh) (decide_and_true hlow') hchars
        -- the character of a pair is only named from here on
        generalize 0x10000 + (cp - 0xD800) * 1024 + (low - 0xDC00) = whole at hpair ⊢
        refine wp_mono (wp_scalar_took _) ?_ (fun _ _ h => h)
        rintro c _ ⟨rfl, rfl⟩
        refine ⟨ds ++ 92 :: 117 :: ls, ⟨?_, hpair⟩, Took.trans htook (Took.trans htook' htook'')⟩
        exact valid_append (valid_hex hhex) (valid_hex hhex')
      · trivial
    · trivial
  · next hhigh =>
    refine wp_mono (wp_scalar_took _) ?_ (fun _ _ h => h)
    rintro c _ ⟨rfl, rfl⟩
    obtain ⟨hnoHigh, hnoLow⟩ := surrogate_ne hhigh hlow
    exact ⟨ds, ⟨valid_hex hhex, fun hchars => .unicode hlen hhex hnoHigh hnoLow hchars⟩, htook⟩

theorem wp_escaped_took :
    wp escaped (fun c q => ∃ bytes, Escape (92 :: bytes) c ∧ Took p q bytes) (fun _ _ => True) p := by
  rw [escaped, wp_bind, wp_peek]
  cases hhead : p.rest.head? with
  | none => trivial
  | some e =>
    obtain ⟨tl, htl⟩ := List.head?_eq_some_iff.mp hhead
    refine wp_seq (wp_advance_took (a := [e]) tl htl) ?_
    rintro _ q ⟨htook, _⟩
    split
    · next c hc =>
      have hmem := (shortEscape_iff).mp hc
      exact ⟨[e], ⟨valid_escape hmem, fun hchars => .short hmem hchars⟩, htook⟩
    · split
      · next he =>
        subst he
        refine wp_mono wp_unicodeEscape_took ?_ (fun _ _ h => h)
        rintro c r ⟨bytes, hescape, htook'⟩
        exact ⟨117 :: bytes, hescape, Took.trans htook htook'⟩
      · trivial

/-- A character is plain when its bytes are. -/
theorem isPlain_encode (c : Char) : (∀ x ∈ encode c, isPlain x = true) ↔ unescaped c = true := by
  rcases encode_cases c with ⟨hlt, henc⟩ | ⟨hle, hhigh⟩
  · rw [henc]
    have hall : ∀ n, n < 128 → (isPlain (UInt8.ofNat n) = true ↔ unescaped (Char.ofNat n) = true) := by
      decide +kernel
    have hchar := hall c.toNat hlt
    rw [Char.ofNat_toNat] at hchar
    rw [← hchar]
    exact ⟨fun h => h _ List.mem_cons_self, fun h x hx => List.mem_singleton.mp hx ▸ h⟩
  · have hne {k : Char} (hk : k.toNat < 128) : c ≠ k := by
      rintro rfl
      omega
    have hchar : unescaped c = true := by
      simp only [unescaped, Bool.and_eq_true, bne_iff_ne, ne_eq, decide_eq_true_eq]
      exact ⟨⟨hne (by decide), hne (by decide)⟩, by omega⟩
    refine ⟨fun _ => hchar, fun _ x hx => ?_⟩
    have hx' := hhigh x hx
    have hnot {k : Byte} (hk : k < 128) : x ≠ k := by
      rintro rfl
      exact absurd hx' (UInt8.not_le.mpr hk)
    simp only [isPlain, Bool.and_eq_true, bne_iff_ne, ne_eq, decide_eq_true_eq]
    exact ⟨⟨hnot (by decide), hnot (by decide)⟩, UInt8.le_trans (by decide) hx'⟩

/-- A byte that is not plain is ASCII. -/
theorem lt_of_not_plain {x : Byte} (h : isPlain x = false) : x < 128 := by
  refine UInt8.not_le.mp fun hle => ?_
  have hnot {k : Byte} (hk : k < 128) : x ≠ k := by
    rintro rfl
    exact absurd hle (UInt8.not_le.mpr hk)
  simp [isPlain, hnot (show (34 : Byte) < 128 by decide), hnot (show (92 : Byte) < 128 by decide),
    UInt8.le_trans (show (32 : Byte) ≤ 128 by decide) hle] at h

/-- The run of plain bytes at the front of a text ends between characters. -/
theorem valid_plain_run {rest : Bytes} (h : Valid rest) : Valid (rest.takeWhile isPlain) := by
  cases hmore : rest.dropWhile isPlain with
  | nil =>
    have hall : rest.takeWhile isPlain = rest := by
      have hsplit := List.takeWhile_append_dropWhile (p := isPlain) (l := rest)
      rwa [hmore, List.append_nil] at hsplit
    rwa [hall]
  | cons x more =>
    have hsplit := List.takeWhile_append_dropWhile (p := isPlain) (l := rest)
    have hx : isPlain x = false := by
      have hhead := List.head?_dropWhile_not isPlain rest
      rw [hmore] at hhead
      simpa using hhead
    rw [hmore] at hsplit
    exact (valid_around (lt_of_not_plain hx) (hsplit ▸ h)).1

/-- Plain text in front of a string body. -/
theorem chars_plain {run body : Bytes} {cs : List Char} (hvalid : Valid run) (hplain : ∀ x ∈ run, isPlain x = true)
    (h : Chars body cs) : ∃ cs', run = cs'.flatMap encode ∧ Chars (run ++ body) (cs' ++ cs) := by
  obtain ⟨s, hs⟩ := hvalid
  rw [utf8_eq] at hs
  subst hs
  refine ⟨s.toList, rfl, ?_⟩
  generalize s.toList = cs' at hplain ⊢
  induction cs' with
  | nil => exact h
  | cons c cs' ih =>
    rw [List.flatMap_cons, List.append_assoc]
    refine .plain ((isPlain_encode c).mp fun x hx => ?_) (ih fun x hx => ?_)
    · exact hplain x (List.mem_append_left _ hx)
    · exact hplain x (List.mem_append_right _ hx)

theorem wp_stringLoop_took (n : Nat) (text : Bytes) (hp : Valid p.rest) :
    wp (stringLoop n text) (fun t q => ∃ body cs, Chars body cs ∧ t = text ++ cs.flatMap encode ∧
      Took p q (body ++ [34])) (fun _ _ => True) p := by
  induction n generalizing p text with
  | zero => trivial
  | succ n ih =>
    rw [stringLoop, wp_bind, wp_peek]
    cases hhead : p.rest.head? with
    | none => trivial
    | some c =>
      obtain ⟨tl, htl⟩ := List.head?_eq_some_iff.mp hhead
      dsimp only
      split
      · next hc =>
        refine wp_seq (wp_advance_took (a := [c]) tl htl) ?_
        rintro _ q ⟨htook, _⟩
        exact ⟨[], [], .nil, (List.append_nil _).symm, hc ▸ htook⟩
      split
      · trivial
      split
      · next hc =>
        refine wp_seq (wp_advance_took (a := [c]) tl htl) ?_
        rintro _ q ⟨htook, _⟩
        refine wp_seq wp_escaped_took ?_
        rintro ch r ⟨bytes, hescape, htook'⟩
        have hboth : Took p r (92 :: bytes) := hc ▸ Took.trans htook htook'
        refine wp_mono (ih _ (Took.valid hboth hescape.1 hp)) ?_ (fun _ _ h => h)
        rintro t u ⟨body, cs, hchars, rfl, htook''⟩
        refine ⟨92 :: bytes ++ body, ch :: cs, hescape.2 hchars, ?_, ?_⟩
        · rw [List.flatMap_cons, List.append_assoc]
        · rw [List.append_assoc]
          exact Took.trans hboth htook''
      · -- the run of plain bytes
        rw [wp_bind, wp_get]
        refine wp_seq (wp_advance_took (a := p.rest.takeWhile isPlain) _
          List.takeWhile_append_dropWhile.symm) ?_
        rintro _ q ⟨htook, _⟩
        have hrun := valid_plain_run hp
        refine wp_mono (ih _ (Took.valid htook hrun hp)) ?_ (fun _ _ h => h)
        rintro t u ⟨body, cs, hchars, rfl, htook'⟩
        obtain ⟨cs', hcs', hall⟩ := chars_plain hrun (List.all_eq_true.mp List.all_takeWhile) hchars
        refine ⟨_, _, hall, ?_, ?_⟩
        · rw [List.flatMap_append, ← hcs', List.append_assoc]
        · rw [List.append_assoc]
          exact Took.trans htook htook'

theorem wp_string_took (hp : Valid p.rest) :
    wp string (fun s q => ∃ body cs, Chars body cs ∧ s = String.ofList cs ∧ Took p q (body ++ [34]))
      (fun _ _ => True) p := by
  rw [string, wp_bind, wp_get]
  refine wp_seq (wp_stringLoop_took _ [] hp) ?_
  rintro t q ⟨body, cs, hchars, rfl, htook⟩
  refine wp_seq (wp_charge_took _) ?_
  rintro _ r htook'
  rw [wp_orRaise]
  refine ⟨fun s hs => ⟨body, cs, hchars, utf8_injective ?_, ?_⟩, fun _ => trivial⟩
  · rw [utf8_of_ofUtf8 hs, utf8_ofList, List.nil_append]
  · have hboth := Took.trans htook htook'
    rwa [List.append_nil] at hboth

/-! ### Numbers -/

theorem wp_digits_took {E : ParseError → Parser → Prop} :
    wp digits (fun n q => ∃ ds, ds.all isDigit = true ∧ ds.length = n ∧ ds = p.rest.takeWhile isDigit ∧ Took p q ds)
      E p := by
  rw [digits, wp_bind, wp_get]
  refine wp_seq (wp_advance_took (a := p.rest.takeWhile isDigit) _ List.takeWhile_append_dropWhile.symm) ?_
  rintro _ q ⟨htook, _⟩
  exact ⟨_, List.all_takeWhile, rfl, rfl, htook⟩

theorem wp_integerPart_took :
    wp integerPart (fun _ q => ∃ ds, IsInt ds ∧ Took p q ds) (fun _ _ => True) p := by
  rw [integerPart, wp_bind, wp_peek]
  cases hhead : p.rest.head? with
  | none => trivial
  | some c =>
    obtain ⟨tl, htl⟩ := List.head?_eq_some_iff.mp hhead
    dsimp only
    split
    · next hc =>
      subst hc
      refine wp_seq (wp_advance_took (a := [48]) tl htl) ?_
      rintro _ q ⟨htook, _⟩
      rw [wp_bind, wp_peek]
      split
      · trivial
      · exact ⟨[48], .inl rfl, htook⟩
    · next hc =>
      split
      · next hdigit =>
        refine wp_seq wp_digits_took ?_
        rintro n q ⟨ds, hall, _, hds, htook⟩
        have hcons : ds = c :: tl.takeWhile isDigit := by
          rw [hds, htl, List.takeWhile_cons_of_pos hdigit]
        refine ⟨ds, .inr ⟨?_, hall, ?_⟩, htook⟩
        · rw [hcons]
          rintro ⟨⟩
        · rw [hcons]
          exact fun heq => hc (Option.some.inj heq)
      · trivial

theorem isDigits_of_length {ds : Bytes} (hall : ds.all isDigit = true) (h : ¬ ds.length = 0) : IsDigits ds :=
  ⟨fun hnil => h (by rw [hnil]; rfl), hall⟩

theorem wp_fraction_took :
    wp fraction (fun some? q => ∃ f : Option Bytes, (∀ ds, f = some ds → IsDigits ds) ∧ some? = f.isSome ∧
      Took p q ((f.map (46 :: ·)).getD [])) (fun _ _ => True) p := by
  rw [fraction, wp_bind, wp_peek]
  split
  · next hdot =>
    obtain ⟨tl, htl⟩ := List.head?_eq_some_iff.mp hdot
    refine wp_seq (wp_advance_took (a := [46]) tl htl) ?_
    rintro _ q ⟨htook, _⟩
    refine wp_seq wp_digits_took ?_
    rintro n r ⟨ds, hall, rfl, _, htook'⟩
    split
    · trivial
    · next hne =>
      refine ⟨some ds, ?_, rfl, Took.trans htook htook'⟩
      intro ds' heq
      exact Option.some.inj heq ▸ isDigits_of_length hall hne
  · exact ⟨none, (by rintro _ ⟨⟩), rfl, rfl, rfl⟩

/-- The sign of an exponent, when there is one. -/
theorem wp_sign_took {E : ParseError → Parser → Prop} {sign : Option Byte} (h : sign = p.rest.head?) :
    wp (advance (if sign = some 43 ∨ sign = some 45 then 1 else 0)) (fun _ q => ∃ s : Option Byte,
      (∀ c, s = some c → c = 43 ∨ c = 45) ∧ Took p q s.toList) E p := by
  split
  · next hsign =>
    obtain ⟨c, hc, hhead⟩ : ∃ c, (c = 43 ∨ c = 45) ∧ p.rest.head? = some c := by
      rcases hsign with hs | hs
      · exact ⟨43, .inl rfl, h ▸ hs⟩
      · exact ⟨45, .inr rfl, h ▸ hs⟩
    obtain ⟨tl, htl⟩ := List.head?_eq_some_iff.mp hhead
    refine wp_mono (wp_advance_took (a := [c]) tl htl) ?_ (fun _ _ h => h)
    rintro _ q ⟨htook, _⟩
    refine ⟨some c, ?_, htook⟩
    intro c' heq
    exact Option.some.inj heq ▸ hc
  · exact ⟨none, nofun, rfl, rfl⟩

theorem wp_exponent_took :
    wp exponent (fun some? q => ∃ e : Option Exponent, some? = e.isSome ∧
      Took p q ((e.map Exponent.bytes).getD [])) (fun _ _ => True) p := by
  rw [exponent, wp_bind, wp_peek]
  split
  · next hmark =>
    obtain ⟨c, hc, hhead⟩ : ∃ c, (c = 101 ∨ c = 69) ∧ p.rest.head? = some c := by
      rcases hmark with h | h
      · exact ⟨101, .inl rfl, h⟩
      · exact ⟨69, .inr rfl, h⟩
    obtain ⟨tl, htl⟩ := List.head?_eq_some_iff.mp hhead
    refine wp_seq (wp_advance_took (a := [c]) tl htl) ?_
    rintro _ q ⟨htook, _⟩
    rw [wp_bind, wp_peek]
    refine wp_seq (wp_sign_took rfl) ?_
    rintro _ r ⟨sign, hsign, htook'⟩
    refine wp_seq wp_digits_took ?_
    rintro n u ⟨ds, hall, rfl, _, htook''⟩
    split
    · trivial
    · next hne =>
      exact ⟨some ⟨c, sign, ds, hc, hsign, isDigits_of_length hall hne⟩, rfl,
        Took.trans htook (Took.trans htook' htook'')⟩
  · exact ⟨none, rfl, rfl, rfl⟩

theorem eq_decimal_of_magnitude {ds : Bytes} {m : Nat} (h : magnitude ds = some m) : m = decimal ds := by
  induction ds using List.reverseRecOn generalizing m with
  | nil =>
    cases h
    rfl
  | append_singleton ds d ih =>
    rw [magnitude, List.foldlM_append] at h
    obtain ⟨u, hu, hstep⟩ := Option.bind_eq_some_iff.mp h
    rw [List.foldlM_cons] at hstep
    obtain ⟨w, hw, hlast⟩ := Option.bind_eq_some_iff.mp hstep
    cases hlast
    obtain ⟨_, heq⟩ := Option.ite_none_right_eq_some.mp hw
    rw [decimal_append, ← ih hu]
    exact (Option.some.inj heq).symm

/-- The magnitude of an integer literal is the number it is, when that has 64 bits. -/
theorem magnitude_eq (ds : Bytes) : magnitude ds = if decimal ds < 2 ^ 64 then some (decimal ds) else none := by
  split
  · next hlt => exact magnitude_digits ds hlt
  · next hge =>
    cases hm : magnitude ds with
    | none => rfl
    | some m => exact absurd (eq_decimal_of_magnitude hm ▸ magnitude_lt ds hm) hge

/-- What the parser went over, from where it is. -/
theorem take_took {bytes : Bytes} (h : Took p q bytes) : p.rest.take (p.rest.length - q.rest.length) = bytes := by
  rw [h.text, List.length_append, Nat.add_sub_cancel_right, List.take_left]

theorem wp_number_took (dec : Decimal F) :
    wp (number dec) (fun n q => ∃ t : Literal, t.Denotes dec n ∧ Took p q t.bytes) (fun _ _ => True) p := by
  rw [number, wp_bind, wp_get]
  dsimp only
  refine wp_seq (Q := fun _ q => Took p q (if decide (p.rest.head? = some 45) then [45] else [])) ?_ ?_
  · by_cases hminus : p.rest.head? = some 45
    · obtain ⟨tl, htl⟩ := List.head?_eq_some_iff.mp hminus
      rw [decide_eq_true hminus]
      exact wp_mono (wp_advance_took (a := [45]) tl htl) (fun _ _ h => h.1) (fun _ _ h => h)
    · rw [decide_eq_false hminus]
      exact ⟨rfl, rfl⟩
  intro _ first hsign
  rw [wp_bind, wp_get]
  refine wp_seq wp_integerPart_took ?_
  rintro _ whole ⟨ds, hint, hwhole⟩
  rw [wp_bind, wp_get]
  refine wp_seq wp_fraction_took ?_
  rintro _ q ⟨frac, hfrac, rfl, htook⟩
  refine wp_seq wp_exponent_took ?_
  rintro _ last ⟨expo, rfl, htook'⟩
  rw [wp_bind, wp_get]
  generalize decide (p.rest.head? = some 45) = negative at hsign ⊢
  -- the literal, and what was taken of the text for it
  obtain ⟨t, ht⟩ : ∃ t : Literal, t = ⟨negative, ds, frac, expo, hint, hfrac⟩ := ⟨_, rfl⟩
  have hall : Took p last t.bytes := ht ▸ Took.trans (Took.trans hsign hwhole) (Took.trans htook htook')
  have hinteger : (!frac.isSome && !expo.isSome) = t.integer := by
    rw [ht, Literal.integer, ← Option.not_isSome, ← Option.not_isSome]
  have hdigits : ds = t.whole := by rw [ht]
  have hnegative : negative = t.negative := by rw [ht]
  rw [take_took hall, take_took hwhole, magnitude_eq, hinteger, hdigits, hnegative]
  clear ht hinteger hdigits hnegative
  split
  · next hlong =>
    split
    · next hint => exact ⟨t, hint ▸ .long hint hlong, hall⟩
    · trivial
  next hshort =>
  split
  · trivial
  next v hv =>
  split
  · trivial
  next hfinite =>
  cases hint : t.integer with
  | true => exact ⟨t, .integer hint (Nat.not_le.mp hshort) hv, hall⟩
  | false =>
    rw [hint] at hfinite
    have hfin : dec.finite v = true := by
      cases hf : dec.finite v with
      | true => rfl
      | false =>
        rw [hf] at hfinite
        exact absurd rfl hfinite
    exact ⟨t, .float hint (Nat.not_le.mp hshort) hv hfin, hall⟩

/-! ### Containers -/

theorem wp_literal_took (word : Bytes) : wp (literal word) (fun _ q => Took p q word) (fun _ _ => True) p := by
  rw [literal, wp_bind, wp_get]
  split
  · next hword =>
    obtain ⟨tl, htl⟩ := List.isPrefixOf_iff_prefix.mp hword
    exact wp_mono (wp_advance_took tl htl.symm) (fun _ _ h => h.1) (fun _ _ h => h)
  · trivial

theorem wp_separator_took (close : Byte) :
    wp (separator close) (fun more q => ∃ ws, ws.all isWs = true ∧ Took p q (ws ++ [if more then 44 else close]))
      (fun _ _ => True) p := by
  rw [separator]
  refine wp_seq wp_skipWs_took ?_
  rintro _ q ⟨ws, hws, htook⟩
  rw [wp_bind, wp_peek]
  cases hhead : q.rest.head? with
  | none => trivial
  | some sep =>
    obtain ⟨tl, htl⟩ := List.head?_eq_some_iff.mp hhead
    refine wp_seq (wp_advance_took (a := [sep]) tl htl) ?_
    rintro _ r ⟨htook', _⟩
    split
    · next hsep => exact ⟨ws, hws, hsep ▸ Took.trans htook htook'⟩
    split
    · next hsep => exact ⟨ws, hws, hsep ▸ Took.trans htook htook'⟩
    · trivial

/-- A container is entered when the levels allow it; the parser is then one level
deeper. -/
theorem wp_enter_took (opens close : Byte) {tl : Bytes} (hp : p.rest = opens :: tl) :
    wp (enter close) (fun empty q => p.depth < maxDepth ∧ ∃ ws, ws.all isWs = true ∧
      p.rest = opens :: ws ++ (if empty then [close] else []) ++ q.rest ∧ q.depth = p.depth + 1)
      (fun _ _ => True) p := by
  rw [enter, wp_bind, wp_modify, wp_bind, wp_get]
  split
  · trivial
  next hdepth =>
  refine wp_seq (wp_advance_took (p := { p with depth := p.depth + 1 }) (a := [opens]) tl hp) ?_
  rintro _ q ⟨htook, _⟩
  refine wp_seq wp_skipWs_took ?_
  rintro _ r ⟨ws, hws, htook'⟩
  have hboth := Took.trans htook htook'
  rw [wp_bind, wp_peek]
  split
  · next hclose =>
    obtain ⟨tl', htl'⟩ := List.head?_eq_some_iff.mp hclose
    refine wp_seq (wp_advance_took (a := [close]) tl' htl') ?_
    rintro _ u ⟨htook'', _⟩
    have hall := Took.trans hboth htook''
    exact ⟨Nat.not_lt.mp hdepth, ws, hws, hall.text, hall.depth⟩
  · refine ⟨Nat.not_lt.mp hdepth, ws, hws, ?_, hboth.depth⟩
    rw [if_neg Bool.false_ne_true, List.append_nil]
    exact hboth.text

theorem wp_memberKey_took (members : List (String × Value F)) (hp : Valid p.rest) :
    wp (memberKey members) (fun key q => ∃ before name cs after, before.all isWs = true ∧ after.all isWs = true ∧
      Chars name cs ∧ key = String.ofList cs ∧
      Took p q (before ++ 34 :: (name ++ 34 :: (after ++ [58])))) (fun _ _ => True) p := by
  rw [memberKey]
  refine wp_seq wp_skipWs_took ?_
  rintro _ q ⟨before, hbefore, htook⟩
  rw [wp_bind, wp_peek]
  split
  · trivial
  next hquote =>
  obtain ⟨tl, htl⟩ := List.head?_eq_some_iff.mp (not_not.mp hquote)
  refine wp_seq (wp_advance_took (a := [34]) tl htl) ?_
  rintro _ r ⟨htook', _⟩
  have hfirst := Took.trans htook htook'
  have hvalid : Valid (before ++ [34]) := valid_append (valid_ascii (isWs_ascii hbefore)) (valid_plain (by decide))
  refine wp_seq (wp_string_took (Took.valid hfirst hvalid hp)) ?_
  rintro key u ⟨name, cs, hchars, rfl, hname⟩
  split
  · trivial
  refine wp_seq wp_skipWs_took ?_
  rintro _ v ⟨after, hafter, hspace⟩
  rw [wp_bind, wp_peek]
  split
  · trivial
  next hcolon =>
  obtain ⟨tl', htl'⟩ := List.head?_eq_some_iff.mp (not_not.mp hcolon)
  refine wp_seq (wp_advance_took (a := [58]) tl' htl') ?_
  rintro _ w ⟨hlast, _⟩
  have hall := Took.trans hfirst (Took.trans hname (Took.trans hspace hlast))
  refine ⟨before, name, cs, after, hbefore, hafter, hchars, rfl, ?_⟩
  simpa using hall

/-- White space in front of the first text of a list. -/
theorem intercalate_prepend (ws text : Bytes) (texts : List Bytes) :
    [44].intercalate ((ws ++ text) :: texts) = ws ++ [44].intercalate (text :: texts) := by
  cases texts with
  | nil => rw [List.intercalate_singleton, List.intercalate_singleton]
  | cons t ts =>
    rw [List.intercalate_cons_cons, List.intercalate_cons_cons]
    simp only [List.append_assoc]

end GrammarLemmas

open GrammarLemmas

/-- What the parser takes for a value, with the white space in front of it, denotes the value it
returns; so with the items of an array and the members of an object. By induction on the
turns of the parser. -/
theorem value_denotes (dec : Decimal F) (n : Nat) :
    (∀ p, Valid p.rest → wp (value dec n) (fun v q => ∃ ws body, ws.all isWs = true ∧
      Denotes dec (maxDepth - p.depth) body v ∧ Took p q (ws ++ body)) (fun _ _ => True) p) ∧
    (∀ items p, Valid p.rest → wp (arrayItems dec n items) (fun out q => ∃ es : List (Element F), es ≠ [] ∧
      (∀ e ∈ es, e.spaced) ∧ (∀ e ∈ es, Denotes dec (maxDepth - p.depth) e.body e.value) ∧
      out = items ++ es.map Element.value ∧ Took p q ([44].intercalate (es.map Element.text) ++ [93]))
      (fun _ _ => True) p) ∧
    (∀ members p, Valid p.rest → wp (objectMembers dec n members) (fun out q => ∃ ms : List (Member F), ms ≠ [] ∧
      (∀ m ∈ ms, m.spaced) ∧ (∀ m ∈ ms, Chars m.name m.chars) ∧
      (∀ m ∈ ms, Denotes dec (maxDepth - p.depth) m.element.body m.element.value) ∧
      out = members ++ ms.map (fun m => (m.key, m.element.value)) ∧
      Took p q ([44].intercalate (ms.map Member.text) ++ [125])) (fun _ _ => True) p) := by
  induction n with
  | zero =>
    refine ⟨fun p _ => ?_, fun _ p _ => ?_, fun _ p _ => ?_⟩
    · rw [value]
      trivial
    · rw [arrayItems]
      trivial
    · rw [objectMembers]
      trivial
  | succ n ih =>
    obtain ⟨hvalue, harray, hobject⟩ := ih
    refine ⟨fun p hp => ?_, fun items p hp => ?_, fun members p hp => ?_⟩
    · rw [value]
      refine wp_seq wp_skipWs_took ?_
      rintro _ q ⟨ws, hws, hspace⟩
      have hq : Valid q.rest := Took.valid hspace (valid_ascii (isWs_ascii hws)) hp
      rw [wp_bind, wp_peek]
      cases hhead : q.rest.head? with
      | none => trivial
      | some c =>
      refine wp_seq (wp_charge_took _) ?_
      rintro _ r hcharge
      have hr : Valid r.rest := Took.valid hcharge ⟨"", rfl⟩ hq
      have hfirst : Took p r ws := by
        have hboth := Took.trans hspace hcharge
        rwa [List.append_nil] at hboth
      obtain ⟨tl, htl⟩ : ∃ tl, r.rest = c :: tl := by
        rw [← List.head?_eq_some_iff, ← hhead, hcharge.text]
        rfl
      have hone {k : Byte} (hk : c = k) : r.rest = k :: tl := hk ▸ htl
      split
      · exact wp_seq (wp_literal_took _) fun _ u htook => ⟨ws, _, hws, .null, Took.trans hfirst htook⟩
      split
      · exact wp_seq (wp_literal_took _) fun _ u htook => ⟨ws, _, hws, .true, Took.trans hfirst htook⟩
      split
      · exact wp_seq (wp_literal_took _) fun _ u htook => ⟨ws, _, hws, .false, Took.trans hfirst htook⟩
      split
      · next hc =>
        refine wp_seq (wp_advance_took (a := [34]) tl (hone hc)) ?_
        rintro _ u ⟨hquote, _⟩
        refine wp_seq (wp_string_took (Took.valid hquote (valid_plain (by decide)) hr)) ?_
        rintro s w ⟨body, cs, hchars, rfl, hbody⟩
        have hall : Took r w ([34] ++ (body ++ [34])) := Took.trans hquote hbody
        exact ⟨ws, _, hws, .string hchars, Took.trans hfirst hall⟩
      split
      · next hc =>
        refine wp_seq (wp_enter_took 91 93 (hone hc)) ?_
        rintro empty u ⟨hdepth, inner, hinner, hopen, hdeep⟩
        rw [hfirst.depth] at hdepth hdeep
        have hlevels : maxDepth - p.depth = (maxDepth - u.depth) + 1 := by omega
        rw [hlevels]
        cases empty with
        | true =>
          exact ⟨ws, _, hws, .emptyArray hinner, Took.trans hfirst ⟨hopen, by simp [hdeep, hfirst.depth]⟩⟩
        | false =>
          rw [if_neg Bool.false_ne_true, List.append_nil] at hopen
          have hu : Valid u.rest := valid_of_append (valid_append (a := [91]) (valid_plain (by decide))
            (valid_ascii (isWs_ascii hinner))) (hopen ▸ hr)
          refine wp_seq (harray [] u hu) ?_
          rintro items w ⟨es, hne, hspaced, hdenotes, rfl, hitems⟩
          obtain ⟨e, es, rfl⟩ := List.exists_cons_of_ne_nil hne
          have hspaced' := List.forall_mem_cons.mp hspaced
          have hdenotes' := List.forall_mem_cons.mp hdenotes
          refine ⟨ws, _, hws, .array ({ e with before := inner ++ e.before } :: es) (by rintro ⟨⟩)
            (List.forall_mem_cons.mpr ⟨⟨?_, hspaced'.1.2⟩, hspaced'.2⟩)
            (List.forall_mem_cons.mpr hdenotes'), Took.trans hfirst ⟨?_, ?_⟩⟩
          · rw [List.all_append, hinner]
            exact hspaced'.1.1
          · have htext : ({ e with before := inner ++ e.before } : Element F).text = inner ++ e.text := by
              simp [Element.text]
            rw [List.map_cons, htext, intercalate_prepend, ← List.map_cons, hopen, hitems.text]
            simp
          · show w.depth - 1 = r.depth
            rw [hitems.depth, hdeep, hfirst.depth, Nat.add_sub_cancel]
      split
      · next hc =>
        refine wp_seq (wp_enter_took 123 125 (hone hc)) ?_
        rintro empty u ⟨hdepth, inner, hinner, hopen, hdeep⟩
        rw [hfirst.depth] at hdepth hdeep
        have hlevels : maxDepth - p.depth = (maxDepth - u.depth) + 1 := by omega
        rw [hlevels]
        cases empty with
        | true =>
          exact ⟨ws, _, hws, .emptyObject hinner, Took.trans hfirst ⟨hopen, by simp [hdeep, hfirst.depth]⟩⟩
        | false =>
          rw [if_neg Bool.false_ne_true, List.append_nil] at hopen
          have hu : Valid u.rest := valid_of_append (valid_append (a := [123]) (valid_plain (by decide))
            (valid_ascii (isWs_ascii hinner))) (hopen ▸ hr)
          -- that the names differ is what the parser checks as it goes
          have hnil : Sound (.object [] : Value F) := .object [] List.nodup_nil fun _ hm => by cases hm
          have hboth := (@wp_mono _ _ _ _ _ _ _ _ (fun _ _ => True)) (wp_and (hobject [] u hu) ((sound_value dec n).2.2 [] hnil u)) (fun _ _ h => h) fun _ _ _ => trivial
          refine wp_seq hboth ?_
          rintro members w ⟨⟨ms, hne, hspaced, hnames, hdenotes, rfl, hmembers⟩, hsound⟩
          have hkeys := (sound_members hsound).1
          simp only [List.nil_append, List.map_map, Function.comp_def] at hkeys
          obtain ⟨m, ms, rfl⟩ := List.exists_cons_of_ne_nil hne
          have hspaced' := List.forall_mem_cons.mp hspaced
          refine ⟨ws, _, hws, .object ({ m with before := inner ++ m.before } :: ms) (by rintro ⟨⟩)
            (List.forall_mem_cons.mpr ⟨⟨?_, hspaced'.1.2⟩, hspaced'.2⟩)
            (List.forall_mem_cons.mpr (List.forall_mem_cons.mp hnames)) hkeys
            (List.forall_mem_cons.mpr (List.forall_mem_cons.mp hdenotes)), Took.trans hfirst ⟨?_, ?_⟩⟩
          · rw [List.all_append, hinner]
            exact hspaced'.1.1
          · have htext : ({ m with before := inner ++ m.before } : Member F).text = inner ++ m.text := by
              simp [Member.text]
            rw [List.map_cons, htext, intercalate_prepend, ← List.map_cons, hopen, hmembers.text]
            simp
          · show w.depth - 1 = r.depth
            rw [hmembers.depth, hdeep, hfirst.depth, Nat.add_sub_cancel]
      split
      · refine wp_seq (wp_number_took dec) ?_
        rintro x u ⟨t, ht, htook⟩
        exact ⟨ws, _, hws, .number t ht, Took.trans hfirst htook⟩
      · trivial
    · rw [arrayItems]
      refine wp_seq (wp_charge_took _) ?_
      rintro _ q hcharge
      have hq : Valid q.rest := Took.valid hcharge ⟨"", rfl⟩ hp
      refine wp_seq (hvalue q hq) ?_
      rintro item r ⟨before, body, hbefore, hbody, htook⟩
      rw [hcharge.depth] at hbody
      have hitem : Valid (before ++ body) := valid_append (valid_ascii (isWs_ascii hbefore)) (valid_denotes hbody)
      refine wp_seq (wp_separator_took 93) ?_
      rintro more u ⟨after, hafter, htook'⟩
      have hboth := Took.trans hcharge (Took.trans htook htook')
      -- the element that was read, and the ones after it
      have hspaced : (⟨before, body, after, item⟩ : Element F).spaced := ⟨hbefore, hafter⟩
      cases more with
      | true =>
        have hu : Valid u.rest := Took.valid htook' (valid_append (valid_ascii (isWs_ascii hafter))
          (valid_plain (by decide))) (Took.valid htook hitem hq)
        refine wp_mono (harray _ u hu) ?_ (fun _ _ h => h)
        rintro out w ⟨es, hne, hall, hdenotes, rfl, hrest⟩
        rw [hboth.depth] at hdenotes
        refine ⟨⟨before, body, after, item⟩ :: es, (by rintro ⟨⟩), List.forall_mem_cons.mpr ⟨hspaced, hall⟩,
          List.forall_mem_cons.mpr ⟨hbody, hdenotes⟩, List.append_assoc _ _ _, ?_⟩
        obtain ⟨e, es, rfl⟩ := List.exists_cons_of_ne_nil hne
        have htext := Took.trans hboth hrest
        rw [List.map_cons, List.map_cons, List.intercalate_cons_cons]
        simpa [Element.text] using htext
      | false =>
        refine ⟨[⟨before, body, after, item⟩], (by rintro ⟨⟩), List.forall_mem_singleton.mpr hspaced,
          List.forall_mem_singleton.mpr hbody, rfl, ?_⟩
        rw [List.map_singleton, List.intercalate_singleton]
        simpa [Element.text] using hboth
    · rw [objectMembers]
      refine wp_seq (wp_charge_took _) ?_
      rintro _ q hcharge
      have hq : Valid q.rest := Took.valid hcharge ⟨"", rfl⟩ hp
      refine wp_seq (wp_memberKey_took members hq) ?_
      rintro key k ⟨space, name, cs, gap, hspace, hgap, hchars, rfl, hkey⟩
      have hname : Valid (space ++ 34 :: (name ++ 34 :: (gap ++ [58]))) :=
        valid_append (valid_ascii (isWs_ascii hspace)) (valid_append (a := [34]) (valid_plain (by decide))
          (valid_append (valid_chars hchars) (valid_append (a := [34]) (valid_plain (by decide))
            (valid_append (valid_ascii (isWs_ascii hgap)) (valid_plain (by decide))))))
      have hk : Valid k.rest := Took.valid hkey hname hq
      refine wp_seq (hvalue k hk) ?_
      rintro item r ⟨before, body, hbefore, hbody, htook⟩
      have hdepth : k.depth = p.depth := hkey.depth.trans hcharge.depth
      rw [hdepth] at hbody
      have hitem : Valid (before ++ body) := valid_append (valid_ascii (isWs_ascii hbefore)) (valid_denotes hbody)
      refine wp_seq (wp_separator_took 125) ?_
      rintro more u ⟨after, hafter, htook'⟩
      have hboth := Took.trans hcharge (Took.trans hkey (Took.trans htook htook'))
      -- the member that was read, and the ones after it
      obtain ⟨m, hm⟩ : ∃ m : Member F, m = ⟨space, name, cs, gap, ⟨before, body, after, item⟩⟩ := ⟨_, rfl⟩
      have hspaced : m.spaced := hm ▸ ⟨hspace, hgap, hbefore, hafter⟩
      have hchars' : Chars m.name m.chars := hm ▸ hchars
      have hdenotes' : Denotes dec (maxDepth - p.depth) m.element.body m.element.value := hm ▸ hbody
      have hmember : (String.ofList cs, item) = (m.key, m.element.value) := by rw [hm, Member.key]
      have htext : [] ++ (space ++ 34 :: (name ++ 34 :: (gap ++ [58])) ++ (before ++ body ++
          (after ++ [if more then 44 else 125]))) = m.text ++ [if more then 44 else 125] := by
        rw [hm]
        simp [Member.text, Element.text]
      rw [htext] at hboth
      rw [hmember]
      cases more with
      | true =>
        have hu : Valid u.rest := Took.valid htook' (valid_append (valid_ascii (isWs_ascii hafter))
          (valid_plain (by decide))) (Took.valid htook hitem hk)
        refine wp_mono (hobject _ u hu) ?_ (fun _ _ h => h)
        rintro out w ⟨ms, hne, hall, hnames, hdenotes, rfl, hrest⟩
        rw [hboth.depth] at hdenotes
        refine ⟨m :: ms, (by rintro ⟨⟩), List.forall_mem_cons.mpr ⟨hspaced, hall⟩,
          List.forall_mem_cons.mpr ⟨hchars', hnames⟩, List.forall_mem_cons.mpr ⟨hdenotes', hdenotes⟩,
          List.append_assoc _ _ _, ?_⟩
        obtain ⟨m', ms, rfl⟩ := List.exists_cons_of_ne_nil hne
        have hall := Took.trans hboth hrest
        rw [List.map_cons, List.map_cons, List.intercalate_cons_cons]
        simpa using hall
      | false =>
        refine ⟨[m], (by rintro ⟨⟩), List.forall_mem_singleton.mpr hspaced, List.forall_mem_singleton.mpr hchars',
          List.forall_mem_singleton.mpr hdenotes', rfl, ?_⟩
        rw [List.map_singleton, List.intercalate_singleton]
        exact hboth

/-- A document that parses is one value with white space around it. -/
theorem parse_denotes {dec : Decimal F} {text : Bytes} {v : Value F} (h : parse dec text = .ok v) :
    Valid text ∧ DocumentDenotes dec text v := by
  rw [parse, parseWithBudget] at h
  split at h
  · cases h
  next hutf8 =>
  obtain ⟨s, hs⟩ := Option.ne_none_iff_exists'.mp fun hnone => hutf8 (Option.isNone_iff_eq_none.mpr hnone)
  have hvalid : Valid text := ⟨s, utf8_of_ofUtf8 hs⟩
  have hdoc : wp (document dec (2 * text.length + 2)) (fun v _ => DocumentDenotes dec text v) (fun _ _ => True)
      { rest := text, depth := 0, budget := text.length * 64 + 65536 } := by
    unfold document
    refine wp_seq ((value_denotes dec _).1 _ hvalid) ?_
    rintro v q ⟨before, body, hbefore, hbody, htook⟩
    refine wp_seq wp_skipWs_took ?_
    rintro _ r ⟨after, hafter, htook'⟩
    rw [wp_bind, wp_get]
    split
    · trivial
    next hend =>
    refine ⟨before, body, after, ?_, hbefore, hafter, hbody⟩
    have hall := (Took.trans htook htook').text
    rwa [not_not.mp hend, List.append_nil] at hall
  unfold wp at hdoc
  split at hdoc
  · next hrun =>
    rw [hrun] at h
    cases h
    exact ⟨hvalid, hdoc⟩
  · next hrun =>
    rw [hrun] at h
    cases h

end OmtClient.Common.Json
