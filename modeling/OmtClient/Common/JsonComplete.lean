import OmtClient.Common.JsonDoc
import OmtClient.Common.JsonGrammar
import Mathlib.Tactic.Choose

/-!
# The parser reads the whole grammar

What the grammar derives, the parser accepts, with turns and memory to spare: the
memory that a value costs stays within 64 bytes for each byte of its text.

1. `wp_chars`, `wp_literal`: strings and numbers read as what they denote.
2. `denotes_written`: so does every value, by induction on its derivation.
3. `parse_of_denotes`: so does a document.
4. `parse_exact`: a document parses as a value just when it denotes the value; a literal
   denotes a number unless it is a fraction or an exponent that is long or not finite, and
   integers of 64 bits are exact.
-/

namespace OmtClient.Common.Json

open OmtClient.Lib Prog JsonLemmas SoundLemmas GrammarLemmas DocLemmas

variable {F : Type} {dec : Decimal F}

namespace CompleteLemmas

variable {p : Parser} {rest : Bytes}

/-- White space is skipped up to a byte that is none. -/
theorem wp_space {Q : Unit → Parser → Prop} {E : ParseError → Parser → Prop} {ws tl : Bytes} {c : Byte}
    (hws : ws.all isWs = true) (hc : isWs c = false) (hq : Q () { p with rest := c :: tl }) :
    wp skipWs Q E { p with rest := ws ++ c :: tl } := by
  rw [skipWs, wp_modify]
  rw [dropWhile_ws hws, List.dropWhile_cons, if_neg (by rw [hc]; rintro ⟨⟩)]
  exact hq

/-! ## Strings -/

theorem wp_hex4 {ds : Bytes} {v : Nat} (hlen : ds.length = 4) (hv : hexValue ds = some v) :
    wp hex4 (fun u q => u = v ∧ q = { p with rest }) (fun _ _ => False) { p with rest := ds ++ rest } := by
  have htake : (ds ++ rest).take 4 = ds := by rw [← hlen, List.take_left]
  have hdrop : (ds ++ rest).drop 4 = rest := by rw [← hlen, List.drop_left]
  rw [hex4, wp_bind, wp_get]
  rw [htake, if_neg (by omega)]
  have hfold : ds.foldlM (fun v d => (hexDigit d).map (v * 16 + ·)) 0 = some v := hv
  rw [hfold]
  rw [wp_bind, wp_advance, wp_pure, hdrop]
  exact ⟨rfl, rfl⟩

theorem wp_scalar {cp : Nat} (h : cp < 0xD800 ∨ (0xDFFF < cp ∧ cp < 0x110000)) :
    wp (scalar cp) (fun c q => c = Char.ofNat cp ∧ q = p) (fun _ _ => False) p := by
  rw [scalar, charFromU32, if_pos h, wp_orRaise]
  refine ⟨fun c hc => ⟨(Option.some.inj hc).symm, rfl⟩, ?_⟩
  intro hno
  cases hno

/-- What one escape is read as. -/
def ReadsEscape (tail : Bytes) (c : Char) : Prop :=
  ∀ {p : Parser} {rest : Bytes}, wp escaped (fun u q => u = c ∧ q = { p with rest }) (fun _ _ => False)
    { p with rest := tail ++ rest }

theorem readsEscape_short {e : Byte} {c : Char} (h : (e, c) ∈ escapes) : ReadsEscape [e] c := by
  intro p rest
  rw [escaped, wp_bind, wp_peek]
  simp only [List.cons_append, List.nil_append, List.head?_cons, wp_bind, wp_advance, shortEscape_iff.mpr h]
  exact ⟨rfl, rfl⟩

/-- An escape of a code unit is read by `unicode_escape`. -/
theorem readsEscape_of {tail : Bytes} {c : Char}
    (h : ∀ {p : Parser} {rest : Bytes}, wp unicodeEscape (fun u q => u = c ∧ q = { p with rest }) (fun _ _ => False)
      { p with rest := tail ++ rest }) : ReadsEscape (117 :: tail) c := by
  intro p rest
  rw [escaped, wp_bind, wp_peek]
  exact h

theorem readsEscape_unicode {ds : Bytes} {cp : Nat} (hlen : ds.length = 4) (hv : hexValue ds = some cp)
    (hhigh : isHighSurrogate cp = false) (hlow : isLowSurrogate cp = false) :
    ReadsEscape (117 :: ds) (Char.ofNat cp) := by
  refine readsEscape_of fun {p rest} => ?_
  have hlt : cp < 65536 := by
    have := hexValue_lt hv
    rwa [hlen] at this
  rw [isHighSurrogate, Bool.and_eq_false_iff, decide_eq_false_iff_not, decide_eq_false_iff_not] at hhigh
  rw [isLowSurrogate, Bool.and_eq_false_iff, decide_eq_false_iff_not, decide_eq_false_iff_not] at hlow
  rw [unicodeEscape]
  refine wp_seq (wp_hex4 hlen hv) ?_
  rintro _ _ ⟨rfl, rfl⟩
  rw [if_neg (by omega), if_neg (by omega)]
  exact wp_scalar (by omega)

theorem readsEscape_pair {hs ls : Bytes} {high low : Nat} (hhs : hs.length = 4) (hls : ls.length = 4)
    (hhigh : hexValue hs = some high) (hlow : hexValue ls = some low) (hh : isHighSurrogate high = true)
    (hl : isLowSurrogate low = true) :
    ReadsEscape (117 :: hs ++ 92 :: 117 :: ls) (Char.ofNat (0x10000 + (high - 0xD800) * 1024 + (low - 0xDC00))) := by
  refine (@readsEscape_of (hs ++ 92 :: 117 :: ls)) fun {p rest} => ?_
  rw [isHighSurrogate, Bool.and_eq_true, decide_eq_true_eq, decide_eq_true_eq] at hh
  rw [isLowSurrogate, Bool.and_eq_true, decide_eq_true_eq, decide_eq_true_eq] at hl
  have hwhole : 0xDFFF < 0x10000 + (high - 0xD800) * 1024 + (low - 0xDC00) ∧
      0x10000 + (high - 0xD800) * 1024 + (low - 0xDC00) < 0x110000 := by omega
  rw [unicodeEscape, List.append_assoc]
  refine wp_seq (wp_hex4 hhs hhigh) ?_
  rintro _ _ ⟨rfl, rfl⟩
  rw [if_neg (by omega), if_pos hh, wp_bind, wp_get]
  rw [if_pos (by simp [List.isPrefixOf]), wp_bind, wp_advance]
  refine wp_seq (wp_hex4 hls hlow) ?_
  rintro _ _ ⟨rfl, rfl⟩
  rw [if_pos hl]
  generalize 0x10000 + (_ - 0xD800) * 1024 + (_ - 0xDC00) = whole at hwhole ⊢
  exact wp_scalar (.inr hwhole)

/-- The plain text at the front of a string body. -/
theorem chars_split {body : Bytes} {cs : List Char} (h : Chars body cs) : ∃ run front more back, body = run ++ more ∧
    cs = front ++ back ∧ run = front.flatMap encode ∧ Chars more back ∧ (∀ x ∈ run, isPlain x = true) ∧
    (more = [] ∨ more.head? = some 92) := by
  induction h with
  | nil => exact ⟨[], [], [], [], rfl, rfl, rfl, .nil, fun _ hx => (nomatch hx), .inl rfl⟩
  | @plain c body cs hc _ ih =>
    obtain ⟨run, front, more, back, rfl, rfl, rfl, hmore, hplain, hend⟩ := ih
    refine ⟨encode c ++ front.flatMap encode, c :: front, more, back, (List.append_assoc _ _ _).symm, rfl, rfl,
      hmore, ?_, hend⟩
    intro x hx
    rcases List.mem_append.mp hx with hx | hx
    · exact (isPlain_encode c).mpr hc x hx
    · exact hplain x hx
  | short hmem hchars _ =>
    exact ⟨[], [], _, _, rfl, rfl, rfl, .short hmem hchars, fun _ hx => (nomatch hx), .inr rfl⟩
  | unicode hlen hhex hhigh hlow hchars _ =>
    exact ⟨[], [], _, _, rfl, rfl, rfl, .unicode hlen hhex hhigh hlow hchars, fun _ hx => (nomatch hx), .inr rfl⟩
  | pair hlen hlen' hhigh hlow hh hl hchars _ =>
    exact ⟨[], [], _, _, rfl, rfl, rfl, .pair hlen hlen' hhigh hlow hh hl hchars, fun _ hx => (nomatch hx), .inr rfl⟩

/-- A body that does not start with a plain byte is over or starts with an escape. -/
theorem chars_cases {body : Bytes} {cs : List Char} (h : Chars body cs) :
    (body = [] ∧ cs = []) ∨ (∃ c cs', cs = c :: cs' ∧ ∃ tail more, body = 92 :: (tail ++ more) ∧ ReadsEscape tail c ∧
      Chars more cs' ∧ tail ≠ []) ∨ ∃ x tl, body = x :: tl ∧ isPlain x = true := by
  cases h with
  | nil => exact .inl ⟨rfl, rfl⟩
  | @plain c body cs hc _ =>
    obtain ⟨x, tl, hx⟩ := List.exists_cons_of_ne_nil (String.utf8EncodeChar_ne_nil (c := c))
    have henc : encode c = x :: tl := hx
    refine .inr (.inr ⟨x, tl ++ body, by rw [henc]; rfl, ?_⟩)
    exact (isPlain_encode c).mpr hc x (henc ▸ List.mem_cons_self)
  | short hmem hchars => exact .inr (.inl ⟨_, _, rfl, [_], _, rfl, readsEscape_short hmem, hchars, nofun⟩)
  | unicode hlen hhex hhigh hlow hchars =>
    exact .inr (.inl ⟨_, _, rfl, _, _, rfl, readsEscape_unicode hlen hhex hhigh hlow, hchars, nofun⟩)
  | @pair hs ls _ _ body _ hlen hlen' hhigh hlow hh hl hchars =>
    refine .inr (.inl ⟨_, _, rfl, 117 :: hs ++ 92 :: 117 :: ls, body, rfl,
      readsEscape_pair hlen hlen' hhigh hlow hh hl, hchars, nofun⟩)

theorem wp_chars_loop (n : Nat) {body : Bytes} {cs : List Char} (text : Bytes) (h : Chars body cs)
    (hn : body.length < n) :
    wp (stringLoop n text) (fun t q => t = text ++ cs.flatMap encode ∧ q = { p with rest }) (fun _ _ => False)
      { p with rest := body ++ 34 :: rest } := by
  induction n generalizing body cs text with
  | zero => exact absurd hn (Nat.not_lt_zero _)
  | succ n ih =>
    rw [stringLoop, wp_bind, wp_peek]
    rcases chars_cases h with ⟨rfl, rfl⟩ | ⟨c, cs', rfl, tail, more, rfl, hreads, hmore, hne⟩ | ⟨x, tl, hx, hplain⟩
    · exact ⟨(List.append_nil _).symm, rfl⟩
    · simp only [List.cons_append, List.append_assoc, List.head?_cons]
      rw [if_neg (by decide), if_neg (by decide), if_pos trivial, wp_bind, wp_advance]
      refine wp_seq hreads ?_
      rintro _ _ ⟨rfl, rfl⟩
      have hless : more.length < n := by
        rw [List.length_cons, List.length_append] at hn
        omega
      refine wp_mono (ih _ hmore hless) ?_ (fun _ _ h => h)
      rintro _ _ ⟨rfl, rfl⟩
      rw [List.flatMap_cons, List.append_assoc]
      exact ⟨rfl, rfl⟩
    · -- the whole run of plain bytes is taken at once
      obtain ⟨run, front, more, back, rfl, rfl, hrun, hmore, hall, hend⟩ := chars_split h
      have hstop : (more ++ 34 :: rest).takeWhile isPlain = [] := by
        rcases hend with rfl | hhead
        · rfl
        · obtain ⟨tl', htl'⟩ := List.head?_eq_some_iff.mp hhead
          rw [htl']
          rfl
      have htake : ((run ++ more) ++ 34 :: rest).takeWhile isPlain = run := by
        rw [List.append_assoc, List.takeWhile_append_of_pos hall, hstop, List.append_nil]
      have hhead : ((run ++ more) ++ 34 :: rest).head? = some x := by
        rw [hx]
        rfl
      have hpos : more.length < n := by
        have hne : run ≠ [] := by
          rintro rfl
          rw [List.nil_append] at hx
          rw [hx, List.cons_append, List.takeWhile_cons_of_pos hplain] at hstop
          cases hstop
        have := List.length_pos_of_ne_nil hne
        rw [List.length_append] at hn
        omega
      simp only [isPlain, Bool.and_eq_true, bne_iff_ne, ne_eq, decide_eq_true_eq] at hplain
      obtain ⟨⟨hquote, hslash⟩, hlow⟩ := hplain
      rw [hhead]
      dsimp only
      rw [if_neg hquote, if_neg (UInt8.not_lt.mpr hlow), if_neg hslash, wp_bind, wp_get, wp_bind, wp_advance]
      rw [htake, List.append_assoc, List.drop_left]
      refine wp_mono (ih _ hmore hpos) ?_ (fun _ _ h => h)
      rintro _ _ ⟨rfl, rfl⟩
      rw [List.flatMap_append, ← hrun, List.append_assoc]
      exact ⟨rfl, rfl⟩

theorem length_encode_le (c : Char) : (encode c).length ≤ 4 := by
  rw [encode, String.length_utf8EncodeChar]
  exact Char.utf8Size_le_four c

/-- No string denotes more bytes than it is written with. -/
theorem length_chars {body : Bytes} {cs : List Char} (h : Chars body cs) : (cs.flatMap encode).length ≤ body.length := by
  induction h with
  | nil => exact Nat.le_refl _
  | plain _ _ ih =>
    rw [List.flatMap_cons, List.length_append, List.length_append]
    omega
  | @short e c body cs hmem _ ih =>
    have hone : (encode c).length = 1 := by
      simp only [escapes, List.mem_cons, Prod.mk.injEq, List.not_mem_nil, or_false] at hmem
      rcases hmem with ⟨_, rfl⟩ | ⟨_, rfl⟩ | ⟨_, rfl⟩ | ⟨_, rfl⟩ | ⟨_, rfl⟩ | ⟨_, rfl⟩ | ⟨_, rfl⟩ | ⟨_, rfl⟩ <;> rfl
    rw [List.flatMap_cons, List.length_append, hone, List.length_cons, List.length_cons]
    omega
  | @unicode ds cp body cs hlen _ _ _ _ ih =>
    have hfour := length_encode_le (Char.ofNat cp)
    rw [List.flatMap_cons, List.length_append, List.length_append, List.length_cons, List.length_cons]
    omega
  | @pair hs ls high low body cs hlen hlen' _ _ _ _ _ ih =>
    have hfour := length_encode_le (Char.ofNat (0x10000 + (high - 0xD800) * 1024 + (low - 0xDC00)))
    generalize Char.ofNat (0x10000 + (high - 0xD800) * 1024 + (low - 0xDC00)) = c at hfour ⊢
    rw [List.flatMap_cons, List.length_append, List.length_append, List.length_append, List.length_cons,
      List.length_cons, List.length_cons, List.length_cons]
    omega

theorem stringCost_le {body : Bytes} {cs : List Char} (h : Chars body cs) :
    stringCost (String.ofList cs) ≤ body.length + 16 := by
  have hle := length_chars h
  rw [stringCost, rounded, utf8_ofList]
  omega

end CompleteLemmas

open CompleteLemmas

/-- The body of a string and its closing quote read as what they denote. -/
theorem wp_chars {p : Parser} {body rest : Bytes} {cs : List Char} (h : Chars body cs)
    (hbudget : stringCost (String.ofList cs) ≤ p.budget) :
    wp string (fun s q => s = String.ofList cs ∧
      q = { p with rest, budget := p.budget - stringCost (String.ofList cs) })
      (fun _ _ => False) { p with rest := body ++ 34 :: rest } := by
  rw [string, wp_bind, wp_get]
  have hfuel : body.length < (body ++ 34 :: rest).length + 1 := by
    rw [List.length_append]
    omega
  refine wp_seq (wp_chars_loop _ [] h hfuel) ?_
  rintro _ _ ⟨rfl, rfl⟩
  rw [List.nil_append, ← utf8_ofList, wp_bind]
  refine wp_charge hbudget ?_
  rw [ofUtf8_utf8]
  exact ⟨rfl, rfl⟩

/-! ## Numbers -/

namespace CompleteLemmas

variable {p : Parser} {rest : Bytes}

/-- No digit follows. -/
def NoDigit (rest : Bytes) : Prop := ∀ c, rest.head? = some c → isDigit c = false

theorem noDigit_of_ends (h : Ends rest) : NoDigit rest := fun c hc => (h c hc).1

theorem takeWhile_digits {ds : Bytes} (hall : ds.all isDigit = true) (h : NoDigit rest) :
    (ds ++ rest).takeWhile isDigit = ds := by
  have hstop : rest.takeWhile isDigit = [] := by
    cases rest with
    | nil => rfl
    | cons c tl => exact List.takeWhile_cons_of_neg (by rw [h c rfl]; exact nofun)
  rw [List.takeWhile_append_of_pos (List.all_eq_true.mp hall), hstop, List.append_nil]

theorem wp_digits {ds : Bytes} (hall : ds.all isDigit = true) (h : NoDigit rest) :
    wp digits (fun n q => n = ds.length ∧ q = { p with rest }) (fun _ _ => False) { p with rest := ds ++ rest } := by
  rw [digits, wp_bind, wp_get]
  rw [takeWhile_digits hall h, wp_bind, wp_advance, wp_pure]
  rw [List.drop_left]
  exact ⟨rfl, rfl⟩

theorem wp_isInt {ds : Bytes} (hint : IsInt ds) (h : NoDigit rest) :
    wp integerPart (fun _ q => q = { p with rest }) (fun _ _ => False) { p with rest := ds ++ rest } := by
  rw [integerPart, wp_bind, wp_peek]
  rcases hint with rfl | ⟨hne, hall, hzero⟩
  · have hnext : ¬ (rest.head?.any isDigit) = true := by
      cases hhead : rest.head? with
      | none => rintro ⟨⟩
      | some c =>
        rw [Option.any_some, h c hhead]
        rintro ⟨⟩
    show wp (if (48 : Byte) = 48 then _ else _) _ _ _
    rw [if_pos rfl, wp_bind, wp_advance, wp_bind, wp_peek, wp_ite]
    exact ⟨fun hdigit => absurd hdigit hnext, fun _ => rfl⟩
  · obtain ⟨c, cs, rfl⟩ := List.exists_cons_of_ne_nil hne
    have hc : c ≠ 48 := fun heq => hzero (by rw [heq]; rfl)
    have hdigit : isDigit c = true := List.all_eq_true.mp hall c List.mem_cons_self
    dsimp only [List.cons_append, List.head?_cons]
    rw [if_neg hc, if_pos hdigit]
    refine wp_seq (wp_digits hall h) ?_
    rintro _ _ ⟨rfl, rfl⟩
    rfl

theorem wp_frac {frac : Option Bytes} (hfrac : ∀ ds, frac = some ds → IsDigits ds) (hdot : rest.head? ≠ some 46)
    (h : NoDigit rest) :
    wp fraction (fun some? q => some? = frac.isSome ∧ q = { p with rest }) (fun _ _ => False)
      { p with rest := (frac.map (46 :: ·)).getD [] ++ rest } := by
  cases frac with
  | none => exact wp_fraction_none (p := { p with rest }) hdot
  | some ds =>
    obtain ⟨hne, hall⟩ := hfrac ds rfl
    rw [fraction, wp_bind, wp_peek, wp_ite]
    refine ⟨fun _ => ?_, fun hno => absurd rfl hno⟩
    rw [wp_bind, wp_advance]
    refine wp_seq (wp_digits hall h) ?_
    rintro _ _ ⟨rfl, rfl⟩
    rw [if_neg fun hzero => hne (List.eq_nil_of_length_eq_zero hzero)]
    exact ⟨rfl, rfl⟩

theorem wp_expo {expo : Option Exponent} (h : Ends rest) :
    wp exponent (fun some? q => some? = expo.isSome ∧ q = { p with rest }) (fun _ _ => False)
      { p with rest := (expo.map Exponent.bytes).getD [] ++ rest } := by
  cases expo with
  | none =>
    exact wp_exponent_none (p := { p with rest }) ⟨fun he => (h _ he).2.2.1 rfl, fun he => (h _ he).2.2.2 rfl⟩
  | some e =>
    obtain ⟨mark, sign, ds, hmark, hsign, hne, hall⟩ := e
    have hmark' : some mark = some (101 : Byte) ∨ some mark = some (69 : Byte) := by
      rcases hmark with rfl | rfl
      · exact .inl rfl
      · exact .inr rfl
    rw [exponent, wp_bind, wp_peek, wp_ite]
    refine ⟨fun _ => ?_, fun hno => absurd hmark' hno⟩
    rw [wp_bind, wp_advance, wp_bind, wp_peek, wp_bind, wp_advance]
    -- past the sign, if there is one
    have hdrop : ((sign.toList ++ ds) ++ rest).drop (if ((sign.toList ++ ds) ++ rest).head? = some 43 ∨
        ((sign.toList ++ ds) ++ rest).head? = some 45 then 1 else 0) = ds ++ rest := by
      cases sign with
      | some s =>
        have hhead : (((some s).toList ++ ds) ++ rest).head? = some s := rfl
        rw [if_pos ((hsign s rfl).imp (fun hs => hs ▸ hhead) (fun hs => hs ▸ hhead))]
        rfl
      | none =>
        obtain ⟨c, cs, rfl⟩ := List.exists_cons_of_ne_nil hne
        have hdigit : isDigit c = true := List.all_eq_true.mp hall c List.mem_cons_self
        have hnot (k : Byte) (hk : isDigit k = false) :
            (((none : Option Byte).toList ++ c :: cs) ++ rest).head? ≠ some k := by
          intro heq
          cases Option.some.inj heq
          cases hdigit.symm.trans hk
        rw [if_neg (not_or.mpr ⟨hnot 43 rfl, hnot 45 rfl⟩)]
        rfl
    show wp (digits >>= _) _ _ { p with rest := ((sign.toList ++ ds) ++ rest).drop (if
      ((sign.toList ++ ds) ++ rest).head? = some 43 ∨ ((sign.toList ++ ds) ++ rest).head? = some 45 then 1 else 0) }
    rw [hdrop]
    refine wp_seq (wp_digits hall (noDigit_of_ends h)) ?_
    rintro _ _ ⟨rfl, rfl⟩
    rw [if_neg fun hzero => hne (List.eq_nil_of_length_eq_zero hzero)]
    exact ⟨rfl, rfl⟩

/-- What may follow the fraction: neither a dot nor a digit. -/
theorem head_expoBytes (t : Literal) (h : Ends rest) :
    (t.expoBytes ++ rest).head? ≠ some 46 ∧ NoDigit (t.expoBytes ++ rest) := by
  unfold Literal.expoBytes
  cases t.expo with
  | none => exact ⟨fun hdot => (h _ hdot).2.1 rfl, noDigit_of_ends h⟩
  | some e =>
    dsimp only [Option.map_some, Option.getD_some, Exponent.bytes, List.cons_append, List.head?_cons]
    rcases e.mark_eq with hm | hm
    · rw [hm]
      refine ⟨nofun, fun c hc => ?_⟩
      cases Option.some.inj hc
      rfl
    · rw [hm]
      refine ⟨nofun, fun c hc => ?_⟩
      cases Option.some.inj hc
      rfl

theorem head_fracBytes (t : Literal) (h : Ends rest) : NoDigit (t.fracBytes ++ (t.expoBytes ++ rest)) := by
  unfold Literal.fracBytes
  cases t.frac with
  | none => exact (head_expoBytes t h).2
  | some ds =>
    intro c hc
    cases Option.some.inj hc
    rfl

theorem whole_head (t : Literal) : ∃ c cs, t.whole = c :: cs ∧ isDigit c = true := by
  obtain ⟨hne, hall⟩ := isInt_digits t.whole_eq
  obtain ⟨c, cs, hcons⟩ := List.exists_cons_of_ne_nil hne
  exact ⟨c, cs, hcons, List.all_eq_true.mp hall c (hcons ▸ List.mem_cons_self)⟩

/-- The sign of a literal is its first byte. -/
theorem bytes_head (t : Literal) : (t.bytes ++ rest).head? = some 45 ↔ t.negative = true := by
  obtain ⟨c, cs, hcons, hdigit⟩ := whole_head t
  rw [Literal.bytes, hcons]
  cases t.negative with
  | true => exact ⟨fun _ => rfl, fun _ => rfl⟩
  | false =>
    refine ⟨fun heq => ?_, fun h => nomatch h⟩
    cases Option.some.inj heq
    exact nomatch hdigit

end CompleteLemmas

/-- A number literal reads as what it denotes. -/
theorem wp_literal {p : Parser} {rest : Bytes} {t : Literal} {n : Number F} (hn : t.Denotes dec n) (h : Ends rest) :
    wp (number dec) (fun x q => x = n ∧ q = { p with rest }) (fun _ _ => False)
      { p with rest := t.bytes ++ rest } := by
  have hsign : decide ((t.bytes ++ rest).head? = some 45) = t.negative := by
    rw [Bool.eq_iff_iff, decide_eq_true_eq]
    exact bytes_head t
  have hdrop : (t.bytes ++ rest).drop (if t.negative = true then 1 else 0) =
      t.whole ++ (t.fracBytes ++ (t.expoBytes ++ rest)) := by
    rw [Literal.bytes]
    cases t.negative with
    | true => simp
    | false => simp
  rw [number, wp_bind, wp_get]
  rw [hsign, wp_bind, wp_advance]
  rw [hdrop, wp_bind, wp_get]
  refine wp_seq (wp_isInt t.whole_eq (head_fracBytes t h)) ?_
  rintro _ _ rfl
  rw [wp_bind, wp_get]
  obtain ⟨hdot, hdigit⟩ := head_expoBytes t h
  refine wp_seq (wp_frac t.frac_eq hdot hdigit) ?_
  rintro _ _ ⟨rfl, rfl⟩
  refine wp_seq ((@wp_expo _ _ t.expo) h) ?_
  rintro _ _ ⟨rfl, rfl⟩
  rw [wp_bind, wp_get]
  have hinteger : (!t.frac.isSome && !t.expo.isSome) = t.integer := by
    rw [Literal.integer, ← Option.not_isSome, ← Option.not_isSome]
  have htext : (t.bytes ++ rest).take ((t.bytes ++ rest).length - rest.length) = t.bytes := by
    rw [List.length_append, Nat.add_sub_cancel_right, List.take_left]
  have hwhole {tl : Bytes} : (t.whole ++ tl).take ((t.whole ++ tl).length - tl.length) = t.whole := by
    rw [List.length_append, Nat.add_sub_cancel_right, List.take_left]
  rw [htext, hwhole, hinteger, magnitude_eq]
  cases hn with
  | integer hint hshort hv =>
    rw [if_neg (Nat.not_le.mpr hshort), hv, hint]
    dsimp only
    rw [Bool.not_true, Bool.and_false, if_neg (by rintro ⟨⟩)]
    exact ⟨rfl, rfl⟩
  | long hint hlong =>
    rw [if_pos hlong, hint]
    exact ⟨rfl, rfl⟩
  | float hint hshort hv hfinite =>
    rw [if_neg (Nat.not_le.mpr hshort), hv, hint]
    dsimp only
    rw [hfinite]
    exact ⟨rfl, rfl⟩

/-! ## Containers -/

namespace CompleteLemmas

variable {p : Parser} {rest : Bytes}

/-- What may stand after a value in a container. -/
theorem ends_spaced {ws tl : Bytes} {c : Byte} (hws : ws.all isWs = true)
    (hc : isDigit c = false ∧ c ≠ 46 ∧ c ≠ 101 ∧ c ≠ 69) : Ends (ws ++ c :: tl) := by
  intro b hb
  cases ws with
  | nil =>
    cases Option.some.inj hb
    exact hc
  | cons w ws =>
    have hw := List.all_eq_true.mp hws w List.mem_cons_self
    cases Option.some.inj hb
    simp only [isWs, Bool.or_eq_true, beq_iff_eq] at hw
    rcases hw with ((rfl | rfl) | rfl) | rfl <;> decide

theorem ends_separator {ws tl : Bytes} {close : Byte} (more : Bool) (hws : ws.all isWs = true)
    (hclose : close = 93 ∨ close = 125) : Ends (ws ++ (if more then 44 else close) :: tl) := by
  refine ends_spaced hws ?_
  cases more with
  | true => exact (by decide : isDigit 44 = false ∧ (44 : Byte) ≠ 46 ∧ (44 : Byte) ≠ 101 ∧ (44 : Byte) ≠ 69)
  | false => rcases hclose with rfl | rfl <;> decide

theorem wp_close {close : Byte} (more : Bool) {ws : Bytes} (hws : ws.all isWs = true)
    (hclose : close = 93 ∨ close = 125) :
    wp (separator close) (fun m q => m = more ∧ q = { p with rest }) (fun _ _ => False)
      { p with rest := ws ++ (if more then 44 else close) :: rest } := by
  rw [separator, wp_skip_space hws, ← separator]
  exact wp_separator close more (by rcases hclose with rfl | rfl <;> decide)

/-- The text of a list: its first text, then the closing bracket or a comma and the others. -/
theorem list_text {texts : List Bytes} {t : Bytes} {close : Byte} : ∃ more tail,
    [44].intercalate (t :: texts) ++ close :: rest = t ++ (if more then 44 else close) :: tail ∧
    (more = true → texts ≠ [] ∧ tail = [44].intercalate texts ++ close :: rest) ∧
    (more = false → texts = [] ∧ tail = rest) ∧
    ([44].intercalate (t :: texts)).length = t.length + (if more then ([44].intercalate texts).length + 1 else 0) := by
  cases texts with
  | nil =>
    refine ⟨false, rest, ?_, fun h => (nomatch h), fun _ => ⟨rfl, rfl⟩, ?_⟩
    · rw [List.intercalate_singleton]
      rfl
    · rw [List.intercalate_singleton]
      rfl
  | cons t' ts =>
    refine ⟨true, [44].intercalate (t' :: ts) ++ close :: rest, ?_, fun _ => ⟨nofun, rfl⟩, fun h => (nomatch h), ?_⟩
    · rw [List.intercalate_cons_cons]
      simp
    · rw [List.intercalate_cons_cons, List.length_append, List.length_append, List.length_singleton]
      simp only [if_true]
      omega

/-- `bytes` reads as `v` at a cost, `depth` levels deep. -/
def ReadsAt (dec : Decimal F) (depth : Nat) (bytes : Bytes) (v : Value F) (cost : Nat) : Prop :=
  ∀ {p : Parser} {rest : Bytes} {n : Nat}, bytes.length < n → p.depth = depth → cost ≤ p.budget → Ends rest →
    wp (value dec n) (fun u q => u = v ∧ q = { p with rest, budget := p.budget - cost })
      (fun _ _ => False) { p with rest := bytes ++ rest }

theorem ReadsAt.spaced {depth cost : Nat} {ws bytes : Bytes} {v : Value F} (h : ReadsAt dec depth bytes v cost)
    (hws : ws.all isWs = true) {n : Nat} (hn : bytes.length < n) (hdepth : p.depth = depth)
    (hcost : cost ≤ p.budget) (hends : Ends rest) :
    wp (value dec n) (fun u q => u = v ∧ q = { p with rest, budget := p.budget - cost })
      (fun _ _ => False) { p with rest := ws ++ (bytes ++ rest) } := by
  obtain ⟨n, rfl⟩ := Nat.exists_eq_succ_of_ne_zero (Nat.ne_zero_of_lt hn)
  have hreads := h hn hdepth hcost hends
  rw [value] at hreads ⊢
  exact (wp_skip_space hws).mpr hreads

theorem wp_items (es : List (Element F)) (hne : es ≠ []) (hspaced : ∀ e ∈ es, e.spaced) {depth : Nat}
    {cost : Element F → Nat} (hreads : ∀ e ∈ es, ReadsAt dec depth e.body e.value (cost e)) (done : List (Value F))
    (hdepth : p.depth = depth) {n : Nat} (hn : ([44].intercalate (es.map Element.text)).length + 1 < n)
    (hbudget : (es.map fun e => rounded slotCost + cost e).sum ≤ p.budget) :
    wp (arrayItems dec n done) (fun out q => out = done ++ es.map Element.value ∧
      q = { p with rest, budget := p.budget - (es.map fun e => rounded slotCost + cost e).sum })
      (fun _ _ => False) { p with rest := [44].intercalate (es.map Element.text) ++ 93 :: rest } := by
  induction es generalizing done p n with
  | nil => exact absurd rfl hne
  | cons e es ih =>
    obtain ⟨n, rfl⟩ := Nat.exists_eq_succ_of_ne_zero (Nat.ne_zero_of_lt hn)
    obtain ⟨more, tail, htext, hmore, hlast, hlen⟩ := (@list_text rest (es.map Element.text) e.text 93)
    simp only [List.map_cons, List.sum_cons] at hbudget hn ⊢
    rw [hlen] at hn
    have hbody : e.text.length = e.before.length + e.body.length + e.after.length := by
      rw [Element.text, List.length_append, List.length_append]
    have hws := hspaced e List.mem_cons_self
    rw [htext, arrayItems, wp_bind]
    refine wp_charge (by show _ ≤ p.budget; omega) ?_
    rw [Element.text, List.append_assoc, List.append_assoc]
    refine wp_seq (ReadsAt.spaced (p := { p with budget := p.budget - rounded slotCost })
      (hreads e List.mem_cons_self) hws.1 (by omega) hdepth (by show _ ≤ p.budget - _; omega)
      (ends_separator more hws.2 (.inl rfl))) ?_
    rintro _ _ ⟨rfl, rfl⟩
    rw [Nat.sub_sub]
    refine wp_seq (wp_close (p := { p with budget := p.budget - (rounded slotCost + cost e) }) more hws.2
      (.inl rfl)) ?_
    rintro more _ ⟨rfl, rfl⟩
    rw [← Nat.sub_sub]
    cases more with
    | true =>
      obtain ⟨htexts, rfl⟩ := hmore rfl
      have hne' : es ≠ [] := fun hnil => htexts (by rw [hnil]; rfl)
      simp only [if_true] at hn
      refine wp_mono (ih hne' (fun x hx => hspaced x (List.mem_cons_of_mem _ hx))
        (fun x hx => hreads x (List.mem_cons_of_mem _ hx)) _ (p := {
          p with budget := p.budget - (rounded slotCost + cost e) }) hdepth (by omega)
        (by show _ ≤ p.budget - _; omega)) ?_ (fun _ _ h => h)
      rintro _ _ ⟨rfl, rfl⟩
      exact ⟨List.append_assoc _ _ _, rfl⟩
    | false =>
      obtain ⟨htexts, rfl⟩ := hlast rfl
      cases List.map_eq_nil_iff.mp htexts
      exact ⟨rfl, rfl⟩

theorem wp_name {done : List (String × Value F)} {before name after : Bytes} {cs : List Char}
    (hbefore : before.all isWs = true) (hafter : after.all isWs = true) (hname : Chars name cs)
    (hbudget : stringCost (String.ofList cs) ≤ p.budget) (hnew : String.ofList cs ∉ done.map Prod.fst) :
    wp (memberKey done) (fun k q => k = String.ofList cs ∧
      q = { p with rest, budget := p.budget - stringCost (String.ofList cs) }) (fun _ _ => False)
      { p with rest := before ++ 34 :: (name ++ 34 :: (after ++ 58 :: rest)) } := by
  rw [memberKey, wp_bind]
  refine wp_space hbefore rfl ?_
  rw [wp_bind, wp_peek, wp_ite]
  refine ⟨fun hno => absurd rfl hno, fun _ => ?_⟩
  rw [wp_bind, wp_advance]
  refine wp_seq (wp_chars hname hbudget) ?_
  rintro k q ⟨rfl, rfl⟩
  have hno : ¬ (done.any fun m => m.1 == String.ofList cs) = true := by
    rw [List.any_eq_true]
    rintro ⟨m, hm, hk⟩
    exact hnew (List.mem_map.mpr ⟨m, hm, eq_of_beq hk⟩)
  rw [if_neg hno, wp_bind]
  refine wp_space (p := { p with budget := p.budget - stringCost (String.ofList cs) }) hafter rfl ?_
  rw [wp_bind, wp_peek, wp_ite]
  exact ⟨fun hno => absurd rfl hno, fun _ => ⟨rfl, rfl⟩⟩

/-- What a member costs, its name and its place included. -/
def memberCost (cost : Member F → Nat) (m : Member F) : Nat := rounded (slotCost * 3) + stringCost m.key + cost m

theorem wp_memberTexts (ms : List (Member F)) (hne : ms ≠ []) (hspaced : ∀ m ∈ ms, m.spaced)
    (hnames : ∀ m ∈ ms, Chars m.name m.chars) {depth : Nat} {cost : Member F → Nat}
    (hreads : ∀ m ∈ ms, ReadsAt dec depth m.element.body m.element.value (cost m)) (done : List (String × Value F))
    (hkeys : (done.map Prod.fst ++ ms.map Member.key).Nodup) (hdepth : p.depth = depth) {n : Nat}
    (hn : ([44].intercalate (ms.map Member.text)).length + 1 < n)
    (hbudget : (ms.map (memberCost cost)).sum ≤ p.budget) :
    wp (objectMembers dec n done) (fun out q => out = done ++ ms.map (fun m => (m.key, m.element.value)) ∧
      q = { p with rest, budget := p.budget - (ms.map (memberCost cost)).sum })
      (fun _ _ => False) { p with rest := [44].intercalate (ms.map Member.text) ++ 125 :: rest } := by
  induction ms generalizing done p n with
  | nil => exact absurd rfl hne
  | cons m ms ih =>
    obtain ⟨n, rfl⟩ := Nat.exists_eq_succ_of_ne_zero (Nat.ne_zero_of_lt hn)
    obtain ⟨more, tail, htext, hmore, hlast, hlen⟩ := (@list_text rest (ms.map Member.text) m.text 125)
    simp only [List.map_cons, List.sum_cons] at hbudget hn hkeys ⊢
    rw [hlen] at hn
    have hbody : m.element.body.length ≤ m.text.length := by
      simp only [Member.text, Element.text, List.length_append, List.length_cons]
      omega
    have htotal : memberCost cost m = rounded (slotCost * 3) + stringCost m.key + cost m := rfl
    have hnew : m.key ∉ done.map Prod.fst :=
      fun hmem => (List.nodup_append.mp hkeys).2.2 _ hmem _ List.mem_cons_self rfl
    obtain ⟨hbefore, hafter, hws⟩ := hspaced m List.mem_cons_self
    rw [htext, objectMembers, wp_bind]
    refine wp_charge (by show _ ≤ p.budget; omega) ?_
    simp only [Member.text, Element.text, List.append_assoc, List.cons_append]
    refine wp_seq (wp_name (p := { p with budget := p.budget - rounded (slotCost * 3) }) hbefore hafter
      (hnames m List.mem_cons_self) (by show stringCost m.key ≤ p.budget - _; omega) hnew) ?_
    rintro _ _ ⟨rfl, rfl⟩
    refine wp_seq (ReadsAt.spaced (p := {
      p with budget := p.budget - rounded (slotCost * 3) - stringCost (String.ofList m.chars) })
      (hreads m List.mem_cons_self) hws.1 (by omega) hdepth
      (by show _ ≤ p.budget - _ - stringCost m.key; omega) (ends_separator more hws.2 (.inr rfl))) ?_
    rintro _ _ ⟨rfl, rfl⟩
    have hspent : p.budget - rounded (slotCost * 3) - stringCost (String.ofList m.chars) - cost m =
        p.budget - memberCost cost m := by
      rw [Nat.sub_sub, Nat.sub_sub, htotal, Nat.add_assoc]
      rfl
    rw [hspent]
    refine wp_seq (wp_close (p := { p with budget := p.budget - memberCost cost m }) more hws.2 (.inr rfl)) ?_
    rintro more _ ⟨rfl, rfl⟩
    rw [← Nat.sub_sub]
    cases more with
    | true =>
      obtain ⟨htexts, rfl⟩ := hmore rfl
      have hne' : ms ≠ [] := fun hnil => htexts (by rw [hnil]; rfl)
      have hkeys' : ((done ++ [(m.key, m.element.value)]).map Prod.fst ++ ms.map Member.key).Nodup := by
        rw [List.map_append, List.append_assoc]
        exact hkeys
      simp only [if_true] at hn
      refine wp_mono (ih hne' (fun x hx => hspaced x (List.mem_cons_of_mem _ hx))
        (fun x hx => hnames x (List.mem_cons_of_mem _ hx)) (fun x hx => hreads x (List.mem_cons_of_mem _ hx)) _
        hkeys' (p := { p with budget := p.budget - memberCost cost m }) hdepth (by omega)
        (by show _ ≤ p.budget - _; omega)) ?_ (fun _ _ h => h)
      rintro _ _ ⟨rfl, rfl⟩
      exact ⟨List.append_assoc _ _ _, rfl⟩
    | false =>
      obtain ⟨htexts, rfl⟩ := hlast rfl
      cases List.map_eq_nil_iff.mp htexts
      exact ⟨rfl, rfl⟩

/-- What the items of a list cost, against the text that they are. -/
theorem sum_le_intercalate {α : Type} (xs : List α) (hne : xs ≠ []) (text : α → Bytes) (cost : α → Nat)
    (h : ∀ x ∈ xs, cost x ≤ 64 * (text x).length + 64) :
    (xs.map cost).sum ≤ 64 * ([44].intercalate (xs.map text)).length + 64 := by
  induction xs with
  | nil => exact absurd rfl hne
  | cons x xs ih =>
    have hx := h x List.mem_cons_self
    rw [List.map_cons, List.map_cons, List.sum_cons]
    cases xs with
    | nil =>
      rw [List.map_nil, List.map_nil, List.sum_nil, List.intercalate_singleton]
      exact hx
    | cons y ys =>
      have hys := ih nofun fun z hz => h z (List.mem_cons_of_mem _ hz)
      rw [List.map_cons (f := text), List.intercalate_cons_cons, ← List.map_cons (f := text), List.length_append,
        List.length_append, List.length_singleton]
      omega

/-- Each written value has its cost. -/
theorem exists_costs (dec : Decimal F) (height : Nat) : ∃ cost : Bytes → Value F → Nat, ∀ body v,
    Written dec height body v → cost body v ≤ 64 * body.length + 16 ∧
      ∀ {depth : Nat}, depth + height ≤ maxDepth → ReadsAt dec depth body v (cost body v) := by
  have hone (body : Bytes) (v : Value F) : ∃ cost, Written dec height body v → cost ≤ 64 * body.length + 16 ∧
      ∀ {depth : Nat}, depth + height ≤ maxDepth → ReadsAt dec depth body v cost := by
    by_cases h : Written dec height body v
    · obtain ⟨_, cost, hcost, hreads⟩ := h
      refine ⟨cost, fun _ => ⟨hcost, fun hlevels _ _ _ hn hdepth => ?_⟩⟩
      exact hreads hn (hdepth ▸ hlevels)
    · exact ⟨0, fun h' => absurd h' h⟩
  choose cost hcost using hone
  exact ⟨cost, hcost⟩

/-- A value starts with a byte that is neither white space nor a closing bracket. -/
theorem denotes_head {levels : Nat} {body : Bytes} {v : Value F} (h : Denotes dec levels body v) :
    ∃ c tl, body = c :: tl ∧ isWs c = false ∧ c ≠ 93 := by
  cases h with
  | null => exact ⟨_, _, rfl, rfl, by decide⟩
  | true => exact ⟨_, _, rfl, rfl, by decide⟩
  | false => exact ⟨_, _, rfl, rfl, by decide⟩
  | string _ => exact ⟨_, _, rfl, rfl, by decide⟩
  | number t _ =>
    obtain ⟨c, cs, hcons, hdigit⟩ := whole_head t
    rw [Literal.bytes, hcons]
    cases t.negative with
    | true => exact ⟨45, _, rfl, rfl, by decide⟩
    | false =>
      have hne {b : Byte} (hb : isDigit b = false) : c ≠ b := by
        rintro rfl
        exact nomatch hdigit.symm.trans hb
      refine ⟨c, _, rfl, ?_, hne rfl⟩
      simp only [isWs, Bool.or_eq_false_iff, beq_eq_false_iff_ne]
      exact ⟨⟨⟨hne rfl, hne rfl⟩, hne rfl⟩, hne rfl⟩
  | emptyArray _ => exact ⟨_, _, rfl, rfl, by decide⟩
  | array _ _ _ _ => exact ⟨_, _, rfl, rfl, by decide⟩
  | emptyObject _ => exact ⟨_, _, rfl, rfl, by decide⟩
  | object _ _ _ _ _ _ => exact ⟨_, _, rfl, rfl, by decide⟩

/-- What the parser does for a value that starts with the byte `c`. -/
def valueOf (dec : Decimal F) (n : Nat) (c : Byte) : Parse (Value F) := do
  if c = 110 then do
    literal (utf8 "null")
    pure .null
  else if c = 116 then do
    literal (utf8 "true")
    pure (.bool true)
  else if c = 102 then do
    literal (utf8 "false")
    pure (.bool false)
  else if c = 34 then do
    advance 1
    let s ← string
    pure (.string s)
  else if c = 91 then do
    let empty ← enter 93
    let items ← if empty then pure [] else arrayItems dec n []
    leave
    pure (.array items)
  else if c = 123 then do
    let empty ← enter 125
    let members ← if empty then pure [] else objectMembers dec n []
    leave
    pure (.object members)
  else if c = 45 ∨ isDigit c then do
    let x ← number dec
    pure (.number x)
  else refuse "unexpected JSON character"

/-- The start of a value: its first byte, paid for. -/
theorem wp_valueOf {Q : Value F → Parser → Prop} {E : ParseError → Parser → Prop} {n : Nat} {c : Byte} {tl : Bytes}
    (hn : 0 < n) (hc : isWs c = false) (hbudget : rounded nodeCost ≤ p.budget)
    (h : wp (valueOf dec (n - 1) c) Q E { p with rest := c :: tl, budget := p.budget - rounded nodeCost }) :
    wp (value dec n) Q E { p with rest := c :: tl } := by
  obtain ⟨n, rfl⟩ := Nat.exists_eq_succ_of_ne_zero (Nat.ne_of_gt hn)
  rw [value, wp_bind]
  refine wp_skipWs tl rfl hc ?_
  rw [wp_bind, wp_peek]
  dsimp only [List.head?_cons]
  rw [wp_bind]
  exact wp_charge hbudget h

theorem wp_word (word : Bytes) :
    wp (literal word) (fun _ q => q = { p with rest }) (fun _ _ => False) { p with rest := word ++ rest } := by
  rw [literal, wp_bind, wp_get, if_pos (List.isPrefixOf_iff_prefix.mpr (List.prefix_append _ _)), wp_advance]
  rw [List.drop_left]

/-- A container is entered up to its first item or past its closing bracket. -/
theorem wp_opens {opens close c : Byte} {ws tl : Bytes} (hdepth : p.depth < maxDepth) (hws : ws.all isWs = true)
    (hc : isWs c = false) :
    wp (enter close) (fun empty q => empty = decide (c = close) ∧
      q = { p with rest := if c = close then tl else c :: tl, depth := p.depth + 1 }) (fun _ _ => False)
      { p with rest := opens :: (ws ++ c :: tl) } := by
  rw [enter, wp_bind, wp_modify, wp_bind, wp_get, if_neg (Nat.not_lt.mpr hdepth), wp_bind, wp_advance, wp_bind]
  refine wp_space (p := { p with depth := p.depth + 1 }) hws hc ?_
  rw [wp_bind, wp_peek, wp_ite]
  refine ⟨fun hhead => ?_, fun hhead => ?_⟩
  · have hclose : c = close := Option.some.inj hhead
    rw [wp_bind, wp_advance, if_pos hclose, decide_eq_true hclose]
    exact ⟨rfl, rfl⟩
  · have hclose : c ≠ close := fun heq => hhead (congrArg some heq)
    rw [if_neg hclose, decide_eq_false hclose]
    exact ⟨rfl, rfl⟩

theorem digit_ne {c b : Byte} (hc : isDigit c = true) (hb : isDigit b = false) : c ≠ b := by
  rintro rfl
  exact nomatch hc.symm.trans hb

theorem written_literal {height : Nat} {t : Literal} {n : Number F} (hn : t.Denotes dec n) :
    Written dec height t.bytes (.number n) := by
  obtain ⟨c, tl, hbytes, hws, _⟩ := denotes_head ((@Denotes.number _ _ 0) t hn)
  refine ⟨valid_literal t, rounded nodeCost, ?_, ?_⟩
  · have hnode : rounded nodeCost = 80 := rfl
    rw [hbytes, List.length_cons]
    omega
  intro p rest k hk _ hbudget hends
  have hfirst : c = 45 ∨ isDigit c = true := by
    obtain ⟨d, ds, hwhole, hdigit⟩ := whole_head t
    rw [Literal.bytes, hwhole] at hbytes
    cases hneg : t.negative with
    | true =>
      rw [hneg] at hbytes
      exact .inl (List.cons.inj hbytes).1.symm
    | false =>
      rw [hneg] at hbytes
      exact .inr ((List.cons.inj hbytes).1 ▸ hdigit)
  have hne {b : Byte} (hb : isDigit b = false) (hb' : (45 : Byte) ≠ b) : c ≠ b := by
    rcases hfirst with rfl | hdigit
    · exact hb'
    · exact digit_ne hdigit hb
  have hread := wp_literal (p := { p with budget := p.budget - rounded nodeCost }) hn hends
  rw [hbytes] at hread ⊢
  refine (@wp_valueOf _ _ _ _ _ _ _ (tl ++ rest)) (Nat.lt_of_le_of_lt (Nat.zero_le _) hk) hws hbudget ?_
  rw [valueOf, if_neg (hne rfl (by decide)), if_neg (hne rfl (by decide)), if_neg (hne rfl (by decide)),
    if_neg (hne rfl (by decide)), if_neg (hne rfl (by decide)), if_neg (hne rfl (by decide)), if_pos hfirst]
  refine wp_seq hread ?_
  rintro _ _ ⟨rfl, rfl⟩
  exact ⟨rfl, rfl⟩

theorem written_chars {height : Nat} {body : Bytes} {cs : List Char} (h : Chars body cs) :
    Written dec height (34 :: body ++ [34]) (.string (String.ofList cs)) := by
  refine ⟨valid_enclosed (by decide) (by decide) (valid_chars h), rounded nodeCost + stringCost (String.ofList cs),
    ?_, ?_⟩
  · have hnode : rounded nodeCost = 80 := rfl
    have hcost := stringCost_le h
    rw [List.length_append, List.length_cons, List.length_singleton]
    omega
  intro p rest n hn _ hbudget _
  simp only [List.cons_append, List.append_assoc, List.nil_append]
  refine wp_valueOf (Nat.lt_of_le_of_lt (Nat.zero_le _) hn) rfl (Nat.le_trans (Nat.le_add_right _ _) hbudget) ?_
  rw [valueOf, if_neg (by decide), if_neg (by decide), if_neg (by decide), if_pos rfl, wp_bind, wp_advance]
  refine wp_seq (wp_chars (p := { p with budget := p.budget - rounded nodeCost }) h ?_) ?_
  · exact Nat.le_sub_of_add_le (by rw [Nat.add_comm]; exact hbudget)
  · rintro _ _ ⟨rfl, rfl⟩
    rw [Nat.sub_sub]
    exact ⟨rfl, rfl⟩

/-- The three words. -/
theorem written_word {height : Nat} {v : Value F} {word : Bytes}
    (h : (word = utf8 "null" ∧ v = .null) ∨ (word = utf8 "true" ∧ v = .bool true) ∨
      (word = utf8 "false" ∧ v = .bool false)) : Written dec height word v := by
  rcases h with ⟨rfl, rfl⟩ | ⟨rfl, rfl⟩ | ⟨rfl, rfl⟩
  all_goals
    refine ⟨⟨_, rfl⟩, rounded nodeCost, by decide, ?_⟩
    intro p rest n hn _ hbudget _
    refine wp_valueOf (Nat.lt_of_le_of_lt (Nat.zero_le _) hn) rfl hbudget ?_
    refine wp_seq (wp_word (p := { p with budget := p.budget - rounded nodeCost }) _) ?_
    rintro _ _ rfl
    exact ⟨rfl, rfl⟩

theorem written_emptyArray {height : Nat} {ws : Bytes} (hws : ws.all isWs = true) :
    Written dec (height + 1) (91 :: ws ++ [93]) (.array []) := by
  refine ⟨valid_enclosed (by decide) (by decide) (valid_ascii (isWs_ascii hws)), rounded nodeCost, ?_, ?_⟩
  · have hnode : rounded nodeCost = 80 := rfl
    rw [List.length_append, List.length_cons, List.length_singleton]
    omega
  intro p rest n hn hdepth hbudget _
  simp only [List.cons_append, List.append_assoc, List.nil_append]
  refine wp_valueOf (Nat.lt_of_le_of_lt (Nat.zero_le _) hn) rfl hbudget ?_
  rw [valueOf, if_neg (by decide), if_neg (by decide), if_neg (by decide), if_neg (by decide), if_pos rfl]
  refine wp_seq (wp_opens (p := { p with budget := p.budget - rounded nodeCost }) (by show p.depth < _; omega)
    hws rfl) ?_
  rintro _ _ ⟨rfl, rfl⟩
  exact ⟨rfl, rfl⟩

theorem written_emptyObject {height : Nat} {ws : Bytes} (hws : ws.all isWs = true) :
    Written dec (height + 1) (123 :: ws ++ [125]) (.object []) := by
  refine ⟨valid_enclosed (by decide) (by decide) (valid_ascii (isWs_ascii hws)), rounded nodeCost, ?_, ?_⟩
  · have hnode : rounded nodeCost = 80 := rfl
    rw [List.length_append, List.length_cons, List.length_singleton]
    omega
  intro p rest n hn hdepth hbudget _
  simp only [List.cons_append, List.append_assoc, List.nil_append]
  refine wp_valueOf (Nat.lt_of_le_of_lt (Nat.zero_le _) hn) rfl hbudget ?_
  rw [valueOf, if_neg (by decide), if_neg (by decide), if_neg (by decide), if_neg (by decide), if_neg (by decide),
    if_pos rfl]
  refine wp_seq (wp_opens (p := { p with budget := p.budget - rounded nodeCost }) (by show p.depth < _; omega)
    hws rfl) ?_
  rintro _ _ ⟨rfl, rfl⟩
  exact ⟨rfl, rfl⟩

/-- An array of written values is written, one level deeper. -/
theorem written_array {height : Nat} (es : List (Element F)) (hne : es ≠ []) (hspaced : ∀ e ∈ es, e.spaced)
    (hhead : ∀ e ∈ es, ∃ c tl, e.body = c :: tl ∧ isWs c = false ∧ c ≠ 93)
    (h : ∀ e ∈ es, Written dec height e.body e.value) :
    Written dec (height + 1) (91 :: [44].intercalate (es.map Element.text) ++ [93]) (.array (es.map Element.value)) := by
  obtain ⟨cost, hcosts⟩ := exists_costs dec height
  have htotal := sum_le_intercalate es hne Element.text (fun e => rounded slotCost + cost e.body e.value) ?_
  · refine ⟨?_, rounded nodeCost + (es.map fun e => rounded slotCost + cost e.body e.value).sum, ?_, ?_⟩
    · refine valid_enclosed (by decide) (by decide) (valid_intercalate _ fun t ht => ?_)
      obtain ⟨e, he, rfl⟩ := List.mem_map.mp ht
      exact valid_element (hspaced e he) (h e he).valid
    · have hnode : rounded nodeCost = 80 := rfl
      rw [List.length_append, List.length_cons, List.length_singleton]
      omega
    intro p rest n hn hdepth hbudget _
    rw [List.length_append, List.length_cons, List.length_singleton] at hn
    obtain ⟨e, es, rfl⟩ := List.exists_cons_of_ne_nil hne
    obtain ⟨c, tl, hbody, hws, hc⟩ := hhead e List.mem_cons_self
    have hspaced' := List.forall_mem_cons.mp hspaced
    have h' := List.forall_mem_cons.mp h
    -- the white space in front of the first item is skipped on entering
    obtain ⟨e', he'⟩ : ∃ e' : Element F, e' = { e with before := [] } := ⟨_, rfl⟩
    have hfirst : [44].intercalate ((e :: es).map Element.text) =
        e.before ++ [44].intercalate ((e' :: es).map Element.text) := by
      have htext : e.text = e.before ++ e'.text := by
        rw [he']
        simp [Element.text]
      rw [List.map_cons, htext, intercalate_prepend, List.map_cons]
    obtain ⟨tl', htl'⟩ : ∃ tl', [44].intercalate ((e' :: es).map Element.text) ++ 93 :: rest = c :: tl' := by
      obtain ⟨more, tail, htext, _⟩ := (@list_text rest (es.map Element.text) e'.text 93)
      refine ⟨tl ++ e.after ++ (if more then 44 else 93) :: tail, ?_⟩
      rw [List.map_cons, htext, he']
      simp [Element.text, hbody]
    have hread := (@wp_items _ dec { rest := [], depth := p.depth + 1, budget := p.budget - rounded nodeCost } rest (e' :: es) (by rintro ⟨⟩) (List.forall_mem_cons.mpr ⟨he' ▸ ⟨rfl, hspaced'.1.2⟩, hspaced'.2⟩) (p.depth + 1) (fun e => cost e.body e.value) (List.forall_mem_cons.mpr ⟨?_, fun x hx => ?_⟩) [] rfl (n - 1)) ?_ ?_
    · have hopen : 91 :: [44].intercalate ((e :: es).map Element.text) ++ [93] ++ rest = 91 :: (e.before ++ c :: tl') := by
        rw [hfirst, ← htl']
        simp
      rw [hopen]
      refine wp_valueOf (Nat.lt_of_le_of_lt (Nat.zero_le _) hn) rfl (Nat.le_trans (Nat.le_add_right _ _) hbudget) ?_
      rw [valueOf, if_neg (by decide), if_neg (by decide), if_neg (by decide), if_neg (by decide), if_pos rfl]
      refine wp_seq (wp_opens (p := { p with budget := p.budget - rounded nodeCost }) (by show p.depth < _; omega)
        hspaced'.1.1 hws) ?_
      rintro _ _ ⟨rfl, rfl⟩
      rw [htl'] at hread
      rw [if_neg hc, decide_eq_false hc]
      refine wp_seq hread ?_
      rintro _ _ ⟨rfl, rfl⟩
      rw [he', ← Nat.sub_sub]
      exact ⟨rfl, rfl⟩
    · rw [he']
      exact (hcosts _ _ h'.1).2 (by omega)
    · exact (hcosts _ _ (h'.2 x hx)).2 (by omega)
    · have hlen := congrArg List.length hfirst
      rw [List.length_append] at hlen
      omega
    · rw [he']
      exact Nat.le_sub_of_add_le (by rw [Nat.add_comm]; exact hbudget)
  · intro e he
    have hslot : rounded slotCost = 16 := rfl
    have hcost := (hcosts _ _ (h e he)).1
    rw [Element.text, List.length_append, List.length_append]
    omega

/-- An object of written values is written, one level deeper. -/
theorem written_object {height : Nat} (ms : List (Member F)) (hne : ms ≠ []) (hspaced : ∀ m ∈ ms, m.spaced)
    (hnames : ∀ m ∈ ms, Chars m.name m.chars) (hkeys : (ms.map Member.key).Nodup)
    (h : ∀ m ∈ ms, Written dec height m.element.body m.element.value) :
    Written dec (height + 1) (123 :: [44].intercalate (ms.map Member.text) ++ [125])
      (.object (ms.map fun m => (m.key, m.element.value))) := by
  obtain ⟨cost, hcosts⟩ := exists_costs dec height
  have htotal := sum_le_intercalate ms hne Member.text (memberCost fun m => cost m.element.body m.element.value) ?_
  · refine ⟨?_, rounded nodeCost + (ms.map (memberCost fun m => cost m.element.body m.element.value)).sum, ?_, ?_⟩
    · refine valid_enclosed (by decide) (by decide) (valid_intercalate _ fun t ht => ?_)
      obtain ⟨m, hm, rfl⟩ := List.mem_map.mp ht
      exact valid_member (hspaced m hm) (hnames m hm) (h m hm).valid
    · have hnode : rounded nodeCost = 80 := rfl
      rw [List.length_append, List.length_cons, List.length_singleton]
      omega
    intro p rest n hn hdepth hbudget _
    rw [List.length_append, List.length_cons, List.length_singleton] at hn
    obtain ⟨m, ms, rfl⟩ := List.exists_cons_of_ne_nil hne
    have hspaced' := List.forall_mem_cons.mp hspaced
    have h' := List.forall_mem_cons.mp h
    have hnames' := List.forall_mem_cons.mp hnames
    -- the white space in front of the first member is skipped on entering
    obtain ⟨m', hm'⟩ : ∃ m' : Member F, m' = { m with before := [] } := ⟨_, rfl⟩
    have hfirst : [44].intercalate ((m :: ms).map Member.text) =
        m.before ++ [44].intercalate ((m' :: ms).map Member.text) := by
      have htext : m.text = m.before ++ m'.text := by
        rw [hm']
        simp [Member.text]
      rw [List.map_cons, htext, intercalate_prepend, List.map_cons]
    obtain ⟨tl', htl'⟩ : ∃ tl', [44].intercalate ((m' :: ms).map Member.text) ++ 125 :: rest = 34 :: tl' := by
      obtain ⟨more, tail, htext, _⟩ := (@list_text rest (ms.map Member.text) m'.text 125)
      rw [List.map_cons, htext, hm']
      exact ⟨_, rfl⟩
    have hread := (@wp_memberTexts _ dec { rest := [], depth := p.depth + 1, budget := p.budget - rounded nodeCost } rest (m' :: ms) (by rintro ⟨⟩) (List.forall_mem_cons.mpr ⟨hm' ▸ ⟨rfl, hspaced'.1.2⟩, hspaced'.2⟩) (List.forall_mem_cons.mpr ⟨hm' ▸ hnames'.1, hnames'.2⟩) (p.depth + 1) (fun m => cost m.element.body m.element.value) (List.forall_mem_cons.mpr ⟨?_, fun x hx => ?_⟩) [] (hm' ▸ hkeys) rfl (n - 1)) ?_ ?_
    · have hopen : 123 :: [44].intercalate ((m :: ms).map Member.text) ++ [125] ++ rest =
          123 :: (m.before ++ 34 :: tl') := by
        rw [hfirst, ← htl']
        simp
      rw [hopen]
      refine wp_valueOf (Nat.lt_of_le_of_lt (Nat.zero_le _) hn) rfl (Nat.le_trans (Nat.le_add_right _ _) hbudget) ?_
      rw [valueOf, if_neg (by decide), if_neg (by decide), if_neg (by decide), if_neg (by decide),
        if_neg (by decide), if_pos rfl]
      refine wp_seq (wp_opens (p := { p with budget := p.budget - rounded nodeCost }) (by show p.depth < _; omega)
        hspaced'.1.1 rfl) ?_
      rintro _ _ ⟨rfl, rfl⟩
      rw [htl'] at hread
      refine wp_seq hread ?_
      rintro _ _ ⟨rfl, rfl⟩
      rw [hm', ← Nat.sub_sub]
      exact ⟨rfl, rfl⟩
    · rw [hm']
      exact (hcosts _ _ h'.1).2 (by omega)
    · exact (hcosts _ _ (h'.2 x hx)).2 (by omega)
    · have hlen := congrArg List.length hfirst
      rw [List.length_append] at hlen
      omega
    · rw [hm']
      exact Nat.le_sub_of_add_le (by rw [Nat.add_comm]; exact hbudget)
  · intro m hm
    have hslot : rounded (slotCost * 3) = 32 := rfl
    have hcost := (hcosts _ _ (h m hm)).1
    have hkey : stringCost m.key ≤ m.name.length + 16 := stringCost_le (hnames m hm)
    have hlen : m.name.length + m.element.body.length + 3 ≤ m.text.length := by
      simp only [Member.text, Element.text, List.length_append, List.length_cons]
      omega
    rw [memberCost]
    omega

end CompleteLemmas

/-- What denotes a value reads as it wherever a value may stand, by induction on the
derivation. -/
theorem denotes_written {levels : Nat} {body : Bytes} {v : Value F} (h : Denotes dec levels body v) :
    Written dec levels body v := by
  induction h with
  | null => exact written_word (.inl ⟨rfl, rfl⟩)
  | true => exact written_word (.inr (.inl ⟨rfl, rfl⟩))
  | false => exact written_word (.inr (.inr ⟨rfl, rfl⟩))
  | string hchars => exact written_chars hchars
  | number t ht => exact written_literal ht
  | emptyArray hws => exact written_emptyArray hws
  | array es hne hspaced hdenotes ih => exact written_array es hne hspaced (fun e he => denotes_head (hdenotes e he)) ih
  | emptyObject hws => exact written_emptyObject hws
  | object ms hne hspaced hnames hkeys _ ih => exact written_object ms hne hspaced hnames hkeys ih

/-- A value with white space around it parses as the value. -/
theorem parse_of_denotes {text : Bytes} {v : Value F} (h : DocumentDenotes dec text v) : parse dec text = .ok v := by
  obtain ⟨before, body, after, rfl, hbefore, hafter, hbody⟩ := h
  exact parse_spaced (denotes_written hbody) (Nat.le_refl _) hbefore hafter

/-! ## Exactness -/

/-- `str::parse::<f64>`, which reads every number of the grammar. -/
structure Oracle (F : Type) extends Decimal F where
  literals : ∀ t : Literal, (parse t.bytes).isSome = true

namespace CompleteLemmas

/-- An integer of 64 bits is short. -/
theorem short_of_decimal {t : Literal} (hint : t.integer = true) (h : decimal t.whole < 2 ^ 64) : t.bytes.length < 64 := by
  have hdigits : t.whole.length ≤ 20 := by
    rcases t.whole_eq with hzero | ⟨hne, hall, hhead⟩
    · rw [hzero]
      decide
    · exact (le_decimal hall hne hhead (by decide)).mpr (Nat.lt_trans h (by decide))
  have hnone : t.frac = none ∧ t.expo = none := by
    rw [Literal.integer, Bool.and_eq_true] at hint
    exact ⟨Option.isNone_iff_eq_none.mp hint.1, Option.isNone_iff_eq_none.mp hint.2⟩
  have hsign : (if t.negative then [45] else [] : Bytes).length ≤ 1 := by
    split
    · exact Nat.le_refl _
    · exact Nat.zero_le _
  have hrest : (t.fracBytes ++ t.expoBytes).length = 0 := by
    rw [Literal.fracBytes, Literal.expoBytes, hnone.1, hnone.2]
    rfl
  rw [Literal.bytes, List.length_append, List.length_append, hrest]
  omega

/-- Which literals denote a number. -/
theorem literal_denotes_iff (dec : Oracle F) (t : Literal) : (∃ n, t.Denotes dec.toDecimal n) ↔
    (t.integer = false → t.bytes.length < 64 ∧ ∀ v, dec.parse t.bytes = some v → dec.finite v = true) := by
  constructor
  · rintro ⟨n, hn⟩ hfloat
    cases hn with
    | integer hint _ _ => exact nomatch hint.symm.trans hfloat
    | long hint _ => exact nomatch hint.symm.trans hfloat
    | float _ hshort hv hfinite => exact ⟨hshort, fun u hu => Option.some.inj (hv.symm.trans hu) ▸ hfinite⟩
  · intro h
    obtain ⟨v, hv⟩ := Option.isSome_iff_exists.mp (dec.literals t)
    cases hint : t.integer with
    | false =>
      obtain ⟨hshort, hfinite⟩ := h hint
      exact ⟨_, .float hint hshort hv (hfinite v hv)⟩
    | true =>
      rcases Nat.lt_or_ge t.bytes.length 64 with hshort | hlong
      · exact ⟨_, .integer hint hshort hv⟩
      · exact ⟨_, .long hint hlong⟩

/-- What is kept of an integer: its sign, and its magnitude when that has 64 bits. -/
theorem integer_exact {t : Literal} {n : Number F} (hn : t.Denotes dec n) (hint : t.integer = true) :
    n.integer = true ∧ n.negative = t.negative ∧
      n.magnitude = if decimal t.whole < 2 ^ 64 then some (decimal t.whole) else none := by
  cases hn with
  | integer _ _ _ => exact ⟨rfl, rfl, rfl⟩
  | long _ hlong =>
    refine ⟨rfl, rfl, (if_neg fun hlt => ?_).symm⟩
    exact absurd (short_of_decimal hint hlt) (Nat.not_lt.mpr hlong)
  | float hfloat _ _ _ => exact nomatch hint.symm.trans hfloat

end CompleteLemmas

/-- A document parses as a value just when it is UTF-8 and denotes the value. The literals that
denote no number are the fractions and exponents that have 64 characters or are not finite;
integers keep their sign, and their magnitude when it has 64 bits. -/
theorem parse_exact (dec : Oracle F) :
    (∀ text v, parse dec.toDecimal text = .ok v ↔ Valid text ∧ DocumentDenotes dec.toDecimal text v) ∧
    (∀ t : Literal, (∃ n, t.Denotes dec.toDecimal n) ↔
      (t.integer = false → t.bytes.length < 64 ∧ ∀ v, dec.parse t.bytes = some v → dec.finite v = true)) ∧
    (∀ (t : Literal) (n : Number F), t.Denotes dec.toDecimal n → t.integer = true → n.integer = true ∧
      n.negative = t.negative ∧ n.magnitude = if decimal t.whole < 2 ^ 64 then some (decimal t.whole) else none) := by
  refine ⟨fun text v => ⟨parse_denotes, fun h => parse_of_denotes h.2⟩, literal_denotes_iff dec, ?_⟩
  intro t n hn hint
  exact integer_exact hn hint

/-- Floats as the literals they were read from; `none` is infinite. -/
def literalDecimal : Oracle (Option Bytes) where
  parse ds := some (some ds)
  finite v := v.isSome
  infinity _ := none
  reads _ _ _ := rfl
  literals _ := rfl

/-- The integer 10⁶³. -/
def longInteger : Literal where
  negative := false
  whole := 49 :: List.replicate 63 48
  frac := none
  expo := none
  whole_eq := .inr ⟨nofun, by decide, by decide⟩
  frac_eq := nofun

/-- An integer that parses as no exact value: neither its magnitude nor its float is kept. -/
theorem long_integer_not_exact :
    parse literalDecimal.toDecimal (utf8 "1000000000000000000000000000000000000000000000000000000000000000") =
      .ok (.number ⟨true, false, none, none⟩) ∧ decimal longInteger.whole = 10 ^ 63 ∧
    longInteger.bytes = utf8 "1000000000000000000000000000000000000000000000000000000000000000" := by
  have hbytes : longInteger.bytes = utf8 "1000000000000000000000000000000000000000000000000000000000000000" := by
    decide +kernel
  refine ⟨?_, by decide +kernel, hbytes⟩
  rw [← hbytes]
  refine parse_of_denotes ⟨[], longInteger.bytes, [], by rw [List.nil_append, List.append_nil], rfl, rfl, ?_⟩
  exact .number longInteger (.long rfl (by decide +kernel))

end OmtClient.Common.Json
