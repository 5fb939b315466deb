import OmtClient.Common.Json
import OmtClient.Lib.Numeral

/-!
# Reading back what was written

A record written with `write_string` for its texts is read back by the parser as
the members it was written from, whatever the texts are, as long as its keys
differ and its budget covers it.

1. `wp_string`: a written string reads back as itself.
2. `wp_objectMembers`: the members of a written record read back in order.
3. `parse_record`: so does a whole record, under the default budget.
-/

namespace OmtClient.Common.Json

open OmtClient.Lib Prog

namespace JsonLemmas

variable {p : Parser} {rest : Bytes} {b : Byte}

/-! ## Strings -/

theorem escapeByte_plain (h : isPlain b = true) : escapeByte b = [b] := by
  simp only [isPlain, Bool.and_eq_true, bne_iff_ne, ne_eq, decide_eq_true_eq] at h
  obtain ⟨⟨hquote, hslash⟩, hlow⟩ := h
  have hne {c : Byte} (hc : c < 32) : b ≠ c := by
    rintro rfl
    exact absurd hlow (UInt8.not_le.mpr hc)
  unfold escapeByte
  rw [if_neg hquote, if_neg hslash, if_neg (hne (by decide)), if_neg (hne (by decide)),
    if_neg (hne (by decide)), if_neg (hne (by decide)), if_neg (hne (by decide)),
    if_neg (UInt8.not_lt.mpr hlow)]

theorem hex_digits : ∀ n, n < 32 →
    [48, 48, hexChar (n / 16), hexChar (n % 16)].foldlM
      (fun v d => (hexDigit d).map (v * 16 + ·)) 0 = some n := by
  decide

theorem encode_control : ∀ n, n < 32 → encode (Char.ofNat n) = [UInt8.ofNat n] := by
  decide

theorem wp_unicodeEscape (h : b < 32) :
    wp unicodeEscape (fun c q => encode c = [b] ∧ q = { p with rest }) (fun _ _ => False)
      { p with rest := [48, 48, hexChar (b.toNat / 16), hexChar (b.toNat % 16)] ++ rest } := by
  have hlt : b.toNat < 32 := UInt8.lt_iff_toNat_lt.mp h
  have hcp : charFromU32 b.toNat = some (Char.ofNat b.toNat) := if_pos (.inl (by omega))
  have henc : encode (Char.ofNat b.toNat) = [b] := by
    rw [encode_control _ hlt, UInt8.ofNat_toNat]
  rw [unicodeEscape, wp_bind, hex4, wp_bind, wp_get]
  simp only [List.cons_append, List.nil_append, List.take_succ_cons, List.take_zero, List.length_cons,
    List.length_nil, hex_digits _ hlt]
  rw [if_neg (by decide), wp_bind, wp_advance, wp_pure, if_neg (by omega), if_neg (by omega), scalar,
    wp_orRaise, hcp]
  exact ⟨fun c hc => ⟨Option.some.inj hc ▸ henc, rfl⟩, fun hno => nomatch hno⟩

/-- What an escape is read as: the byte it was written for. -/
theorem wp_escaped (p : Parser) (rest : Bytes) (h : isPlain b = false) :
    ∃ tail, escapeByte b = 92 :: tail ∧
      wp escaped (fun c q => encode c = [b] ∧ q = { p with rest }) (fun _ _ => False)
        { p with rest := tail ++ rest } := by
  have hshort {e : Byte} {c : Char} (he : shortEscape e = some c) (hc : encode c = [b]) :
      wp escaped (fun c q => encode c = [b] ∧ q = { p with rest }) (fun _ _ => False)
        { p with rest := [e] ++ rest } := by
    rw [escaped, wp_bind, wp_peek]
    simp only [List.cons_append, List.nil_append, List.head?_cons, wp_bind, wp_advance, he]
    exact ⟨hc, rfl⟩
  unfold escapeByte
  by_cases h34 : b = 34
  · subst h34
    exact ⟨[34], rfl, hshort rfl rfl⟩
  by_cases h92 : b = 92
  · subst h92
    exact ⟨[92], rfl, hshort rfl rfl⟩
  by_cases h8 : b = 8
  · subst h8
    exact ⟨[98], rfl, hshort rfl rfl⟩
  by_cases h12 : b = 12
  · subst h12
    exact ⟨[102], rfl, hshort rfl rfl⟩
  by_cases h10 : b = 10
  · subst h10
    exact ⟨[110], rfl, hshort rfl rfl⟩
  by_cases h13 : b = 13
  · subst h13
    exact ⟨[114], rfl, hshort rfl rfl⟩
  by_cases h9 : b = 9
  · subst h9
    exact ⟨[116], rfl, hshort rfl rfl⟩
  have hlow : b < 32 := by
    refine UInt8.not_le.mp fun hle => ?_
    simp [isPlain, h34, h92, hle] at h
  rw [if_neg h34, if_neg h92, if_neg h8, if_neg h12, if_neg h10, if_neg h13, if_neg h9, if_pos hlow]
  refine ⟨_, rfl, ?_⟩
  rw [escaped, wp_bind, wp_peek]
  exact wp_unicodeEscape hlow

theorem flatMap_plain (run : Bytes) (h : ∀ b ∈ run, isPlain b = true) :
    run.flatMap escapeByte = run := by
  induction run with
  | nil => rfl
  | cons b run ih =>
    rw [List.flatMap_cons, escapeByte_plain (h b List.mem_cons_self),
      ih fun c hc => h c (List.mem_cons_of_mem _ hc)]
    rfl

theorem length_le_flatMap (bs : Bytes) : bs.length ≤ (bs.flatMap escapeByte).length := by
  induction bs with
  | nil => exact Nat.le_refl _
  | cons b bs ih =>
    have hone : 1 ≤ (escapeByte b).length := by
      cases hp : isPlain b with
      | true => rw [escapeByte_plain hp]; exact Nat.le_refl _
      | false =>
        obtain ⟨tail, htail, _⟩ := wp_escaped ⟨[], 0, 0⟩ [] hp
        rw [htail]
        exact Nat.succ_le_succ (Nat.zero_le _)
    rw [List.flatMap_cons, List.length_append, List.length_cons]
    omega

/-- After the plain bytes at the front of a written string there is none. -/
theorem takeWhile_written (bs : Bytes) (h : ∀ b tl, bs = b :: tl → isPlain b = false) :
    (bs.flatMap escapeByte ++ 34 :: rest).takeWhile isPlain = [] := by
  cases bs with
  | nil => rfl
  | cons b tl =>
    obtain ⟨tail, htail, _⟩ := wp_escaped ⟨[], 0, 0⟩ [] (h b tl rfl)
    rw [List.flatMap_cons, htail]
    rfl

theorem wp_stringLoop (n : Nat) (bs text : Bytes) (hn : bs.length < n) :
    wp (stringLoop n text) (fun t q => t = text ++ bs ∧ q = { p with rest }) (fun _ _ => False)
      { p with rest := bs.flatMap escapeByte ++ 34 :: rest } := by
  induction n generalizing bs text with
  | zero => exact absurd hn (Nat.not_lt_zero _)
  | succ n ih =>
    rw [stringLoop, wp_bind, wp_peek]
    cases bs with
    | nil => exact ⟨(List.append_nil _).symm, rfl⟩
    | cons b tl =>
      cases hp : isPlain b with
      | false =>
        obtain ⟨tail, htail, hwp⟩ := wp_escaped p (tl.flatMap escapeByte ++ 34 :: rest) hp
        simp only [List.flatMap_cons, htail, List.cons_append, List.append_assoc, List.head?_cons]
        rw [if_neg (by decide), if_neg (by decide), if_pos trivial, wp_bind, wp_advance]
        refine wp_seq hwp ?_
        rintro c q ⟨hc, rfl⟩
        rw [hc]
        refine wp_mono (ih tl (text ++ [b]) (Nat.lt_of_succ_lt_succ hn)) ?_ (fun _ _ h => h)
        rintro t q ⟨rfl, hq⟩
        exact ⟨List.append_assoc _ _ _, hq⟩
      | true =>
        have hplain := hp
        simp only [isPlain, Bool.and_eq_true, bne_iff_ne, ne_eq, decide_eq_true_eq] at hplain
        obtain ⟨⟨hquote, hslash⟩, hlow⟩ := hplain
        -- the run of plain bytes, and what comes after it
        obtain ⟨run, more, hsplit, hrun, hmore⟩ : ∃ run more, tl = run ++ more ∧
            (∀ c ∈ run, isPlain c = true) ∧ ∀ c rest, more = c :: rest → isPlain c = false := by
          refine ⟨tl.takeWhile isPlain, tl.dropWhile isPlain, List.takeWhile_append_dropWhile.symm,
            List.all_eq_true.mp List.all_takeWhile, fun c rest hc => ?_⟩
          have hhead := List.head?_dropWhile_not isPlain tl
          rw [hc] at hhead
          simpa using hhead
        have hrest : (b :: tl).flatMap escapeByte ++ 34 :: rest =
            (b :: run) ++ (more.flatMap escapeByte ++ 34 :: rest) := by
          rw [hsplit, ← List.cons_append, List.flatMap_append, flatMap_plain (b :: run),
            List.append_assoc]
          exact List.forall_mem_cons.mpr ⟨hp, hrun⟩
        have htake : ((b :: run) ++ (more.flatMap escapeByte ++ 34 :: rest)).takeWhile isPlain =
            b :: run := by
          rw [List.takeWhile_append_of_pos (List.forall_mem_cons.mpr ⟨hp, hrun⟩),
            takeWhile_written more hmore, List.append_nil]
        rw [hrest]
        simp only [List.cons_append, List.head?_cons]
        rw [if_neg hquote, if_neg (UInt8.not_lt.mpr hlow), if_neg hslash, wp_bind, wp_get, wp_bind,
          wp_advance]
        simp only [← List.cons_append]
        rw [htake, List.drop_left]
        have hless : more.length < n := by
          rw [hsplit, List.length_cons, List.length_append] at hn
          omega
        refine wp_mono (ih more (text ++ b :: run) hless) ?_ (fun _ _ h => h)
        rintro t q ⟨rfl, hq⟩
        refine ⟨?_, hq⟩
        rw [hsplit, List.append_assoc, List.cons_append]

theorem wp_charge {Q : Unit → Parser → Prop} {E : ParseError → Parser → Prop} {bytes : Nat}
    (h : rounded bytes ≤ p.budget) (hq : Q () { p with budget := p.budget - rounded bytes }) :
    wp (charge bytes) Q E p := by
  rw [charge, wp_bind, wp_get, if_neg (Nat.not_lt.mpr h)]
  exact hq

theorem escapeByte_ascii : ∀ n, n < 128 → ∀ c ∈ escapeByte (UInt8.ofNat n), c.toNat < 128 := by
  decide +kernel

/-- What is written for a text is a text. -/
theorem valid_writeString (s : String) : Valid (writeString s) := by
  have hquote : Valid [34] := valid_plain (by decide)
  have hbody (cs : List Char) : Valid ((cs.flatMap encode).flatMap escapeByte) := by
    induction cs with
    | nil => exact ⟨"", rfl⟩
    | cons c cs ih =>
      rw [List.flatMap_cons, List.flatMap_append]
      refine valid_append ?_ ih
      rcases encode_cases c with ⟨hlt, henc⟩ | ⟨_, hhigh⟩
      · rw [henc, List.flatMap_cons, List.flatMap_nil, List.append_nil]
        exact valid_ascii (escapeByte_ascii _ hlt)
      · -- no byte of the character is one that is escaped
        rw [flatMap_plain (encode c) fun b hb => ?_]
        · exact valid_encode c
        · have hle := hhigh b hb
          have hne {k : Byte} (hk : k < 128) : b ≠ k := by
            rintro rfl
            exact absurd hle (UInt8.not_le.mpr hk)
          simp [isPlain, hne (show (34 : Byte) < 128 by decide), hne (show (92 : Byte) < 128 by decide),
            UInt8.le_trans (show (32 : Byte) ≤ 128 by decide) hle]
  rw [writeString, utf8_eq]
  exact valid_append (valid_append hquote (hbody s.toList)) hquote

/-- What a string costs. -/
def stringCost (s : String) : Nat := rounded ((utf8 s).length + 1)

end JsonLemmas

open JsonLemmas

/-- A written string reads back as itself. -/
theorem wp_string (s : String) {p : Parser} {rest : Bytes} (h : stringCost s ≤ p.budget) :
    wp string (fun t q => t = s ∧ q = { p with rest, budget := p.budget - stringCost s })
      (fun _ _ => False) { p with rest := (utf8 s).flatMap escapeByte ++ 34 :: rest } := by
  rw [string, wp_bind, wp_get]
  have hfuel : (utf8 s).length < ((utf8 s).flatMap escapeByte ++ 34 :: rest).length + 1 := by
    have hle := length_le_flatMap (utf8 s)
    rw [List.length_append]
    omega
  refine wp_seq (wp_stringLoop _ (utf8 s) [] hfuel) ?_
  rintro t q ⟨rfl, rfl⟩
  rw [List.nil_append, wp_bind]
  refine wp_charge h ?_
  rw [ofUtf8_utf8]
  exact ⟨rfl, rfl⟩

/-! ## Values and members -/

variable {F : Type}

/-- What may stand after a member: a comma or the closing brace. -/
def Follows (rest : Bytes) : Prop := rest.head? = some 44 ∨ rest.head? = some 125

/-- `bytes` reads as `v` at a cost. -/
def Reads (dec : Decimal F) (bytes : Bytes) (v : Value F) (cost : Nat) : Prop :=
  ∀ {p : Parser} {rest : Bytes} {n : Nat}, 0 < n → cost ≤ p.budget → Follows rest →
    wp (value dec n) (fun u q => u = v ∧ q = { p with rest, budget := p.budget - cost })
      (fun _ _ => False) { p with rest := bytes ++ rest }

/-- A member of a record as it is written, and what it is read as. -/
structure Item (F : Type) where
  key : String
  bytes : Bytes
  value : Value F
  cost : Nat

def Item.text (m : Item F) : Bytes := writeString m.key ++ 58 :: m.bytes

def Item.total (m : Item F) : Nat := rounded (slotCost * 3) + stringCost m.key + m.cost

/-- The members of a record up to its brace. -/
def recordText : List (Item F) → Bytes
  | [] => [125]
  | [m] => m.text ++ [125]
  | m :: ms => m.text ++ 44 :: recordText ms

variable {dec : Decimal F}

namespace JsonLemmas

variable {p : Parser} {rest : Bytes}

theorem wp_skipWs {Q : Unit → Parser → Prop} {E : ParseError → Parser → Prop} {b : Byte} (tl : Bytes)
    (hp : p.rest = b :: tl) (hb : isWs b = false) (hq : Q () p) : wp skipWs Q E p := by
  have hsame : p.rest.dropWhile isWs = p.rest := by
    rw [hp, List.dropWhile_cons, if_neg (by rw [hb]; exact nofun)]
  rw [skipWs, wp_modify, hsame]
  exact hq

theorem isWs_ascii {ws : Bytes} (h : ws.all isWs = true) : ∀ b ∈ ws, b.toNat < 128 := by
  intro b hb
  have hws := List.all_eq_true.mp h b hb
  simp only [isWs, Bool.or_eq_true, beq_iff_eq] at hws
  rcases hws with ((rfl | rfl) | rfl) | rfl <;> decide

theorem dropWhile_ws {ws x : Bytes} (h : ws.all isWs = true) : (ws ++ x).dropWhile isWs = x.dropWhile isWs :=
  List.dropWhile_append_of_pos (List.all_eq_true.mp h)

/-- White space in front of code that skips it. -/
theorem wp_skip_space {α : Type} {f : Unit → Parse α} {Q : α → Parser → Prop} {E : ParseError → Parser → Prop}
    {ws x : Bytes} (hws : ws.all isWs = true) :
    wp (skipWs >>= f) Q E { p with rest := ws ++ x } ↔ wp (skipWs >>= f) Q E { p with rest := x } := by
  rw [wp_bind, wp_bind, skipWs, wp_modify, wp_modify]
  rw [dropWhile_ws hws]

/-- A text reads back, whatever comes after it. -/
theorem wp_text (s : String) {n : Nat} (hn : 0 < n) (hbudget : rounded nodeCost + stringCost s ≤ p.budget) :
    wp (value dec n) (fun u q => u = .string s ∧
      q = { p with rest, budget := p.budget - (rounded nodeCost + stringCost s) })
      (fun _ _ => False) { p with rest := writeString s ++ rest } := by
  obtain ⟨n, rfl⟩ := Nat.exists_eq_succ_of_ne_zero (Nat.pos_iff_ne_zero.mp hn)
  rw [value, wp_bind]
  refine wp_skipWs ((utf8 s).flatMap escapeByte ++ [34] ++ rest) rfl rfl ?_
  rw [wp_bind, wp_peek]
  simp only [writeString, List.cons_append, List.append_assoc, List.nil_append, List.head?_cons]
  rw [wp_bind]
  refine wp_charge (Nat.le_trans (Nat.le_add_right _ _) hbudget) ?_
  rw [if_neg (by decide), if_neg (by decide), if_neg (by decide), if_pos trivial, wp_bind, wp_advance]
  refine wp_seq (wp_string s (p := { p with budget := p.budget - rounded nodeCost }) ?_) ?_
  · exact Nat.le_sub_of_add_le (by rw [Nat.add_comm]; exact hbudget)
  · rintro t q ⟨rfl, rfl⟩
    refine ⟨rfl, ?_⟩
    rw [Nat.sub_sub]

/-- A text in a record reads back. -/
theorem reads_string (s : String) :
    Reads dec (writeString s) (.string s) (rounded nodeCost + stringCost s) :=
  fun hn hbudget _ => wp_text s hn hbudget

theorem wp_fraction_none (h : p.rest.head? ≠ some 46) :
    wp fraction (fun some? q => some? = false ∧ q = p) (fun _ _ => False) p := by
  rw [fraction, wp_bind, wp_peek, if_neg h]
  exact ⟨rfl, rfl⟩

theorem wp_exponent_none (h : p.rest.head? ≠ some 101 ∧ p.rest.head? ≠ some 69) :
    wp exponent (fun some? q => some? = false ∧ q = p) (fun _ _ => False) p := by
  rw [exponent, wp_bind, wp_peek, if_neg (not_or.mpr h)]
  exact ⟨rfl, rfl⟩

/-- What may stand after a number. -/
def Ends (rest : Bytes) : Prop :=
  ∀ c, rest.head? = some c → isDigit c = false ∧ c ≠ 46 ∧ c ≠ 101 ∧ c ≠ 69

theorem ends_of_follows (h : Follows rest) : Ends rest := by
  intro c hc
  rcases h with h | h
  · cases Option.some.inj (hc.symm.trans h)
    decide
  · cases Option.some.inj (hc.symm.trans h)
    decide

theorem takeWhile_numeral (n : Nat) {tl : Bytes} (h : Ends tl) :
    (numeral 10 n ++ tl).takeWhile isDigit = numeral 10 n := by
  have htake : tl.takeWhile isDigit = [] := by
    cases tl with
    | nil => rfl
    | cons c tl => exact List.takeWhile_cons_of_neg (by rw [(h c rfl).1]; exact nofun)
  rw [List.takeWhile_append_of_pos (p := isDigit) (isAsciiDigit_numeral n), htake, List.append_nil]

theorem wp_integerPart (n : Nat) {tl : Bytes} (h : Ends tl) :
    wp integerPart (fun _ q => q = { p with rest := tl }) (fun _ _ => False)
      { p with rest := numeral 10 n ++ tl } := by
  rw [integerPart, wp_bind, wp_peek]
  rcases Nat.eq_zero_or_pos n with rfl | hn
  · -- a zero is not followed by a digit
    have hnext : ¬ (tl.head?.any isDigit) = true := by
      cases hhead : tl.head? with
      | none => exact nofun
      | some c =>
        rw [Option.any_some, (h c hhead).1]
        exact nofun
    show wp (if (48 : Byte) = 48 then _ else _) _ _ _
    rw [if_pos rfl, wp_bind, wp_advance, wp_bind, wp_peek, wp_ite]
    exact ⟨fun hdigit => absurd hdigit hnext, fun _ => rfl⟩
  · have htake := takeWhile_numeral n h
    obtain ⟨c, cs, hnum⟩ := List.exists_cons_of_ne_nil (@numeral_ne_nil 10 n)
    have hc : c ≠ 48 := fun heq => numeral_head hn (by rw [hnum, heq]; rfl)
    have hdigit : isDigit c = true := isAsciiDigit_numeral n c (hnum ▸ List.mem_cons_self)
    have hrest : (numeral 10 n ++ tl).head? = some c := by rw [hnum]; rfl
    rw [hrest]
    dsimp only
    rw [if_neg hc, if_pos hdigit, wp_bind, digits, wp_bind, wp_get, wp_bind, wp_advance, wp_pure, wp_pure]
    rw [htake, List.drop_left]

theorem magnitude_digits (ds : Bytes) (h : decimal ds < 2 ^ 64) : magnitude ds = some (decimal ds) := by
  induction ds using List.reverseRecOn with
  | nil => rfl
  | append_singleton ds d ih =>
    rw [decimal_append] at h ⊢
    have hds : decimal ds < 2 ^ 64 := by omega
    rw [magnitude, List.foldlM_append]
    show (magnitude ds).bind _ = _
    rw [ih hds, Option.bind_some, List.foldlM_cons]
    simp only [if_pos h]
    rfl

theorem wp_number {n : Nat} (hlt : n < 2 ^ 64) {tl : Bytes} (h : Ends tl) {v : F}
    (hv : dec.parse (numeral 10 n) = some v) :
    wp (number dec) (fun x q => x = ⟨true, false, some n, v⟩ ∧ q = { p with rest := tl })
      (fun _ _ => False) { p with rest := numeral 10 n ++ tl } := by
  have htext : (numeral 10 n ++ tl).take ((numeral 10 n ++ tl).length - tl.length) = numeral 10 n := by
    rw [List.length_append, Nat.add_sub_cancel_right, List.take_left]
  have hshort : (numeral 10 n).length ≤ 20 :=
    (length_numeral_le (by decide) (by decide)).mpr (Nat.lt_trans hlt (by decide))
  have hplus : (numeral 10 n ++ tl).head? ≠ some 45 := by
    obtain ⟨c, cs, hnum⟩ := List.exists_cons_of_ne_nil (@numeral_ne_nil 10 n)
    have hdigit : isAsciiDigit c = true := isAsciiDigit_numeral n c (hnum ▸ List.mem_cons_self)
    rw [hnum]
    intro heq
    cases Option.some.inj heq
    exact nomatch hdigit
  have hmag : magnitude (numeral 10 n) = some n := by
    have hdec := decimal_numeral n
    rw [magnitude_digits _ (by rw [hdec]; exact hlt), hdec]
  rw [number, wp_bind, wp_get]
  rw [decide_eq_false hplus, wp_bind, wp_advance]
  show wp (Prog.get >>= _) _ _ { p with rest := numeral 10 n ++ tl }
  rw [wp_bind, wp_get]
  refine wp_seq (wp_integerPart n h) ?_
  rintro _ q rfl
  rw [wp_bind, wp_get]
  refine wp_seq (wp_fraction_none fun hdot => (h _ hdot).2.1 rfl) ?_
  rintro _ _ ⟨rfl, rfl⟩
  refine wp_seq (wp_exponent_none ⟨fun he => (h _ he).2.2.1 rfl, fun he => (h _ he).2.2.2 rfl⟩) ?_
  rintro _ _ ⟨rfl, rfl⟩
  rw [wp_bind, wp_get]
  simp only [htext, hv, hmag]
  rw [if_neg (by omega), if_neg (by simp)]
  exact ⟨rfl, rfl⟩

/-- An unsigned number reads back. -/
theorem reads_number (dec : Decimal F) {n : Nat} (hlt : n < 2 ^ 64) : ∃ v, ∀ {p : Parser} {rest : Bytes} {k : Nat},
    0 < k → rounded nodeCost ≤ p.budget → Ends rest →
    wp (value dec k) (fun u q => u = .number ⟨true, false, some n, v⟩ ∧
      q = { p with rest, budget := p.budget - rounded nodeCost })
      (fun _ _ => False) { p with rest := numeral 10 n ++ rest } := by
  obtain ⟨v, hv⟩ := Option.isSome_iff_exists.mp (dec.reads (numeral 10 n) numeral_ne_nil
    (List.all_eq_true.mpr (isAsciiDigit_numeral n)))
  refine ⟨v, fun {p rest k} hk hbudget hends => ?_⟩
  obtain ⟨k, rfl⟩ := Nat.exists_eq_succ_of_ne_zero (Nat.pos_iff_ne_zero.mp hk)
  obtain ⟨c, cs, hnum⟩ := List.exists_cons_of_ne_nil (@numeral_ne_nil 10 n)
  have hdigit : isDigit c = true := isAsciiDigit_numeral n c (hnum ▸ List.mem_cons_self)
  have hne {b : Byte} (hb : isDigit b = false) : c ≠ b := by
    rintro rfl
    exact nomatch hdigit.symm.trans hb
  have hws : isWs c = false := by
    simp only [isWs, Bool.or_eq_false_iff, beq_eq_false_iff_ne]
    exact ⟨⟨⟨hne rfl, hne rfl⟩, hne rfl⟩, hne rfl⟩
  have hhead : (numeral 10 n ++ rest).head? = some c := by rw [hnum]; rfl
  rw [value, wp_bind]
  refine wp_skipWs (cs ++ rest) (by rw [hnum]; rfl) hws ?_
  rw [wp_bind, wp_peek]
  rw [hhead]
  rw [wp_bind]
  refine wp_charge hbudget ?_
  rw [if_neg (hne rfl), if_neg (hne rfl), if_neg (hne rfl), if_neg (hne rfl), if_neg (hne rfl),
    if_neg (hne rfl), if_pos (.inr hdigit)]
  refine wp_seq (wp_number (p := { p with budget := p.budget - rounded nodeCost }) hlt hends hv) ?_
  rintro _ _ ⟨rfl, rfl⟩
  exact ⟨rfl, rfl⟩

/-- The number 1, as the records write their schema. -/
theorem reads_one (dec : Decimal F) : ∃ v, Reads dec [49] (.number ⟨true, false, some 1, v⟩) (rounded nodeCost) := by
  obtain ⟨v, hv⟩ := reads_number dec (show 1 < 2 ^ 64 by decide)
  exact ⟨v, fun hn hbudget hfollows => hv hn hbudget (ends_of_follows hfollows)⟩

theorem wp_memberKey {done : List (String × Value F)} (key : String) (hbudget : stringCost key ≤ p.budget)
    (hnew : key ∉ done.map Prod.fst) :
    wp (memberKey done) (fun k q => k = key ∧ q = { p with rest, budget := p.budget - stringCost key })
      (fun _ _ => False) { p with rest := writeString key ++ 58 :: rest } := by
  rw [memberKey, wp_bind]
  refine wp_skipWs ((utf8 key).flatMap escapeByte ++ [34] ++ 58 :: rest) rfl rfl ?_
  rw [wp_bind, wp_peek]
  simp only [writeString, List.cons_append, List.append_assoc, List.nil_append, List.head?_cons]
  rw [if_neg (by simp), wp_bind, wp_advance]
  refine wp_seq (wp_string key hbudget) ?_
  rintro k q ⟨rfl, rfl⟩
  have hno : ¬ (done.any fun m => m.1 == k) = true := by
    rw [List.any_eq_true]
    rintro ⟨m, hm, hk⟩
    exact hnew (List.mem_map.mpr ⟨m, hm, eq_of_beq hk⟩)
  rw [if_neg hno, wp_bind]
  refine wp_skipWs rest rfl rfl ?_
  rw [wp_bind, wp_peek, wp_ite]
  exact ⟨fun hno => absurd rfl hno, fun _ => ⟨rfl, rfl⟩⟩

theorem recordText_head {ms : List (Item F)} (h : ms ≠ []) : ∃ tl, recordText ms = 34 :: tl := by
  cases ms with
  | nil => exact absurd rfl h
  | cons m ms =>
    cases ms with
    | nil => exact ⟨_, rfl⟩
    | cons m' ms => exact ⟨_, rfl⟩

theorem length_recordText (ms : List (Item F)) : ms.length ≤ (recordText ms).length := by
  induction ms with
  | nil => exact Nat.zero_le _
  | cons m ms ih =>
    cases ms with
    | nil => simp [recordText]
    | cons m' ms =>
      have htail : (recordText (m :: m' :: ms)).length =
          m.text.length + ((recordText (m' :: ms)).length + 1) := List.length_append
      rw [htail, List.length_cons]
      exact Nat.le_trans (Nat.succ_le_succ ih) (Nat.le_add_left _ _)

theorem valid_recordText {ms : List (Item F)} (h : ∀ m ∈ ms, Valid m.bytes) :
    Valid (recordText ms) := by
  have htext {m : Item F} (hm : Valid m.bytes) : Valid m.text :=
    valid_append (valid_writeString _) (valid_append (a := [58]) (valid_plain (by decide)) hm)
  induction ms with
  | nil => exact (valid_plain (by decide) : Valid [125])
  | cons m ms ih =>
    have hm := htext (h m List.mem_cons_self)
    cases ms with
    | nil => exact valid_append hm (valid_plain (by decide))
    | cons m' ms =>
      exact valid_append hm (valid_append (a := [44]) (valid_plain (by decide))
        (ih fun x hx => h x (List.mem_cons_of_mem _ hx)))

theorem recordText_cons (m : Item F) (ms : List (Item F)) :
    m.text.length + (recordText ms).length ≤ (recordText (m :: ms)).length := by
  cases ms with
  | nil => exact Nat.le_of_eq List.length_append.symm
  | cons m' ms =>
    have htail : (recordText (m :: m' :: ms)).length =
        m.text.length + ((recordText (m' :: ms)).length + 1) := List.length_append
    rw [htail]
    omega

theorem length_text (m : Item F) :
    m.text.length = ((utf8 m.key).flatMap escapeByte).length + 2 + (m.bytes.length + 1) := by
  simp only [Item.text, writeString, List.length_append, List.length_cons, List.length_nil]

/-- A member costs little more than its text is long. -/
theorem total_le (m : Item F) : m.total + m.bytes.length ≤ m.cost + m.text.length + 50 := by
  have hkey := length_le_flatMap (utf8 m.key)
  have hslots : rounded (slotCost * 3) = 32 := rfl
  rw [Item.total, hslots, stringCost, rounded, length_text m]
  omega

theorem sum_total_le {a c : Nat} (ms : List (Item F)) (hcost : ∀ m ∈ ms, m.total ≤ a * m.text.length + c) :
    (ms.map Item.total).sum + a ≤ a * (recordText ms).length + c * ms.length := by
  induction ms with
  | nil =>
    show 0 + a ≤ a * 1 + c * 0
    omega
  | cons m ms ih =>
    have hm := hcost m List.mem_cons_self
    have hms := ih fun x hx => hcost x (List.mem_cons_of_mem _ hx)
    have hcons := Nat.mul_le_mul_left a (recordText_cons m ms)
    rw [Nat.mul_add] at hcons
    rw [List.map_cons, List.sum_cons, List.length_cons, Nat.mul_add]
    omega

/-- A record with members is entered past its brace. -/
theorem wp_enter {depth budget : Nat} (hdepth : depth < maxDepth) {ms : List (Item F)} (hms : ms ≠ []) :
    wp (enter 125) (fun empty q => empty = false ∧
      q = { rest := recordText ms ++ [], depth := depth + 1, budget }) (fun _ _ => False)
      { rest := 123 :: recordText ms, depth, budget } := by
  obtain ⟨tl, htl⟩ := recordText_head hms
  rw [enter, wp_bind, wp_modify, wp_bind, wp_get, if_neg (Nat.not_lt.mpr hdepth), wp_bind, wp_advance,
    wp_bind]
  refine wp_skipWs (b := 34) tl htl rfl ?_
  rw [wp_bind, wp_peek, List.drop_succ_cons, List.drop_zero, List.append_nil, htl]
  exact ⟨rfl, rfl⟩

theorem wp_separator (close : Byte) (more : Bool) (hclose : close ≠ 44 ∧ isWs close = false) :
    wp (separator close) (fun m q => m = more ∧ q = { p with rest }) (fun _ _ => False)
      { p with rest := (if more then 44 else close) :: rest } := by
  rw [separator, wp_bind]
  cases more with
  | true =>
    refine wp_skipWs rest rfl rfl ?_
    exact ⟨rfl, rfl⟩
  | false =>
    refine wp_skipWs rest rfl hclose.2 ?_
    rw [wp_bind, wp_peek]
    simp only [List.head?_cons, Bool.false_eq_true, if_false]
    rw [wp_bind, wp_advance, if_neg hclose.1, if_pos trivial]
    exact ⟨rfl, rfl⟩

end JsonLemmas

/-- The members of a written record read back in order, when each value does at this
depth with more than `turns` turns. -/
theorem wp_members (ms : List (Item F)) (hms : ms ≠ []) {depth turns : Nat}
    (hreads : ∀ m ∈ ms, ∀ {p : Parser} {rest : Bytes} {n : Nat}, p.depth = depth → turns < n →
      m.cost ≤ p.budget → Follows rest →
      wp (value dec n) (fun u q => u = m.value ∧ q = { p with rest, budget := p.budget - m.cost })
        (fun _ _ => False) { p with rest := m.bytes ++ rest })
    (done : List (String × Value F)) (hkeys : (done.map Prod.fst ++ ms.map Item.key).Nodup) {p : Parser}
    (hdepth : p.depth = depth) (rest : Bytes) {n : Nat} (hn : turns + ms.length < n)
    (hbudget : (ms.map Item.total).sum ≤ p.budget) :
    wp (objectMembers dec n done)
      (fun out q => out = done ++ ms.map (fun m => (m.key, m.value)) ∧
        q = { p with rest, budget := p.budget - (ms.map Item.total).sum })
      (fun _ _ => False) { p with rest := recordText ms ++ rest } := by
  induction ms generalizing done p n with
  | nil => exact absurd rfl hms
  | cons m ms ih =>
    obtain ⟨n, rfl⟩ := Nat.exists_eq_succ_of_ne_zero (Nat.ne_zero_of_lt hn)
    have hsum : m.total + (ms.map Item.total).sum ≤ p.budget := by
      rw [List.map_cons, List.sum_cons] at hbudget
      exact hbudget
    have htotal : m.total = rounded (slotCost * 3) + stringCost m.key + m.cost := rfl
    have hnew : m.key ∉ done.map Prod.fst := by
      rw [List.map_cons] at hkeys
      exact fun hmem => (List.nodup_append.mp hkeys).2.2 _ hmem _ List.mem_cons_self rfl
    -- the member, then the separator and what is left
    obtain ⟨more, tail, htext, hfollows, hmore⟩ : ∃ more tail,
        recordText (m :: ms) ++ rest = writeString m.key ++ 58 :: (m.bytes ++
          ((if more then 44 else 125) :: tail)) ∧ Follows ((if more then 44 else 125) :: tail) ∧
        (more = true → ms ≠ [] ∧ tail = recordText ms ++ rest) ∧ (more = false → ms = [] ∧ tail = rest) := by
      cases ms with
      | nil =>
        refine ⟨false, rest, ?_, .inr rfl, fun h => (nomatch h), fun _ => ⟨rfl, rfl⟩⟩
        simp [recordText, Item.text]
      | cons m' ms =>
        refine ⟨true, recordText (m' :: ms) ++ rest, ?_, .inl rfl, fun _ => ⟨nofun, rfl⟩,
          fun h => nomatch h⟩
        simp [recordText, Item.text]
    rw [htext, objectMembers, wp_bind]
    refine wp_charge (by show _ ≤ p.budget; omega) ?_
    refine wp_seq (wp_memberKey (p := { p with budget := p.budget - rounded (slotCost * 3) }) m.key
      (by show _ ≤ p.budget - _; omega) hnew) ?_
    rintro _ _ ⟨rfl, rfl⟩
    rw [List.length_cons] at hn
    refine wp_seq (hreads m List.mem_cons_self (p := { p with
      budget := p.budget - rounded (slotCost * 3) - stringCost m.key }) hdepth (by omega)
      (by show _ ≤ p.budget - _ - _; omega) hfollows) ?_
    rintro _ _ ⟨rfl, rfl⟩
    have hspent : p.budget - rounded (slotCost * 3) - stringCost m.key - m.cost = p.budget - m.total := by
      rw [htotal, Nat.sub_sub, Nat.sub_sub, Nat.add_assoc]
    show wp (separator 125 >>= _) _ _ { p with
      rest := (if more = true then 44 else 125) :: tail
      budget := p.budget - rounded (slotCost * 3) - stringCost m.key - m.cost }
    rw [hspent]
    refine wp_seq (wp_separator (p := { p with budget := p.budget - m.total }) 125 more
      ⟨by decide, rfl⟩) ?_
    rintro more _ ⟨rfl, rfl⟩
    rw [List.map_cons, List.map_cons, List.sum_cons, ← Nat.sub_sub]
    cases more with
    | true =>
      obtain ⟨hne, rfl⟩ := hmore.1 rfl
      have hkeys' : ((done ++ [(m.key, m.value)]).map Prod.fst ++ ms.map Item.key).Nodup := by
        rw [List.map_append, List.append_assoc]
        exact hkeys
      refine wp_mono (ih hne (fun m' hm' => hreads m' (List.mem_cons_of_mem _ hm')) _ hkeys'
        (p := { p with budget := p.budget - m.total }) hdepth (by omega)
        (Nat.le_sub_of_add_le (by rw [Nat.add_comm]; exact hsum))) ?_ (fun _ _ h => h)
      rintro out q ⟨rfl, rfl⟩
      exact ⟨List.append_assoc _ _ _, rfl⟩
    | false =>
      obtain ⟨rfl, rfl⟩ := hmore.2 rfl
      exact ⟨rfl, rfl⟩

/-- The members of a written record read back in order. -/
theorem wp_objectMembers (ms : List (Item F)) (hms : ms ≠ [])
    (hreads : ∀ m ∈ ms, Reads dec m.bytes m.value m.cost) (done : List (String × Value F))
    (hkeys : (done.map Prod.fst ++ ms.map Item.key).Nodup) {p : Parser} (rest : Bytes) {n : Nat}
    (hn : ms.length < n) (hbudget : (ms.map Item.total).sum ≤ p.budget) :
    wp (objectMembers dec n done)
      (fun out q => out = done ++ ms.map (fun m => (m.key, m.value)) ∧
        q = { p with rest, budget := p.budget - (ms.map Item.total).sum })
      (fun _ _ => False) { p with rest := recordText ms ++ rest } :=
  (@wp_members _ _ ms hms _ 0) (fun m hm _ _ _ _ hn hcost hfollows => hreads m hm hn hcost hfollows) done
    hkeys rfl rest (by omega) hbudget

/-- A whole record reads back as its members. -/
theorem parse_record (ms : List (Item F)) (hms : ms ≠ [])
    (hreads : ∀ m ∈ ms, Reads dec m.bytes m.value m.cost) (hkeys : (ms.map Item.key).Nodup)
    (hutf8 : ∀ m ∈ ms, Valid m.bytes) (hcost : ∀ m ∈ ms, m.cost ≤ 100 + m.bytes.length)
    (hfew : ms.length ≤ 400) :
    parse dec (123 :: recordText ms) = .ok (.object (ms.map fun m => (m.key, m.value))) := by
  have hbudget : rounded nodeCost + (ms.map Item.total).sum ≤
      (123 :: recordText ms).length * 64 + 65536 := by
    have hsum := @sum_total_le _ 1 150 ms fun m hm => by
      have htotal := total_le m
      have hbytes := hcost m hm
      omega
    have hnode : rounded nodeCost = 80 := rfl
    rw [List.length_cons]
    omega
  set text := 123 :: recordText ms with htext
  have hrun : wp (document dec (2 * text.length + 2))
      (fun v _ => v = .object (ms.map fun m => (m.key, m.value))) (fun _ _ => False)
      { rest := text, depth := 0, budget := text.length * 64 + 65536 } := by
    rw [document, wp_bind, value, wp_bind]
    refine wp_skipWs (recordText ms) rfl rfl ?_
    rw [wp_bind, wp_peek]
    simp only [htext, List.head?_cons]
    rw [wp_bind]
    refine wp_charge (Nat.le_trans (Nat.le_add_right _ _) hbudget) ?_
    rw [if_neg (by decide), if_neg (by decide), if_neg (by decide), if_neg (by decide),
      if_neg (by decide), if_pos trivial]
    refine wp_seq (wp_enter (show 0 < maxDepth by decide) hms) ?_
    rintro _ _ ⟨rfl, rfl⟩
    refine wp_seq (wp_objectMembers ms hms hreads [] hkeys [] (p := {
      rest := [], depth := 1, budget := text.length * 64 + 65536 - rounded nodeCost }) ?_ ?_) ?_
    · have hle := length_recordText ms
      rw [List.length_cons]
      omega
    · exact Nat.le_sub_of_add_le (by rw [Nat.add_comm]; exact hbudget)
    · rintro _ _ ⟨rfl, rfl⟩
      rw [wp_bind, leave, wp_modify, wp_pure, wp_bind, skipWs, wp_modify, wp_bind, wp_get]
      exact rfl
  obtain ⟨v, q, hv, rfl⟩ := run_of_wp hrun
  have hvalid : ¬ (ofUtf8 text).isNone = true := by
    rw [Option.isNone_iff_eq_none, ← ne_eq, Option.ne_none_iff_isSome]
    exact isSome_ofUtf8 (valid_append (a := [123]) (valid_plain (by decide)) (valid_recordText hutf8))
  rw [parse, parseWithBudget, if_neg hvalid, hv]

/-- A member with a text. -/
def textItem (key s : String) : Item F :=
  ⟨key, writeString s, .string s, rounded nodeCost + stringCost s⟩

theorem textItem_cost (key s : String) :
    (textItem key s : Item F).cost ≤ 100 + (textItem key s : Item F).bytes.length := by
  have hle := length_le_flatMap (utf8 s)
  have hnode : rounded nodeCost = 80 := rfl
  have hbytes : (writeString s).length = ((utf8 s).flatMap escapeByte).length + 2 := by
    simp only [writeString, List.length_append, List.length_cons, List.length_nil]
  show rounded nodeCost + stringCost s ≤ 100 + (writeString s).length
  rw [hnode, stringCost, rounded, hbytes]
  omega

end OmtClient.Common.Json
