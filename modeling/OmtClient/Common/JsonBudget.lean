import OmtClient.Common.JsonComplete

/-!
# The budget of a document

`parse` of `crates/omt-common/src/json.rs` charges every value, member and text against a budget
of 64 bytes for each byte of the document and 64 KiB more. What is charged is paid for by the
bytes that were consumed for it, but for the containers that are still open: at most 128, each of
them with its bracket, its slot and its first item ahead of the bytes.

1. `string_pays`: a text costs no more than the bytes between its quotes and 16 more.
2. `value_pays`: a value costs at most 64 for each of its bytes and 16 more, whether or not it is
   empty, and where it is refused it is refused for something else.
3. `budget_covers`: so the default budget never runs out.
-/

namespace OmtClient.Common.Json

open OmtClient.Lib Prog JsonLemmas SoundLemmas GrammarLemmas DocLemmas CompleteLemmas

/-! ## The budget as the code computes it -/

/-- `usize::MAX`. -/
def usizeMax : Nat := 2 ^ 64 - 1

/-- `text.len().saturating_mul(64).saturating_add(65536)`. -/
def defaultBudget (len : Nat) : Nat := min (min (len * 64) usizeMax + 65536) usizeMax

/-- Why a document is refused that does not fit its budget. -/
def tooLarge : ParseError := .refused "JSON document too large"

variable {F : Type}

/-- `parse`, on a budget that saturates. -/
def parseDefault (dec : Decimal F) (text : Bytes) : Except ParseError (Value F) :=
  parseWithBudget dec text (defaultBudget text.length)

namespace BudgetLemmas

/-- Refused, but not for its size, and not for want of turns. -/
def Other (e : ParseError) : Prop := e ≠ tooLarge ∧ e ≠ .stuck

instance (e : ParseError) : Decidable (Other e) := inferInstanceAs (Decidable (_ ∧ _))

/-- After `k` bytes or more from `p`, which cost nothing. -/
structure Past (p : Parser) (k : Nat) (q : Parser) : Prop where
  budget : q.budget = p.budget
  depth : q.depth = p.depth
  length : q.rest.length + k ≤ p.rest.length

/-- The program consumes `k` bytes or more, and costs nothing. -/
def Eats {α : Type} (k : Nat) (m : Parse α) : Prop :=
  ∀ p, wp m (fun _ q => Past p k q) (fun e _ => Other e) p

variable {α β : Type} {p q : Parser}

theorem past_refl (p : Parser) : Past p 0 p := ⟨rfl, rfl, Nat.le_refl _⟩

theorem Past.trans {j k : Nat} {r : Parser} (h : Past p j q) (h' : Past q k r) : Past p (j + k) r := by
  refine ⟨h'.budget.trans h.budget, h'.depth.trans h.depth, ?_⟩
  have hfirst := h.length
  have hsecond := h'.length
  omega

theorem Past.weaken {j k : Nat} (h : Past p k q) (hle : j ≤ k) : Past p j q :=
  ⟨h.budget, h.depth, Nat.le_trans (Nat.add_le_add_left hle _) h.length⟩

/-- What follows a program that has consumed bytes. -/
theorem wp_eats {k : Nat} {m : Parse α} {f : α → Parse β} {Q : β → Parser → Prop} (hm : Eats k m)
    (hf : ∀ a q, Past p k q → wp (f a) Q (fun e _ => Other e) q) : wp (m >>= f) Q (fun e _ => Other e) p :=
  wp_seq (hm p) hf

theorem eats_pure (a : α) : Eats 0 (pure a : Parse α) := past_refl

theorem eats_get : Eats 0 (Prog.get : Parse Parser) := past_refl

theorem eats_peek : Eats 0 peek := past_refl

theorem eats_refuse {k : Nat} {message : String} (h : Other (.refused message)) :
    Eats k (refuse message : Parse α) := fun _ => h

theorem eats_bind {j k : Nat} {m : Parse α} {f : α → Parse β} (hm : Eats j m) (hf : ∀ a, Eats k (f a)) :
    Eats (j + k) (m >>= f) := by
  intro p
  refine wp_eats hm fun a q hq => ?_
  exact wp_mono (hf a q) (fun _ _ hr => hq.trans hr) (fun _ _ he => he)

/-- A program that need not consume anything, then one that does. -/
theorem eats_then {k : Nat} {m : Parse α} {f : α → Parse β} (hm : Eats 0 m) (hf : ∀ a, Eats k (f a)) :
    Eats k (m >>= f) := by
  have hboth := eats_bind hm hf
  rw [Nat.zero_add] at hboth
  exact hboth

theorem eats_ite {k : Nat} {c : Prop} [Decidable c] {m m' : Parse α} (h : Eats k m) (h' : Eats k m') :
    Eats k (if c then m else m') := by
  split
  · exact h
  · exact h'

theorem past_advance (n : Nat) (h : n ≤ p.rest.length) : Past p n { p with rest := p.rest.drop n } := by
  refine ⟨rfl, rfl, ?_⟩
  rw [List.length_drop]
  omega

theorem eats_advance (n : Nat) : Eats 0 (advance n) := by
  intro p
  refine ⟨rfl, rfl, ?_⟩
  show (p.rest.drop n).length + 0 ≤ _
  rw [List.length_drop]
  omega

theorem eats_skipWs : Eats 0 skipWs := fun _ => ⟨rfl, rfl, (List.dropWhile_sublist isWs).length_le⟩

theorem eats_literal {c : Byte} {word : Bytes} : Eats 1 (literal (c :: word)) := by
  intro p
  unfold literal
  rw [wp_bind, wp_get]
  split
  · next hprefix =>
    have hle := (List.isPrefixOf_iff_prefix.mp hprefix).length_le
    exact (past_advance _ hle).weaken (Nat.succ_le_succ (Nat.zero_le _))
  · exact (by decide : Other (.refused "invalid JSON literal"))

/-! ## Numbers -/

theorem eats_digits : Eats 0 digits :=
  eats_then eats_get fun _ => eats_then (eats_advance _) fun _ => eats_pure _

/-- A byte that is there is consumed. -/
theorem past_byte {c : Byte} (h : p.rest.head? = some c) : Past p 1 { p with rest := p.rest.drop 1 } := by
  refine past_advance 1 ?_
  cases hrest : p.rest with
  | nil =>
    rw [hrest] at h
    cases h
  | cons c tl => exact Nat.succ_le_succ (Nat.zero_le _)

theorem eats_integerPart : Eats 1 integerPart := by
  intro p
  unfold integerPart
  rw [wp_bind, wp_peek]
  cases hhead : p.rest.head? with
  | none => exact (by decide : Other (.refused "invalid JSON number"))
  | some c =>
    dsimp only
    split
    · rw [wp_bind, wp_advance]
      have hrest : Eats 0 (peek >>= fun next =>
          if next.any isDigit then refuse "invalid JSON number" else pure ()) :=
        eats_then eats_peek fun _ => eats_ite (eats_refuse (by decide)) (eats_pure _)
      exact wp_mono (hrest _) (fun _ _ hq => (past_byte hhead).trans hq) (fun _ _ he => he)
    · split
      · next hzero hdigit =>
        -- the run of digits holds the first one
        unfold digits
        simp only [wp_bind, wp_get, wp_advance, wp_pure]
        obtain ⟨tl, htl⟩ : ∃ tl, p.rest = c :: tl := by
          cases hrest : p.rest with
          | nil =>
            rw [hrest] at hhead
            cases hhead
          | cons d tl =>
            rw [hrest] at hhead
            cases hhead
            exact ⟨tl, rfl⟩
        refine (past_advance _ (List.takeWhile_prefix isDigit).length_le).weaken ?_
        rw [htl, List.takeWhile_cons_of_pos hdigit, List.length_cons]
        omega
      · exact (by decide : Other (.refused "invalid JSON number"))

theorem eats_fraction : Eats 0 fraction :=
  eats_then eats_peek fun _ => eats_ite
    (eats_then (eats_advance 1) fun _ => eats_then eats_digits fun _ =>
      eats_ite (eats_refuse (by decide)) (eats_pure _))
    (eats_pure _)

theorem eats_exponent : Eats 0 exponent :=
  eats_then eats_peek fun _ => eats_ite
    (eats_then (eats_advance 1) fun _ => eats_then eats_peek fun _ => eats_then (eats_advance _) fun _ =>
      eats_then eats_digits fun _ => eats_ite (eats_refuse (by decide)) (eats_pure _))
    (eats_pure _)

theorem eats_number (dec : Decimal F) : Eats 1 (number dec) := by
  unfold number
  refine eats_then eats_get fun start => eats_then (eats_advance _) fun _ => eats_then eats_get fun first => ?_
  refine @eats_bind _ _ 1 0 _ _ eats_integerPart fun _ => eats_then eats_get fun whole => eats_then eats_fraction fun frac =>
    eats_then eats_exponent fun expo => eats_then eats_get fun last => ?_
  dsimp only
  split
  · exact eats_ite (eats_pure _) (eats_refuse (by decide))
  · split
    · exact eats_refuse (by decide)
    · exact eats_ite (eats_refuse (by decide)) (eats_pure _)

/-! ## Texts -/

theorem eats_hex4 : Eats 4 hex4 := by
  intro p
  unfold hex4
  rw [wp_bind, wp_get]
  dsimp only
  split
  · exact (by decide : Other (.refused "truncated JSON escape"))
  · next hfour =>
    rw [List.length_take] at hfour
    split
    · exact (by decide : Other (.refused "invalid JSON escape"))
    · exact past_advance 4 (by omega)

theorem eats_scalar (cp : Nat) : Eats 0 (scalar cp) := by
  intro p
  unfold scalar
  rw [wp_orRaise]
  exact ⟨fun _ _ => past_refl p, fun _ => by decide⟩

theorem eats_unicodeEscape : Eats 4 unicodeEscape := by
  unfold unicodeEscape
  refine @eats_bind _ _ 4 0 _ _ eats_hex4 fun cp => eats_ite (eats_refuse (by decide)) (eats_ite ?_ (eats_scalar cp))
  refine eats_then eats_get fun p => eats_ite (eats_then (eats_advance 2) fun _ => ?_) (eats_refuse (by decide))
  intro q
  refine wp_eats eats_hex4 fun low r hr => ?_
  have hlast : Eats 0 (if 0xDC00 ≤ low ∧ low ≤ 0xDFFF then scalar (0x10000 + (cp - 0xD800) * 1024 + (low - 0xDC00))
      else refuse "lone JSON surrogate") := eats_ite (eats_scalar _) (eats_refuse (by decide))
  exact wp_mono (hlast r) (fun _ _ hs => (hr.trans hs).weaken (Nat.zero_le _)) (fun _ _ he => he)

theorem length_shortEscape {e : Byte} {c : Char} (h : shortEscape e = some c) : (encode c).length = 1 := by
  unfold shortEscape at h
  repeat' split at h
  all_goals first | (cases h; rfl) | cases h

/-- An escape is written with more bytes than it stands for. -/
theorem wp_escaped_pays (p : Parser) :
    wp escaped (fun c q => Past p (encode c).length q) (fun e _ => Other e) p := by
  unfold escaped
  rw [wp_bind, wp_peek]
  cases hhead : p.rest.head? with
  | none => exact (by decide : Other (.refused "truncated JSON escape"))
  | some e =>
    dsimp only
    rw [wp_bind, wp_advance]
    have hpast := past_byte hhead
    split
    · next c hshort =>
      rw [wp_pure, length_shortEscape hshort]
      exact hpast
    · split
      · refine wp_mono (eats_unicodeEscape _) (fun c q hq => ?_) (fun _ _ he => he)
        have hfour := length_encode_le c
        exact (hpast.trans hq).weaken (by omega)
      · exact (by decide : Other (.refused "invalid JSON escape"))

/-- The text is no longer than what is consumed for it before the quote. -/
theorem wp_stringLoop_pays (n : Nat) (text : Bytes) (p : Parser) (hn : p.rest.length < n) :
    wp (stringLoop n text) (fun out q => q.budget = p.budget ∧ q.depth = p.depth ∧
      q.rest.length + (out.length + 1) ≤ p.rest.length + text.length) (fun e _ => Other e) p := by
  induction n generalizing text p with
  | zero => exact absurd hn (Nat.not_lt_zero _)
  | succ n ih =>
    unfold stringLoop
    rw [wp_bind, wp_peek]
    -- what a turn consumes pays for what it adds
    have hturn {k : Nat} {more : Bytes} {q : Parser} (hq : Past p k q) (hpos : 0 < k) (hk : more.length ≤ k) :
        wp (stringLoop n (text ++ more)) (fun out q => q.budget = p.budget ∧ q.depth = p.depth ∧
          q.rest.length + (out.length + 1) ≤ p.rest.length + text.length) (fun e _ => Other e) q := by
      have hlength := hq.length
      refine wp_mono (ih (text ++ more) q (by omega)) ?_ (fun _ _ he => he)
      rintro out r ⟨hbudget, hdepth, hout⟩
      rw [List.length_append] at hout
      exact ⟨hbudget.trans hq.budget, hdepth.trans hq.depth, by omega⟩
    cases hhead : p.rest.head? with
    | none => exact (by decide : Other (.refused "unterminated JSON string"))
    | some c =>
      have hpast := past_byte hhead
      dsimp only
      split
      · have hlength := hpast.length
        exact ⟨hpast.budget, hpast.depth, by dsimp only at hlength ⊢; omega⟩
      · split
        · exact (by decide : Other (.refused "control character in JSON string"))
        · split
          · rw [wp_bind, wp_advance]
            refine wp_seq (wp_escaped_pays _) fun ch q hq => ?_
            exact hturn (hpast.trans hq) (Nat.add_pos_left Nat.one_pos _) (Nat.le_add_left _ _)
          · next hquote hlow hslash =>
            rw [wp_bind, wp_get, wp_bind, wp_advance]
            refine hturn (past_advance _ (List.takeWhile_prefix isPlain).length_le) ?_ (Nat.le_refl _)
            -- the byte at the head is a plain one
            cases hrest : p.rest with
            | nil =>
              rw [hrest] at hhead
              cases hhead
            | cons d tl =>
              rw [hrest] at hhead
              cases hhead
              have hplain : isPlain c = true := by
                simp [isPlain, hquote, hslash, UInt8.not_lt.mp hlow]
              rw [List.takeWhile_cons_of_pos hplain, List.length_cons]
              exact Nat.succ_pos _

/-- A text costs no more than the bytes up to its closing quote and 16 more. -/
theorem string_pays (p : Parser) (h : p.rest.length + 16 ≤ p.budget) :
    wp string (fun _ q => q.depth = p.depth ∧ q.rest.length + 1 ≤ p.rest.length ∧
      p.budget + q.rest.length ≤ q.budget + p.rest.length + 15) (fun e _ => Other e) p := by
  unfold string
  rw [wp_bind, wp_get]
  refine wp_seq (wp_stringLoop_pays _ [] p (Nat.lt_succ_self _)) ?_
  rintro text q ⟨hbudget, hdepth, hlength⟩
  have hlen : q.rest.length + (text.length + 1) ≤ p.rest.length := hlength
  have hcost : rounded (text.length + 1) ≤ text.length + 16 := by
    unfold rounded
    omega
  rw [wp_bind]
  refine wp_charge (by omega) ?_
  rw [wp_orRaise]
  refine ⟨fun s _ => ⟨hdepth, ?_, ?_⟩, fun _ => by decide⟩
  · dsimp only
    omega
  · dsimp only
    omega

/-! ## Values -/

/-- Enough memory for what is left of a text at a depth, and `extra` more. -/
def Covers (extra : Nat) (p : Parser) : Prop := 64 * p.rest.length + 64 * (maxDepth - p.depth) + extra ≤ p.budget

theorem wp_slot (extra : Nat) {bytes cost : Nat} {f : Unit → Parse β} {Q : β → Parser → Prop} (hcost : rounded bytes = cost)
    (h : Covers (extra + cost) p)
    (hf : ∀ q, q.rest = p.rest → q.depth = p.depth → q.budget + cost = p.budget → Covers extra q →
      wp (f ()) Q (fun e _ => Other e) q) : wp (charge bytes >>= f) Q (fun e _ => Other e) p := by
  unfold Covers at h
  rw [wp_bind]
  refine wp_charge (by omega) (hf _ rfl rfl ?_ ?_)
  · dsimp only
    omega
  · unfold Covers
    dsimp only
    omega

theorem eats_separator (close : Byte) : Eats 1 (separator close) := by
  unfold separator
  refine eats_then eats_skipWs fun _ => ?_
  intro p
  rw [wp_bind, wp_peek]
  cases hhead : p.rest.head? with
  | none => exact (by decide : Other (.refused "unexpected end of JSON"))
  | some c =>
    dsimp only
    rw [wp_bind, wp_advance]
    split
    · exact past_byte hhead
    · split
      · exact past_byte hhead
      · exact (by decide : Other (.refused "expected ',' in JSON container"))

/-- A key with its quotes and its colon pays for itself. -/
theorem memberKey_pays (members : List (String × Value F)) (p : Parser) (h : p.rest.length + 16 ≤ p.budget) :
    wp (memberKey members) (fun _ q => q.depth = p.depth ∧ q.rest.length + 3 ≤ p.rest.length ∧
      p.budget + q.rest.length ≤ q.budget + p.rest.length + 13) (fun e _ => Other e) p := by
  unfold memberKey
  refine wp_eats eats_skipWs fun _ q hq => ?_
  rw [wp_bind, wp_peek]
  split
  · exact (by decide : Other (.refused "expected JSON object key"))
  · next hquote =>
    have hpast := hq.trans (past_byte (Classical.not_not.mp hquote))
    have hlength := hpast.length
    have hbudget := hpast.budget
    rw [wp_bind, wp_advance]
    dsimp only at hlength hbudget ⊢
    refine wp_seq (string_pays _ (by dsimp only; omega)) ?_
    rintro key r ⟨hdepth, hshorter, hcost⟩
    split
    · exact (by decide : Other (.refused "duplicate JSON key"))
    · refine wp_eats eats_skipWs fun _ s hs => ?_
      rw [wp_bind, wp_peek]
      split
      · exact (by decide : Other (.refused "expected ':' in JSON object"))
      · next hcolon =>
        have hend := hs.trans (past_byte (Classical.not_not.mp hcolon))
        have hendLength := hend.length
        have hendBudget := hend.budget
        rw [wp_bind, wp_advance, wp_pure]
        dsimp only at hshorter hcost hendLength hendBudget ⊢
        exact ⟨hend.depth.trans (hdepth.trans hpast.depth), by omega, by omega⟩

/-- What entering a container consumes: its bracket, and the other one if it is empty. -/
structure Entered (p : Parser) (empty : Bool) (q : Parser) : Prop where
  depth : q.depth = p.depth + 1
  allowed : p.depth + 1 ≤ maxDepth
  budget : q.budget = p.budget
  length : q.rest.length + 1 ≤ p.rest.length
  both : empty = true → q.rest.length + 2 ≤ p.rest.length

theorem wp_enter_pays {c close : Byte} (hhead : p.rest.head? = some c) :
    wp (enter close) (fun empty q => Entered p empty q) (fun e _ => Other e) p := by
  unfold enter
  rw [wp_bind, wp_modify, wp_bind, wp_get]
  dsimp only
  split
  · exact (by decide : Other (.refused "JSON nested too deeply"))
  · next hdepth =>
    have hallowed := Nat.not_lt.mp hdepth
    have hpast : Past { p with depth := p.depth + 1 } 1 { p with rest := p.rest.drop 1, depth := p.depth + 1 } :=
      ⟨rfl, rfl, (past_byte hhead).length⟩
    rw [wp_bind, wp_advance]
    refine wp_eats eats_skipWs fun _ q hq => ?_
    have hspaced := hpast.trans hq
    rw [wp_bind, wp_peek]
    split
    · next hclose =>
      have hboth := hspaced.trans (past_byte hclose)
      exact ⟨hboth.depth, hallowed, hboth.budget, hboth.weaken (Nat.le_succ 1) |>.length, fun _ => hboth.length⟩
    · exact ⟨hspaced.depth, hallowed, hspaced.budget, hspaced.length, by rintro ⟨⟩⟩

/-- What a value costs: at most 64 for each byte that it consumes, and 16 more. -/
def Paid (p q : Parser) : Prop :=
  q.depth = p.depth ∧ q.rest.length + 1 ≤ p.rest.length ∧
    p.budget + 64 * q.rest.length ≤ q.budget + 64 * p.rest.length + 16

/-- What the items of a container cost, with its bracket: less than 64 for each byte. -/
def ItemsPaid (p q : Parser) : Prop :=
  q.depth = p.depth ∧ q.rest.length + 1 ≤ p.rest.length ∧
    p.budget + 64 * q.rest.length + 32 ≤ q.budget + 64 * p.rest.length

/-- An item and its separator, from the slot on. -/
theorem ItemsPaid.of_item {cost : Nat} {r s : Parser} (hdepth : q.depth = p.depth) (hlength : q.rest.length ≤ p.rest.length)
    (hcost : p.budget + 64 * q.rest.length ≤ q.budget + 64 * p.rest.length + cost) (hsmall : cost ≤ 16)
    (hvalue : Paid q r) (hsep : Past r 1 s) : ItemsPaid p s := by
  obtain ⟨hvalueDepth, hvalueLength, hvalueCost⟩ := hvalue
  have hsepLength := hsep.length
  have hsepBudget := hsep.budget
  exact ⟨hsep.depth.trans (hvalueDepth.trans hdepth), by omega, by omega⟩

theorem ItemsPaid.trans {r : Parser} (h : ItemsPaid p q) (h' : ItemsPaid q r) : ItemsPaid p r := by
  obtain ⟨hdepth, hlength, hcost⟩ := h
  obtain ⟨hdepth', hlength', hcost'⟩ := h'
  exact ⟨hdepth'.trans hdepth, by omega, by omega⟩

/-- After an item there is as much memory for the next one. -/
theorem ItemsPaid.covers {extra : Nat} (h : ItemsPaid p q) (hp : Covers extra p) : Covers extra q := by
  obtain ⟨hdepth, hlength, hcost⟩ := h
  unfold Covers at *
  rw [hdepth]
  omega

/-- A container with its node. -/
theorem Paid.of_container {r s : Parser} {empty : Bool} (hnode : q.budget + 80 = p.budget) (hrest : q.rest.length ≤ p.rest.length)
    (hdepth : q.depth = p.depth) (henter : Entered q empty r)
    (hitems : empty = true ∧ s = r ∨ ItemsPaid r s) : Paid p { s with depth := s.depth - 1 } := by
  have hlength := henter.length
  have hbudget := henter.budget
  have hentered := henter.depth
  rcases hitems with ⟨hempty, rfl⟩ | ⟨hsame, hshorter, hcost⟩
  · have hboth := henter.both hempty
    refine ⟨?_, ?_, ?_⟩
    · dsimp only
      omega
    · dsimp only
      omega
    · dsimp only
      omega
  · refine ⟨?_, ?_, ?_⟩
    · dsimp only
      omega
    · dsimp only
      omega
    · dsimp only
      omega

/-- By the turns that are left: a value needs two for each byte that is left, and items one more. -/
theorem value_pays_n (dec : Decimal F) (n : Nat) :
    (∀ p, 2 * p.rest.length + 1 ≤ n → p.depth ≤ maxDepth → Covers 128 p →
      wp (value dec n) (fun _ q => Paid p q) (fun e _ => Other e) p) ∧
    (∀ items p, 2 * p.rest.length + 2 ≤ n → p.depth ≤ maxDepth → Covers 160 p →
      wp (arrayItems dec n items) (fun _ q => ItemsPaid p q) (fun e _ => Other e) p) ∧
    (∀ members p, 2 * p.rest.length + 2 ≤ n → p.depth ≤ maxDepth → Covers 160 p →
      wp (objectMembers dec n members) (fun _ q => ItemsPaid p q) (fun e _ => Other e) p) := by
  induction n with
  | zero =>
    refine ⟨?_, ?_, ?_⟩
    · intro p hn
      omega
    · intro items p hn
      omega
    · intro members p hn
      omega
  | succ n ih =>
    obtain ⟨hvalue, harray, hobject⟩ := ih
    refine ⟨?_, ?_, ?_⟩
    · intro p hn hdepth hcovers
      rw [value]
      refine wp_eats eats_skipWs fun _ q hq => ?_
      have hlength := hq.length
      have hbudget := hq.budget
      have hcovered : Covers (48 + 80) q := by
        unfold Covers at *
        rw [hq.depth]
        omega
      rw [wp_bind, wp_peek]
      cases hhead : q.rest.head? with
      | none => exact (by decide : Other (.refused "unexpected end of JSON"))
      | some c =>
        refine wp_slot 48 (by decide : rounded nodeCost = 80) hcovered fun r hrest hsame hcost henough => ?_
        rw [← hrest] at hhead
        have hdeep : r.depth = p.depth := hsame.trans hq.depth
        rw [← hrest] at hlength
        -- whatever consumes a byte and costs nothing more pays for the node
        have hone {s : Parser} (hs : Past r 1 s) : Paid p s := by
          have hsLength := hs.length
          have hsBudget := hs.budget
          exact ⟨hs.depth.trans hdeep, by omega, by omega⟩
        have hword {d : Byte} {word : Bytes} (v : Value F) :
            wp (literal (d :: word) >>= fun _ => pure v) (fun _ s => Paid p s) (fun e _ => Other e) r :=
          wp_eats eats_literal fun _ s hs => hone hs
        have hitems {s : Parser} {empty : Bool} (hs : Entered r empty s) :
            2 * s.rest.length + 2 ≤ n ∧ s.depth ≤ maxDepth ∧ Covers 160 s := by
          have hsLength := hs.length
          have hsBudget := hs.budget
          have hallowed := hs.allowed
          unfold Covers at henough ⊢
          rw [hs.depth]
          exact ⟨by omega, hallowed, by omega⟩
        have hnode : r.budget + 80 = p.budget := by omega
        split
        · exact hword _
        split
        · exact hword _
        split
        · exact hword _
        split
        · have hquote := past_byte hhead
          have hquoteLength := hquote.length
          have hquoteBudget := hquote.budget
          rw [wp_bind, wp_advance]
          refine wp_seq (string_pays _ ?_) ?_
          · unfold Covers at henough
            dsimp only at *
            omega
          · rintro text s ⟨hsDepth, hsLength, hsCost⟩
            dsimp only at *
            exact ⟨hsDepth.trans hdeep, by omega, by omega⟩
        split
        · refine wp_seq (wp_enter_pays hhead) fun empty s hs => ?_
          obtain ⟨hturns, hallowed, hmemory⟩ := hitems hs
          split
          · next hempty => exact Paid.of_container hnode (by omega) hdeep hs (.inl ⟨hempty, rfl⟩)
          · refine wp_seq (harray [] s hturns hallowed hmemory) fun out u hu => ?_
            exact Paid.of_container hnode (by omega) hdeep hs (.inr hu)
        split
        · refine wp_seq (wp_enter_pays hhead) fun empty s hs => ?_
          obtain ⟨hturns, hallowed, hmemory⟩ := hitems hs
          split
          · next hempty => exact Paid.of_container hnode (by omega) hdeep hs (.inl ⟨hempty, rfl⟩)
          · refine wp_seq (hobject [] s hturns hallowed hmemory) fun out u hu => ?_
            exact Paid.of_container hnode (by omega) hdeep hs (.inr hu)
        split
        · exact wp_eats (eats_number dec) fun _ s hs => hone hs
        · exact (by decide : Other (.refused "unexpected JSON character"))
    · intro items p hn hdepth hcovers
      rw [arrayItems]
      refine wp_slot 144 (by decide : rounded slotCost = 16) hcovers fun q hrest hsame hcost henough => ?_
      have hcovered : Covers 128 q := by
        unfold Covers at *
        omega
      refine wp_seq (hvalue q (by rw [hrest]; omega) (by omega) hcovered) fun item r hr => ?_
      refine wp_eats (eats_separator 93) fun more s hs => ?_
      have hpaid : ItemsPaid p s :=
        ItemsPaid.of_item hsame (le_of_eq (by rw [hrest])) (by rw [hrest]; omega) (Nat.le_refl 16) hr hs
      split
      · have hshorter := hpaid.2.1
        refine wp_mono (harray _ s (by omega) (by rw [hpaid.1]; exact hdepth) (hpaid.covers hcovers)) ?_ (fun _ _ he => he)
        exact fun _ u hu => hpaid.trans hu
      · exact hpaid
    · intro members p hn hdepth hcovers
      rw [objectMembers]
      have hmemory : Covers (128 + 32) p := hcovers
      refine wp_slot 128 (by decide : rounded (slotCost * 3) = 32) hmemory fun q hrest hsame hcost henough => ?_
      refine wp_seq (memberKey_pays members q ?_) ?_
      · unfold Covers at henough
        omega
      · rintro key r ⟨hrDepth, hrLength, hrCost⟩
        rw [hrest] at hrLength hrCost
        -- quotes and colon pay for the slot and for what the key is rounded up by
        have hcovered : Covers 128 r := by
          unfold Covers at *
          rw [hrDepth, hsame]
          omega
        refine wp_seq (hvalue r (by omega) (by omega) hcovered) fun item s hs => ?_
        refine wp_eats (eats_separator 125) fun more u hu => ?_
        have hpaid : ItemsPaid p u :=
          ItemsPaid.of_item (hrDepth.trans hsame) (by omega) (by omega) (Nat.zero_le 16) hs hu
        split
        · have hshorter := hpaid.2.1
          refine wp_mono (hobject _ u (by omega) (by rw [hpaid.1]; exact hdepth) (hpaid.covers hcovers)) ?_
            (fun _ _ he => he)
          exact fun _ w hw => hpaid.trans hw
        · exact hpaid

end BudgetLemmas

open BudgetLemmas

/-- Every value pays for itself, or is refused for something else than its size. -/
theorem value_pays (dec : Decimal F) {p : Parser} {n : Nat} (hturns : 2 * p.rest.length + 1 ≤ n)
    (hdepth : p.depth ≤ maxDepth) (hcovers : Covers 128 p) :
    wp (value dec n) (fun _ q => Paid p q) (fun e _ => Other e) p :=
  (value_pays_n dec n).1 p hturns hdepth hcovers

namespace BudgetLemmas

theorem covers_start (text : Bytes) {budget : Nat} (h : 64 * text.length + 8320 ≤ budget) :
    Covers 128 { rest := text, depth := 0, budget } := by
  have hopen : 64 * (maxDepth - 0) + 128 = 8320 := rfl
  unfold Covers
  dsimp only
  rw [Nat.add_assoc, hopen]
  exact h

theorem document_pays (dec : Decimal F) (p : Parser) (hdepth : p.depth = 0) (hcovers : Covers 128 p) :
    wp (document dec (2 * p.rest.length + 2)) (fun _ _ => True) (fun e _ => Other e) p := by
  unfold document
  refine wp_seq (value_pays dec (Nat.le_succ _) (by rw [hdepth]; exact Nat.zero_le _) hcovers) fun root q _ => ?_
  refine wp_eats eats_skipWs fun _ r _ => ?_
  rw [wp_bind, wp_get]
  split
  · exact (by decide : Other (.refused "trailing characters after JSON"))
  · trivial

theorem parseWithBudget_other (dec : Decimal F) (text : Bytes) {budget : Nat} (h : 64 * text.length + 8320 ≤ budget)
    {e : ParseError} (hfails : parseWithBudget dec text budget = .error e) : Other e := by
  unfold parseWithBudget at hfails
  split at hfails
  · cases hfails
    decide
  · have hdoc := document_pays dec { rest := text, depth := 0, budget } rfl (covers_start text h)
    unfold wp at hdoc
    split at hdoc
    · next hrun =>
      rw [hrun] at hfails
      cases hfails
    · next hrun =>
      rw [hrun] at hfails
      cases hfails
      exact hdoc

theorem defaultBudget_eq {len : Nat} (h : len < 2 ^ 57) : defaultBudget len = len * 64 + 65536 := by
  unfold defaultBudget usizeMax
  omega

end BudgetLemmas

/-- On no byte string that a budget can be computed for is the budget what refuses it, and every
document of the grammar is read. -/
theorem budget_covers (dec : Decimal F) (text : Bytes) (h : text.length < 2 ^ 57) :
    parseDefault dec text ≠ .error tooLarge ∧
    ∀ v, DocumentDenotes dec text v → parseDefault dec text = .ok v := by
  have hparse : parseDefault dec text = parse dec text := by
    unfold parseDefault parse
    rw [defaultBudget_eq h]
  rw [hparse]
  refine ⟨fun hlarge => ?_, fun v hv => parse_of_denotes hv⟩
  have hother := parseWithBudget_other dec text (by omega) hlarge
  exact hother.1 rfl

/-- A member for every five bytes, and an array in an array. -/
theorem budget_covers_nested : parseDefault literalDecimal.toDecimal (utf8 "[[1],[\x7b\"\":1\x7d]]") ≠ .error tooLarge :=
  (budget_covers literalDecimal.toDecimal (utf8 "[[1],[\x7b\"\":1\x7d]]") (by decide)).1

end OmtClient.Common.Json
