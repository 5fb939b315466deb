import OmtClient.Common.JsonRead

/-!
# Documents

The documents that this project writes are texts, unsigned numbers and records of
these, one inside another. `Written` says that bytes read as a value wherever a value
may stand; it is closed under records, and a written document with its newline parses.

1. `written_text`, `written_number`, `written_record`: how written bytes are made.
2. `parse_written`: a written document reads back as its value.
-/

namespace OmtClient.Common.Json

open OmtClient.Lib Prog JsonLemmas

variable {F : Type}

/-- A member of a record: its key, its bytes and the value they read as. -/
structure Field (F : Type) where
  key : String
  bytes : Bytes
  value : Value F

/-- A record as the writers of this project lay it out. -/
def recordBytes (fields : List (String × Bytes)) : Bytes :=
  123 :: [44].intercalate (fields.map fun f => writeString f.1 ++ 58 :: f.2) ++ [125]

/-- Bytes that read as `v` wherever a value may stand, with at most `height` containers
inside one another. -/
structure Written (dec : Decimal F) (height : Nat) (bytes : Bytes) (v : Value F) : Prop where
  valid : Valid bytes
  reads : ∃ cost, cost ≤ 64 * bytes.length + 16 ∧ ∀ {p : Parser} {rest : Bytes} {n : Nat},
    bytes.length < n → p.depth + height ≤ maxDepth → cost ≤ p.budget → Ends rest →
    wp (value dec n) (fun u q => u = v ∧ q = { p with rest, budget := p.budget - cost })
      (fun _ _ => False) { p with rest := bytes ++ rest }

variable {dec : Decimal F}

theorem Written.mono {height height' : Nat} {bytes : Bytes} {v : Value F} (h : Written dec height bytes v)
    (hle : height ≤ height') : Written dec height' bytes v := by
  obtain ⟨hvalid, cost, hcost, hreads⟩ := h
  exact ⟨hvalid, cost, hcost, fun hn hdepth => hreads hn (by omega)⟩

theorem written_text (s : String) : Written dec 0 (writeString s) (.string s) where
  valid := valid_writeString s
  reads := by
    refine ⟨_, ?_, fun hn _ hbudget _ => wp_text s (Nat.lt_of_le_of_lt (Nat.zero_le _) hn) hbudget⟩
    have hle := length_le_flatMap (utf8 s)
    have hnode : rounded nodeCost = 80 := rfl
    have hbytes : (writeString s).length = ((utf8 s).flatMap escapeByte).length + 2 := by
      simp only [writeString, List.length_append, List.length_cons, List.length_nil]
    rw [hnode, stringCost, rounded, hbytes]
    omega

/-- An unsigned number of 64 bits, with the float that goes with it. -/
theorem written_number (dec : Decimal F) {n : Nat} (hn : n < 2 ^ 64) :
    ∃ v, Written dec 0 (numeral 10 n) (.number ⟨true, false, some n, v⟩) := by
  obtain ⟨v, hv⟩ := reads_number dec hn
  refine ⟨v, ?_, rounded nodeCost, ?_, fun hk _ hbudget hends => hv (Nat.lt_of_le_of_lt (Nat.zero_le _) hk)
    hbudget hends⟩
  · refine valid_ascii fun b hb => ?_
    have hdigit := isAsciiDigit_numeral n b hb
    simp only [isAsciiDigit, Bool.and_eq_true, decide_eq_true_eq, UInt8.le_iff_toNat_le] at hdigit
    exact Nat.lt_of_le_of_lt hdigit.2 (by decide)
  · have hnode : rounded nodeCost = 80 := rfl
    have hpos := List.length_pos_of_ne_nil (@numeral_ne_nil 10 n)
    omega

/-! ## Records -/

namespace DocLemmas

/-- The fields of a record with what each of them costs. -/
theorem items_of_fields {height : Nat} (fields : List (Field F))
    (h : ∀ f ∈ fields, Written dec height f.bytes f.value) :
    ∃ ms : List (Item F), ms.map (fun m => (⟨m.key, m.bytes, m.value⟩ : Field F)) = fields ∧
      ∀ m ∈ ms, Valid m.bytes ∧ m.cost ≤ 64 * m.bytes.length + 16 ∧
        ∀ {p : Parser} {rest : Bytes} {n : Nat}, m.bytes.length < n → p.depth + height ≤ maxDepth →
          m.cost ≤ p.budget → Ends rest →
          wp (value dec n) (fun u q => u = m.value ∧ q = { p with rest, budget := p.budget - m.cost })
            (fun _ _ => False) { p with rest := m.bytes ++ rest } := by
  induction fields with
  | nil => exact ⟨[], rfl, fun _ hm => nomatch hm⟩
  | cons f fields ih =>
    obtain ⟨ms, hmap, hms⟩ := ih fun g hg => h g (List.mem_cons_of_mem _ hg)
    obtain ⟨hvalid, cost, hcost, hreads⟩ := h f List.mem_cons_self
    refine ⟨⟨f.key, f.bytes, f.value, cost⟩ :: ms, by rw [List.map_cons, hmap], ?_⟩
    intro m hm
    rcases List.mem_cons.mp hm with rfl | hm
    · exact ⟨hvalid, hcost, hreads⟩
    · exact hms m hm

theorem recordText_eq (ms : List (Item F)) :
    123 :: recordText ms = recordBytes (ms.map fun m => (m.key, m.bytes)) := by
  rw [recordBytes, List.cons_append]
  congr 1
  induction ms with
  | nil => rfl
  | cons m ms ih =>
    cases ms with
    | nil =>
      rw [List.map_cons, List.map_cons, List.map_nil, List.map_nil, List.intercalate_singleton]
      rfl
    | cons m' ms =>
      rw [List.map_cons, List.map_cons, List.map_cons, List.map_cons, List.intercalate_cons_cons]
      rw [List.map_cons, List.map_cons] at ih
      rw [recordText, ih]
      simp only [List.append_assoc, List.cons_append, List.nil_append, Item.text]
      intro h
      cases h

/-- A member's bytes and the number of members, against the text. -/
theorem turns_le (ms : List (Item F)) : ∀ m ∈ ms, m.bytes.length + ms.length ≤ (recordText ms).length := by
  induction ms with
  | nil => exact fun _ hm => by cases hm
  | cons m ms ih =>
    intro x hx
    have hlen := length_recordText ms
    have hcons := recordText_cons m ms
    have htext := length_text m
    rw [List.length_cons]
    rcases List.mem_cons.mp hx with rfl | hx
    · omega
    · have hrest := ih x hx
      omega

end DocLemmas

open DocLemmas

/-- A record of written values is written, one container deeper. -/
theorem written_record {height : Nat} (fields : List (Field F))
    (h : ∀ f ∈ fields, Written dec height f.bytes f.value) (hkeys : (fields.map Field.key).Nodup) :
    Written dec (height + 1) (recordBytes (fields.map fun f => (f.key, f.bytes)))
      (.object (fields.map fun f => (f.key, f.value))) := by
  obtain ⟨ms, rfl, hms⟩ := items_of_fields fields h
  simp only [List.map_map, Function.comp_def] at hkeys ⊢
  rw [← recordText_eq ms]
  have hsum := @sum_total_le _ 64 0 ms fun m hm => by
    have htotal := total_le m
    have htext := length_text m
    have hcost := (hms m hm).2.1
    omega
  refine ⟨valid_append (a := [123]) (valid_plain (by decide)) (valid_recordText fun m hm => (hms m hm).1),
    rounded nodeCost + (ms.map Item.total).sum, ?_, ?_⟩
  · have hnode : rounded nodeCost = 80 := rfl
    rw [List.length_cons]
    omega
  intro p rest n hn hdepth hbudget _
  obtain ⟨n, rfl⟩ := Nat.exists_eq_succ_of_ne_zero (Nat.ne_zero_of_lt hn)
  rw [List.length_cons] at hn
  rw [value, wp_bind]
  refine wp_skipWs (recordText ms ++ rest) rfl rfl ?_
  rw [wp_bind, wp_peek]
  simp only [List.cons_append, List.head?_cons]
  rw [wp_bind]
  refine wp_charge (Nat.le_trans (Nat.le_add_right _ _) hbudget) ?_
  rw [if_neg (by decide), if_neg (by decide), if_neg (by decide), if_neg (by decide),
    if_neg (by decide), if_pos trivial, wp_bind, enter, wp_bind, wp_modify, wp_bind, wp_get,
    if_neg (by show ¬ maxDepth < p.depth + 1; omega), wp_bind, wp_advance, wp_bind]
  rw [← Nat.sub_sub]
  cases ms with
  | nil =>
    refine wp_skipWs (b := 125) rest rfl rfl ?_
    exact ⟨rfl, rfl⟩
  | cons m ms =>
    obtain ⟨tl, htl⟩ := (@recordText_head _ (m :: ms)) (by rintro ⟨⟩)
    refine wp_skipWs (b := 34) (tl ++ rest) (by show recordText (m :: ms) ++ rest = _; rw [htl]; rfl) rfl ?_
    rw [wp_bind, wp_peek]
    dsimp only
    rw [List.drop_succ_cons, List.drop_zero, htl]
    show wp (if some (34 : Byte) = some 125 then _ else _) _ _ _
    rw [if_neg (by decide), ← htl, wp_pure]
    -- the members have enough turns, one container deeper
    refine wp_seq ((@wp_members _ _ (m :: ms) (by rintro ⟨⟩) (p.depth + 1) ((recordText (m :: ms)).length - (m :: ms).length) (fun x hx q rest' k hq hk hcost hfollows => ?_) [] hkeys { rest := [], depth := p.depth + 1, budget := p.budget - rounded nodeCost }) rfl rest ?_ ?_) ?_
    · have hx' := hms x hx
      have hturns := turns_le (m :: ms) x hx
      exact hx'.2.2 (by omega) (by omega) hcost (ends_of_follows hfollows)
    · have := length_recordText (m :: ms)
      omega
    · exact Nat.le_sub_of_add_le (by rw [Nat.add_comm]; exact hbudget)
    · rintro _ _ ⟨rfl, rfl⟩
      exact ⟨rfl, rfl⟩

namespace DocLemmas

theorem ends_ws {ws : Bytes} (h : ws.all isWs = true) : Ends ws := by
  intro c hc
  have hws := List.all_eq_true.mp h c (List.mem_of_mem_head? hc)
  simp only [isWs, Bool.or_eq_true, beq_iff_eq] at hws
  rcases hws with ((rfl | rfl) | rfl) | rfl <;> decide

end DocLemmas

/-- A written document reads as its value, with white space around it. -/
theorem parse_spaced {height : Nat} {before body after : Bytes} {v : Value F} (h : Written dec height body v)
    (hheight : height ≤ maxDepth) (hbefore : before.all isWs = true) (hafter : after.all isWs = true) :
    parse dec (before ++ body ++ after) = .ok v := by
  obtain ⟨hvalid, cost, hcost, hreads⟩ := h
  have hlen : (before ++ body ++ after).length = before.length + body.length + after.length := by
    rw [List.length_append, List.length_append]
  have hrun {n budget : Nat} (hn : body.length < n) (hbudget : cost ≤ budget) :
      wp (document dec n) (fun u _ => u = v) (fun _ _ => False) ⟨before ++ (body ++ after), 0, budget⟩ := by
    obtain ⟨n, rfl⟩ := Nat.exists_eq_succ_of_ne_zero (Nat.ne_zero_of_lt hn)
    have hvalue := hreads (p := ⟨[], 0, budget⟩) hn (Nat.le_trans (Nat.le_of_eq (Nat.zero_add _)) hheight) hbudget
      (ends_ws hafter)
    rw [document]
    refine wp_seq (Q := fun u q => u = v ∧ q = ⟨after, 0, budget - cost⟩) ?_ ?_
    · rw [value] at hvalue ⊢
      exact (wp_skip_space (p := ⟨[], 0, budget⟩) hbefore).mpr hvalue
    · rintro _ _ ⟨rfl, rfl⟩
      have hdone : after.dropWhile isWs = [] := by
        have hdrop := dropWhile_ws (x := []) hafter
        rwa [List.append_nil] at hdrop
      rw [wp_bind, skipWs, wp_modify, wp_bind, wp_get]
      dsimp only
      rw [hdone]
      exact rfl
  obtain ⟨u, q, hu, rfl⟩ := run_of_wp (@hrun (2 * (before ++ body ++ after).length + 2)
    ((before ++ body ++ after).length * 64 + 65536) (by omega) (by omega))
  have htext : ¬ (ofUtf8 (before ++ body ++ after)).isNone = true := by
    rw [Option.isNone_iff_eq_none, ← ne_eq, Option.ne_none_iff_isSome]
    exact isSome_ofUtf8 (valid_append (valid_append (valid_ascii (isWs_ascii hbefore)) hvalid)
      (valid_ascii (isWs_ascii hafter)))
  rw [← List.append_assoc] at hu
  rw [parse, parseWithBudget, if_neg htext, hu]

/-- A written document with its newline reads back as its value. -/
theorem parse_written {height : Nat} {bytes : Bytes} {v : Value F} (h : Written dec height bytes v)
    (hheight : height ≤ maxDepth) : parse dec (bytes ++ [10]) = .ok v :=
  (@parse_spaced _ _ _ [] _ [10]) h hheight rfl rfl

end OmtClient.Common.Json
