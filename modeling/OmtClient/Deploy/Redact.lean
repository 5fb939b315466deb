import Mathlib.Data.List.Infix
import OmtClient.Deploy.Ops

/-!
# Redaction

`redact` of `crates/omt-deploy/src/ops.rs` replaces one secret after the other, each in the text that
the last one left. The characters are followed from the message to the output, and what is replaced
is told from the occurrences in the message alone.

1. `redactCells_eq`: the output is the message with some occurrences replaced, chosen by `taken`.
2. `redact_agrees`: when every secret is removed, and when two messages become the same.
3. `secret_leaks`: a secret that begins like a longer one.
-/

namespace OmtClient.Deploy.Redact

/-! ## Characters and where they come from -/

/-- A character and its position in the message; those of a marker have none. -/
structure Cell where
  char : Char
  origin : Option Nat
  deriving DecidableEq

def marker : List Cell := "[redacted]".toList.map (⟨·, none⟩)

/-- The message, from a position on. -/
def tagged : Nat → List Char → List Cell
  | _, [] => []
  | i, c :: cs => ⟨c, some i⟩ :: tagged (i + 1) cs

/-- `str::replace` on characters with their positions. -/
def replaceCells (part : List Char) : Nat → List Cell → List Cell
  | 0, _ => []
  | _, [] => []
  | n + 1, c :: cs =>
    if part.isPrefixOf ((c :: cs).map Cell.char) then marker ++ replaceCells part n ((c :: cs).drop part.length)
    else c :: replaceCells part n cs

/-- The turns of `redact`. -/
def turns (secrets : List String) (out : List Cell) : List Cell :=
  secrets.foldl (fun out secret => replaceCells secret.toList out.length out) out

/-- `redact` on characters with their positions. -/
def redactCells (secrets : List String) (message : String) : List Cell :=
  turns (secrets.filter (· ≠ "")) (tagged 0 message.toList)

/-! ## What is replaced -/

/-- A part of the message. -/
structure Span where
  start : Nat
  length : Nat
  deriving DecidableEq

def Span.covers (t : Span) (i : Nat) : Prop := t.start ≤ i ∧ i < t.start + t.length

instance (t : Span) (i : Nat) : Decidable (t.covers i) := inferInstanceAs (Decidable (_ ∧ _))

def Span.apart (t u : Span) : Prop := t.start + t.length ≤ u.start ∨ u.start + u.length ≤ t.start

instance (t u : Span) : Decidable (t.apart u) := inferInstanceAs (Decidable (_ ∨ _))

/-- Where a text occurs, from left to right. -/
def occurrences (part : List Char) : Nat → List Char → List Span
  | _, [] => []
  | i, c :: cs => (if part.isPrefixOf (c :: cs) then [⟨i, part.length⟩] else []) ++ occurrences part (i + 1) cs

/-- An occurrence is taken unless it meets one that was taken before. -/
def takeSpan (taken : List Span) (t : Span) : List Span := if ∀ u ∈ taken, t.apart u then taken ++ [t] else taken

/-- The occurrences of the secrets in their order, each from left to right, that are taken. -/
def taken (secrets : List String) (message : String) : List Span :=
  ((secrets.filter (· ≠ "")).flatMap fun secret => occurrences secret.toList 0 message.toList).foldl takeSpan []

/-- What is at a position of the message when some parts of it are replaced. -/
def cellAt (spans : List Span) (i : Nat) (c : Char) : List Cell :=
  if ∃ t ∈ spans, t.start = i then marker else if ∃ t ∈ spans, t.covers i then [] else [⟨c, some i⟩]

/-- The message, from a position on, with a marker for each of some parts. -/
def render (spans : List Span) : Nat → List Char → List Cell
  | _, [] => []
  | i, c :: cs => cellAt spans i c ++ render spans (i + 1) cs

/-- No character of a marker is in what `replaceCells` replaces. -/
def unmarkedIn (part : List Char) : Nat → List Cell → Prop
  | 0, _ => True
  | _, [] => True
  | n + 1, c :: cs =>
    if part.isPrefixOf ((c :: cs).map Cell.char) then
      (∀ d ∈ (c :: cs).take part.length, d.origin.isSome = true) ∧
        unmarkedIn part n ((c :: cs).drop part.length)
    else unmarkedIn part n cs

/-- No secret is replaced, when its turn comes, with a character of a marker in it. -/
def unmarkedFrom : List String → List Cell → Prop
  | [], _ => True
  | secret :: secrets, out =>
    unmarkedIn secret.toList out.length out ∧ unmarkedFrom secrets (replaceCells secret.toList out.length out)

def Unmarked (secrets : List String) (message : String) : Prop :=
  unmarkedFrom (secrets.filter (· ≠ "")) (tagged 0 message.toList)

/-! ## What is asked -/

/-- An occurrence of one of the secrets. -/
def Occurs (secrets : List String) (message : String) (t : Span) : Prop :=
  ∃ secret ∈ secrets, secret ≠ "" ∧ t.length = secret.toList.length ∧ secret.toList <+: message.toList.drop t.start

/-- No character of an occurrence is in the output. -/
def Removed (secrets : List String) (message : String) : Prop :=
  ∀ t, Occurs secrets message t → ∀ i, t.covers i → ∀ c, ⟨c, some i⟩ ∉ redactCells secrets message

/-- Every occurrence lies in taken ones. -/
def Covered (secrets : List String) (message : String) : Prop :=
  ∀ t, Occurs secrets message t → ∀ i, t.covers i → ∃ u ∈ taken secrets message, u.covers i

/-- The messages differ only inside occurrences of equal position and length. -/
structure Alike (secrets : List String) (m m' : String) : Prop where
  length : m.toList.length = m'.toList.length
  occurrences : ∀ t, Occurs secrets m t ↔ Occurs secrets m' t
  elsewhere : ∀ i, (∀ t, Occurs secrets m t → ¬ t.covers i) → m.toList[i]? = m'.toList[i]?

namespace RedactLemmas

variable {part cs : List Char} {out rest : List Cell} {spans : List Span} {t u : Span} {i n : Nat} {c : Char} {d : Cell}

/-! ### The characters alone -/

theorem tagged_chars (i : Nat) (cs : List Char) : (tagged i cs).map Cell.char = cs := by
  induction cs generalizing i with
  | nil => rfl
  | cons c cs ih => rw [tagged, List.map_cons, ih]

theorem marked_chars (cs : List Char) : (cs.map fun c => (⟨c, none⟩ : Cell)).map Cell.char = cs := by
  induction cs with
  | nil => rfl
  | cons c cs ih => rw [List.map_cons, List.map_cons, ih]

theorem marker_chars : marker.map Cell.char = "[redacted]".toList := marked_chars _

theorem replaceCells_chars (part : List Char) (n : Nat) (out : List Cell) :
    (replaceCells part n out).map Cell.char = replaceAll part "[redacted]".toList n (out.map Cell.char) := by
  induction n generalizing out with
  | zero => rfl
  | succ n ih =>
    cases out with
    | nil => rfl
    | cons c out =>
      rw [replaceCells, List.map_cons, replaceAll, ← List.map_cons]
      split
      · rw [List.map_append, marker_chars, ih, List.map_drop]
      · rw [List.map_cons, ih]

theorem turns_chars (secrets : List String) (out : List Cell) :
    String.ofList ((turns secrets out).map Cell.char) =
      secrets.foldl (fun out secret => String.ofList (replaceAll secret.toList "[redacted]".toList out.toList.length out.toList))
        (String.ofList (out.map Cell.char)) := by
  induction secrets generalizing out with
  | nil => rfl
  | cons secret secrets ih =>
    have hout : (String.ofList (out.map Cell.char)).toList = out.map Cell.char := String.toList_ofList
    have hturn := ih (replaceCells secret.toList out.length out)
    rw [turns, List.foldl_cons, ← turns, hturn, replaceCells_chars, List.foldl_cons, hout, List.length_map]

theorem redact_cells (message : String) (secrets : List String) :
    redact message secrets = String.ofList ((redactCells secrets message).map Cell.char) := by
  rw [redactCells, turns_chars, tagged_chars, String.ofList_toList, redact]

/-! ### Parts of the message -/

/-- Parts that are not empty, apart from each other and before an end; a position is not inside one
of them. -/
structure Laid (spans : List Span) (i last : Nat) : Prop where
  nonempty : ∀ t ∈ spans, 0 < t.length
  apart : ∀ t ∈ spans, ∀ u ∈ spans, t = u ∨ t.apart u
  within : ∀ t ∈ spans, t.start + t.length ≤ last
  edge : ∀ t ∈ spans, t.start + t.length ≤ i ∨ i ≤ t.start

theorem covers_start (h : 0 < t.length) : t.covers t.start := ⟨Nat.le_refl _, Nat.lt_add_of_pos_right h⟩

/-- Parts that meet are not apart. -/
theorem not_apart (ht : t.covers i) (hu : u.covers i) : ¬ t.apart u := by
  rintro (h | h)
  · exact absurd (ht.2.trans_le (h.trans hu.1)) (Nat.lt_irrefl i)
  · exact absurd (hu.2.trans_le (h.trans ht.1)) (Nat.lt_irrefl i)

theorem cellAt_plain (hstart : ∀ t ∈ spans, t.start ≠ i) (hcover : ∀ t ∈ spans, ¬ t.covers i) (c : Char) :
    cellAt spans i c = [⟨c, some i⟩] := by
  rw [cellAt, if_neg fun ⟨t, ht, h⟩ => hstart t ht h, if_neg fun ⟨t, ht, h⟩ => hcover t ht h]

/-- Behind the first position of a part there is nothing up to its end. -/
theorem render_inside {last : Nat} (hlaid : Laid spans i last) (ht : t ∈ spans) {j : Nat} (hj : t.start < j)
    (hend : j ≤ t.start + t.length) (cs : List Char) :
    render spans j cs = render spans (t.start + t.length) (cs.drop (t.start + t.length - j)) := by
  induction cs generalizing j with
  | nil => rw [List.drop_nil]; rfl
  | cons c cs ih =>
    rcases Nat.eq_or_lt_of_le hend with rfl | hlt
    · rw [Nat.sub_self, List.drop_zero]
    · have hcovers : t.covers j := ⟨Nat.le_of_lt hj, hlt⟩
      have hempty : cellAt spans j c = [] := by
        rw [cellAt, if_neg, if_pos ⟨t, ht, hcovers⟩]
        rintro ⟨u, hu, rfl⟩
        rcases hlaid.apart t ht u hu with rfl | hapart
        · exact Nat.lt_irrefl _ hj
        · exact not_apart hcovers (covers_start (hlaid.nonempty u hu)) hapart
      have hsub : t.start + t.length - j = t.start + t.length - (j + 1) + 1 := by omega
      rw [render, hempty, List.nil_append, ih (Nat.lt_succ_of_lt hj) hlt, hsub, List.drop_succ_cons]

/-- A part becomes a marker. -/
theorem render_span {last : Nat} (hlaid : Laid spans i last) (ht : t ∈ spans) (c : Char) (cs : List Char) :
    render spans t.start (c :: cs) = marker ++ render spans (t.start + t.length) ((c :: cs).drop t.length) := by
  have hpos := hlaid.nonempty t ht
  have hsub : t.length = t.start + t.length - (t.start + 1) + 1 := by omega
  rw [render, cellAt, if_pos ⟨t, ht, rfl⟩, render_inside hlaid ht (Nat.lt_succ_self _) (by omega)]
  conv_rhs => rw [hsub, List.drop_succ_cons]
  rw [← hsub]

/-- What is behind a part does not depend on it. -/
theorem render_behind (h : u.start + u.length ≤ i) (hpos : 0 < u.length) (cs : List Char) :
    render (spans ++ [u]) i cs = render spans i cs := by
  induction cs generalizing i with
  | nil => rfl
  | cons c cs ih =>
    rw [render, render, ih (Nat.le_succ_of_le h)]
    congr 1
    have hstart : (∃ t ∈ spans ++ [u], t.start = i) ↔ ∃ t ∈ spans, t.start = i := by
      constructor
      · rintro ⟨t, ht, rfl⟩
        rcases List.mem_append.mp ht with ht | ht
        · exact ⟨t, ht, rfl⟩
        · rw [List.mem_singleton.mp ht] at h
          omega
      · rintro ⟨t, ht, rfl⟩
        exact ⟨t, List.mem_append_left _ ht, rfl⟩
    have hcover : (∃ t ∈ spans ++ [u], t.covers i) ↔ ∃ t ∈ spans, t.covers i := by
      constructor
      · rintro ⟨t, ht, hc⟩
        rcases List.mem_append.mp ht with ht | ht
        · exact ⟨t, ht, hc⟩
        · rw [List.mem_singleton.mp ht] at hc
          exact absurd (hc.2.trans_le h) (Nat.lt_irrefl i)
      · rintro ⟨t, ht, hc⟩
        exact ⟨t, List.mem_append_left _ ht, hc⟩
    rw [cellAt, cellAt]
    simp only [hstart, hcover]

/-! ### Taking occurrences -/

theorem mem_takeAll_left {os : List Span} (h : t ∈ spans) : t ∈ os.foldl takeSpan spans := by
  induction os generalizing spans with
  | nil => exact h
  | cons o os ih =>
    refine ih ?_
    rw [takeSpan]
    split
    · exact List.mem_append_left _ h
    · exact h

theorem mem_takeAll {os : List Span} (h : t ∈ os.foldl takeSpan spans) : t ∈ spans ∨ t ∈ os := by
  induction os generalizing spans with
  | nil => exact .inl h
  | cons o os ih =>
    rcases ih h with h | h
    · rw [takeSpan] at h
      split at h
      · rcases List.mem_append.mp h with h | h
        · exact .inl h
        · exact .inr (List.mem_cons.mpr (.inl (List.mem_singleton.mp h)))
      · exact .inl h
    · exact .inr (List.mem_cons_of_mem _ h)

theorem laid_take {last : Nat} (hlaid : Laid spans i last) (hpos : 0 < t.length) (hwithin : t.start + t.length ≤ last)
    (hedge : t.start + t.length ≤ i ∨ i ≤ t.start) : Laid (takeSpan spans t) i last := by
  rw [takeSpan]
  split
  next hapart =>
    refine ⟨fun u hu => ?_, fun u hu v hv => ?_, fun u hu => ?_, fun u hu => ?_⟩
    · rcases List.mem_append.mp hu with hu | hu
      · exact hlaid.nonempty u hu
      · exact List.mem_singleton.mp hu ▸ hpos
    · rcases List.mem_append.mp hu with hu | hu
      · rcases List.mem_append.mp hv with hv | hv
        · exact hlaid.apart u hu v hv
        · rw [List.mem_singleton.mp hv]
          exact .inr (hapart u hu).symm
      · rw [List.mem_singleton.mp hu]
        rcases List.mem_append.mp hv with hv | hv
        · exact .inr (hapart v hv)
        · exact .inl (List.mem_singleton.mp hv).symm
    · rcases List.mem_append.mp hu with hu | hu
      · exact hlaid.within u hu
      · exact List.mem_singleton.mp hu ▸ hwithin
    · rcases List.mem_append.mp hu with hu | hu
      · exact hlaid.edge u hu
      · exact List.mem_singleton.mp hu ▸ hedge
  next => exact hlaid

theorem laid_takeAll {last : Nat} {os : List Span} (hlaid : Laid spans i last)
    (hos : ∀ t ∈ os, 0 < t.length ∧ t.start + t.length ≤ last ∧ i ≤ t.start) : Laid (os.foldl takeSpan spans) i last := by
  induction os generalizing spans with
  | nil => exact hlaid
  | cons o os ih =>
    obtain ⟨⟨hpos, hwithin, hedge⟩, hos⟩ := List.forall_mem_cons.mp hos
    exact ih (laid_take hlaid hpos hwithin (.inr hedge)) hos

theorem mem_occurrences : t ∈ occurrences part i cs ↔
    ∃ j < cs.length, t = ⟨i + j, part.length⟩ ∧ part <+: cs.drop j := by
  induction cs generalizing i with
  | nil =>
    constructor
    · intro h
      cases h
    · rintro ⟨j, hj, _⟩
      cases hj
  | cons c cs ih =>
    rw [occurrences, List.mem_append, ih]
    constructor
    · rintro (h | ⟨j, hj, rfl, hpart⟩)
      · split at h
        next hstarts =>
          exact ⟨0, Nat.succ_pos _, List.mem_singleton.mp h, List.isPrefixOf_iff_prefix.mp hstarts⟩
        · cases h
      · exact ⟨j + 1, Nat.succ_lt_succ hj, by rw [Nat.add_assoc, Nat.add_comm 1 j], hpart⟩
    · rintro ⟨j, hj, rfl, hpart⟩
      cases j with
      | zero =>
        refine .inl ?_
        have hstarts : part <+: c :: cs := hpart
        rw [if_pos (List.isPrefixOf_iff_prefix.mpr hstarts)]
        exact List.mem_singleton_self _
      | succ j => exact .inr ⟨j, Nat.lt_of_succ_lt_succ hj, by rw [Nat.add_assoc, Nat.add_comm 1 j], hpart⟩

/-- Nothing is taken up to the end of a part that is there. -/
theorem takeAll_skip (ht : t ∈ spans) (hpart : part ≠ []) {k : Nat} (hlow : t.start ≤ i) (hhigh : i + k = t.start + t.length)
    (cs : List Char) :
    (occurrences part i cs).foldl takeSpan spans = (occurrences part (i + k) (cs.drop k)).foldl takeSpan spans := by
  induction k generalizing i cs with
  | zero => rw [Nat.add_zero, List.drop_zero]
  | succ k ih =>
    cases cs with
    | nil => rw [List.drop_nil]; rfl
    | cons c cs =>
      have hrest := ih (i := i + 1) (hlow.trans (Nat.le_succ i)) (by omega) cs
      rw [occurrences, List.foldl_append, List.drop_succ_cons, ← Nat.add_assoc, Nat.add_right_comm, ← hrest]
      congr 1
      split
      · rw [List.foldl_cons, List.foldl_nil, takeSpan, if_neg]
        intro hapart
        have hmeet : (⟨i, part.length⟩ : Span).covers i := covers_start (List.length_pos_of_ne_nil hpart)
        exact not_apart hmeet ⟨hlow, by omega⟩ (hapart t ht)
      · rfl

/-! ### One turn -/

theorem unmarkedIn_match (h : unmarkedIn part (n + 1) (d :: rest)) (hpart : part <+: (d :: rest).map Cell.char) :
    (∀ c ∈ (d :: rest).take part.length, c.origin.isSome = true) ∧ unmarkedIn part n ((d :: rest).drop part.length) := by
  rwa [unmarkedIn, if_pos (List.isPrefixOf_iff_prefix.mpr hpart)] at h

theorem unmarkedIn_next (h : unmarkedIn part (n + 1) (d :: rest)) (hno : ¬ part <+: (d :: rest).map Cell.char) :
    unmarkedIn part n rest := by
  rwa [unmarkedIn, if_neg (fun hpart => hno (List.isPrefixOf_iff_prefix.mp hpart))] at h

/-- Markers are passed over. -/
theorem replace_marked {front : List Cell} (hfront : ∀ c ∈ front, c.origin = none) (hpart : part ≠ []) (n : Nat)
    (h : unmarkedIn part (front.length + n) (front ++ rest)) :
    replaceCells part (front.length + n) (front ++ rest) = front ++ replaceCells part n rest ∧ unmarkedIn part n rest := by
  induction front with
  | nil =>
    rw [List.length_nil, Nat.zero_add, List.nil_append] at h ⊢
    exact ⟨rfl, h⟩
  | cons c front ih =>
    obtain ⟨hc, hfront⟩ := List.forall_mem_cons.mp hfront
    rw [List.length_cons, Nat.add_right_comm, List.cons_append] at h ⊢
    have hno : ¬ part <+: (c :: (front ++ rest)).map Cell.char := by
      intro hstarts
      have hsome := (unmarkedIn_match h hstarts).1 c ?_
      · rw [hc] at hsome
        cases hsome
      · obtain ⟨d, part', rfl⟩ := List.exists_cons_of_ne_nil hpart
        rw [List.length_cons, List.take_succ_cons]
        exact List.mem_cons_self
    obtain ⟨hturn, hrest⟩ := ih hfront (unmarkedIn_next h hno)
    refine ⟨?_, hrest⟩
    rw [replaceCells, if_neg (fun hstarts => hno (List.isPrefixOf_iff_prefix.mp hstarts)), hturn, List.cons_append]

theorem marker_origin : ∀ c ∈ marker, c.origin = none := by
  intro c hc
  obtain ⟨_, _, rfl⟩ := List.mem_map.mp hc
  rfl

theorem marker_ne : marker ≠ [] := by decide +kernel

theorem tagged_length (i : Nat) (cs : List Char) : (tagged i cs).length = cs.length := by
  rw [← List.length_map Cell.char, tagged_chars]

/-- Where no part is, the message stands as it was. -/
theorem render_free {k : Nat} (hpos : ∀ t ∈ spans, 0 < t.length) (hfree : ∀ t ∈ spans, (⟨i, k⟩ : Span).apart t) (cs : List Char) :
    render spans i cs = tagged i (cs.take k) ++ render spans (i + k) (cs.drop k) := by
  induction k generalizing i cs with
  | zero => rfl
  | succ k ih =>
    cases cs with
    | nil => rfl
    | cons c cs =>
      have hnone : ∀ t ∈ spans, ¬ t.covers i := fun t ht hc =>
        not_apart (u := t) (covers_start (t := ⟨i, k + 1⟩) (Nat.succ_pos k)) hc (hfree t ht)
      have hrest : ∀ t ∈ spans, (⟨i + 1, k⟩ : Span).apart t := by
        intro t ht
        have hapart : i + (k + 1) ≤ t.start ∨ t.start + t.length ≤ i := hfree t ht
        show i + 1 + k ≤ t.start ∨ t.start + t.length ≤ i + 1
        omega
      have hstart : ∀ t ∈ spans, t.start ≠ i := by
        rintro t ht rfl
        exact hnone t ht (covers_start (hpos t ht))
      rw [render, cellAt_plain hstart hnone, ih hrest,
        List.take_succ_cons, tagged, List.drop_succ_cons, Nat.add_assoc, Nat.add_comm 1 k]
      rfl

/-- Characters of the message that stand together are apart from all parts. -/
theorem free_of_origin {k last : Nat} (hlaid : Laid spans i last) (hlen : k ≤ (render spans i cs).length)
    (horigin : ∀ c ∈ (render spans i cs).take k, c.origin.isSome = true) : ∀ t ∈ spans, (⟨i, k⟩ : Span).apart t := by
  induction k generalizing i cs with
  | zero =>
    intro t ht
    exact (hlaid.edge t ht).symm
  | succ k ih =>
    cases cs with
    | nil => exact absurd hlen (Nat.not_succ_le_zero k)
    | cons c cs =>
      have hstart : ∀ t ∈ spans, t.start ≠ i := by
        rintro t ht rfl
        obtain ⟨d, front, hmarker⟩ := List.exists_cons_of_ne_nil marker_ne
        have hnone := marker_origin d (by rw [hmarker]; exact List.mem_cons_self)
        rw [render_span hlaid ht, hmarker, List.cons_append, List.take_succ_cons] at horigin
        have hsome := horigin d List.mem_cons_self
        rw [hnone] at hsome
        cases hsome
      have hcover : ∀ t ∈ spans, ¬ t.covers i := by
        rintro t ht ⟨hlow, hhigh⟩
        rcases hlaid.edge t ht with h | h
        · exact absurd hhigh (Nat.not_lt.mpr h)
        · exact hstart t ht (Nat.le_antisymm hlow h)
      rw [render, cellAt_plain hstart hcover, List.singleton_append] at hlen horigin
      have hedge : Laid spans (i + 1) last := by
        refine ⟨hlaid.nonempty, hlaid.apart, hlaid.within, fun t ht => ?_⟩
        have hne := hstart t ht
        have hhere := hlaid.edge t ht
        omega
      have hrest := ih hedge (Nat.le_of_succ_le_succ hlen) fun d hd => horigin d (by
        rw [List.take_succ_cons]
        exact List.mem_cons_of_mem _ hd)
      intro t ht
      have hapart : i + 1 + k ≤ t.start ∨ t.start + t.length ≤ i + 1 := hrest t ht
      have hne := hstart t ht
      have hhere := hlaid.edge t ht
      have hpos := hlaid.nonempty t ht
      show i + (k + 1) ≤ t.start ∨ t.start + t.length ≤ i
      omega

theorem unmarked_start (hlaid : ∀ t ∈ spans, t.start + t.length ≤ i ∨ i ≤ t.start) (hstart : ∀ t ∈ spans, t.start ≠ i) :
    ∀ t ∈ spans, ¬ t.covers i := by
  rintro t ht ⟨hlow, hhigh⟩
  rcases hlaid t ht with h | h
  · exact absurd hhigh (Nat.not_lt.mpr h)
  · exact hstart t ht (Nat.le_antisymm hlow h)

/-- Where the parts leave room, what occurs in the output is what occurs in the message. -/
theorem match_iff (hpos : ∀ t ∈ spans, 0 < t.length) (hfree : ∀ t ∈ spans, (⟨i, part.length⟩ : Span).apart t) :
    part <+: (render spans i cs).map Cell.char ↔ part <+: cs := by
  rw [render_free hpos hfree cs, List.map_append, tagged_chars]
  constructor
  · intro h
    by_cases hlen : part.length ≤ cs.length
    · have htake := List.prefix_iff_eq_take.mp h
      rw [List.take_append_of_le_length (by rw [List.length_take]; exact Nat.le_min.mpr ⟨Nat.le_refl _, hlen⟩),
        List.take_take, Nat.min_self] at htake
      rw [htake]
      exact List.take_prefix _ _
    · have hle := h.length_le
      have hdrop : cs.drop part.length = [] := List.drop_eq_nil_of_le (by omega)
      rw [hdrop, render, List.map_nil, List.append_nil, List.length_take] at hle
      omega
  · intro h
    rw [← List.prefix_iff_eq_take.mp h]
    exact List.prefix_append _ _

theorem laid_after {last : Nat} (hlaid : Laid spans i last) {k : Nat} (hfree : ∀ t ∈ spans, t.start + t.length ≤ i + k ∨ i + k ≤ t.start) :
    Laid spans (i + k) last := ⟨hlaid.nonempty, hlaid.apart, hlaid.within, hfree⟩

/-- A turn takes, from left to right, the occurrences that meet nothing taken before. -/
theorem replace_render {last : Nat} (hpart : part ≠ []) (hlaid : Laid spans i last) (hlast : i + cs.length = last)
    (hunmarked : unmarkedIn part n (render spans i cs)) (hn : (render spans i cs).length ≤ n) :
    replaceCells part n (render spans i cs) = render ((occurrences part i cs).foldl takeSpan spans) i cs := by
  induction hm : cs.length using Nat.strong_induction_on generalizing cs i spans n with
  | _ m ih =>
    cases cs with
    | nil =>
      cases n <;> rfl
    | cons c cs =>
      have hpos : 0 < part.length := List.length_pos_of_ne_nil hpart
      have hfinal : Laid ((occurrences part i (c :: cs)).foldl takeSpan spans) i last := by
        refine laid_takeAll hlaid fun t ht => ?_
        obtain ⟨j, hj, rfl, hstarts⟩ := (mem_occurrences).mp ht
        have hle := hstarts.length_le
        rw [List.length_drop] at hle
        refine ⟨hpos, ?_, Nat.le_add_right i j⟩
        show i + j + part.length ≤ last
        omega
      by_cases hstart : ∃ t ∈ spans, t.start = i
      · -- a marker is passed over
        obtain ⟨t, ht, rfl⟩ := hstart
        have hlen := hlaid.nonempty t ht
        have hwithin := hlaid.within t ht
        have hrest : ((c :: cs).drop t.length).length = (c :: cs).length - t.length := List.length_drop
        rw [render_span hlaid ht] at hunmarked hn ⊢
        rw [List.length_append] at hn
        obtain ⟨n, rfl⟩ := Nat.exists_eq_add_of_le (Nat.le_of_add_right_le hn)
        obtain ⟨hturn, hmore⟩ := replace_marked marker_origin hpart n hunmarked
        rw [hturn, render_span hfinal (mem_takeAll_left ht),
          takeAll_skip ht hpart (Nat.le_refl _) rfl]
        congr 1
        refine ih _ (by omega) (laid_after hlaid fun u hu => ?_) (by omega) hmore
          (Nat.le_of_add_le_add_left hn) rfl
        rcases hlaid.apart t ht u hu with rfl | h | h
        · exact .inl (Nat.le_refl _)
        · exact .inr h
        · exact .inl (h.trans (Nat.le_add_right _ _))
      · have hstart : ∀ t ∈ spans, t.start ≠ i := fun t ht h => hstart ⟨t, ht, h⟩
        have hhere : render spans i (c :: cs) = ⟨c, some i⟩ :: render spans (i + 1) cs := by
          rw [render, cellAt_plain hstart (unmarked_start hlaid.edge hstart)]
          rfl
        obtain ⟨n, rfl⟩ : ∃ n', n = n' + 1 := by
          rw [hhere] at hn
          exact Nat.exists_eq_succ_of_ne_zero (Nat.ne_of_gt (Nat.lt_of_lt_of_le (Nat.succ_pos _) hn))
        by_cases hmatch : part <+: (render spans i (c :: cs)).map Cell.char
        · -- an occurrence is taken
          have hlen := hmatch.length_le
          rw [List.length_map] at hlen
          have hboth := unmarkedIn_match (hhere ▸ hunmarked) (hhere ▸ hmatch)
          rw [← hhere] at hboth
          obtain ⟨horigin, hmore⟩ := hboth
          have hfree := free_of_origin hlaid hlen horigin
          have hstarts := (match_iff hlaid.nonempty hfree).mp hmatch
          have htake : takeSpan spans ⟨i, part.length⟩ = spans ++ [⟨i, part.length⟩] := if_pos hfree
          have hend : i + part.length ≤ last := by
            have := hstarts.length_le
            omega
          have hlaid' := laid_take hlaid (t := ⟨i, part.length⟩) hpos hend (.inr (Nat.le_refl i))
          have hos : (occurrences part i (c :: cs)).foldl takeSpan spans =
              (occurrences part (i + part.length) ((c :: cs).drop part.length)).foldl takeSpan (takeSpan spans ⟨i, part.length⟩) := by
            have hmem : (⟨i, part.length⟩ : Span) ∈ takeSpan spans ⟨i, part.length⟩ := by
              rw [htake]
              exact List.mem_append_right _ (List.mem_singleton_self _)
            have hskip := takeAll_skip hmem hpart (i := i + 1) (k := part.length - 1) (Nat.le_succ i)
              (show i + 1 + (part.length - 1) = i + part.length by omega) cs
            have hdrop : (c :: cs).drop part.length = cs.drop (part.length - 1) := List.drop_cons hpos
            rw [occurrences, if_pos (List.isPrefixOf_iff_prefix.mpr hstarts), List.foldl_append, List.foldl_cons, List.foldl_nil,
              hskip, hdrop]
            congr 2
            omega
          have hmem : (⟨i, part.length⟩ : Span) ∈ (occurrences part i (c :: cs)).foldl takeSpan spans := by
            rw [hos]
            refine mem_takeAll_left ?_
            rw [htake]
            exact List.mem_append_right _ (List.mem_singleton_self _)
          have hbehind : (render spans i (c :: cs)).drop part.length =
              render (takeSpan spans ⟨i, part.length⟩) (i + part.length) ((c :: cs).drop part.length) := by
            have htagged : (tagged i ((c :: cs).take part.length)).length = part.length := by
              rw [tagged_length, List.length_take, Nat.min_eq_left hstarts.length_le]
            rw [htake, render_behind (Nat.le_refl _) hpos, render_free hlaid.nonempty hfree, List.drop_left' htagged]
          have hshort : ((render spans i (c :: cs)).drop part.length).length ≤ n := by
            rw [List.length_drop]
            omega
          rw [hbehind] at hmore hshort
          have hturn : replaceCells part (n + 1) (render spans i (c :: cs)) =
              marker ++ replaceCells part n ((render spans i (c :: cs)).drop part.length) := by
            rw [hhere] at hmatch ⊢
            rw [replaceCells, if_pos (List.isPrefixOf_iff_prefix.mpr hmatch)]
          have hcut : ((c :: cs).drop part.length).length = (c :: cs).length - part.length := List.length_drop
          have hspan := render_span hfinal hmem c cs
          rw [hturn, hbehind, hspan, hos]
          congr 1
          refine ih _ (by omega) (laid_after hlaid' fun u hu => ?_) (by omega) hmore hshort rfl
          rw [htake] at hu
          rcases List.mem_append.mp hu with hu | hu
          · rcases hfree u hu with h | h
            · exact .inr h
            · exact .inl (h.trans (Nat.le_add_right _ _))
          · rw [List.mem_singleton.mp hu]
            exact .inl (Nat.le_refl _)
        · -- nothing is taken here
          have hos : (occurrences part i (c :: cs)).foldl takeSpan spans = (occurrences part (i + 1) cs).foldl takeSpan spans := by
            rw [occurrences, List.foldl_append]
            congr 1
            split
            next hstarts =>
              rw [List.foldl_cons, List.foldl_nil, takeSpan, if_neg]
              intro hfree
              exact hmatch ((match_iff hlaid.nonempty hfree).mpr (List.isPrefixOf_iff_prefix.mp hstarts))
            · rfl
          have hplain : cellAt ((occurrences part (i + 1) cs).foldl takeSpan spans) i c = [⟨c, some i⟩] := by
            refine cellAt_plain (fun t ht => ?_) (fun t ht => ?_) c
            · rcases mem_takeAll ht with ht | ht
              · exact hstart t ht
              · obtain ⟨j, _, rfl, _⟩ := (mem_occurrences).mp ht
                show i + 1 + j ≠ i
                omega
            · rcases mem_takeAll ht with ht | ht
              · exact unmarked_start hlaid.edge hstart t ht
              · obtain ⟨j, _, rfl, _⟩ := (mem_occurrences).mp ht
                rintro ⟨hlow, -⟩
                have : i + 1 + j ≤ i := hlow
                omega
          rw [hhere] at hmatch hunmarked hn ⊢
          rw [replaceCells, if_neg fun h => hmatch (List.isPrefixOf_iff_prefix.mp h), hos]
          conv_rhs => rw [render, hplain, List.singleton_append]
          congr 1
          refine ih cs.length (by rw [← hm]; exact Nat.lt_succ_self _) (laid_after hlaid fun t ht => ?_)
            (by rw [List.length_cons] at hlast; omega) (unmarkedIn_next hunmarked hmatch)
            (Nat.le_of_succ_le_succ hn) rfl
          have hne := hstart t ht
          have hedge := hlaid.edge t ht
          omega

/-! ### All turns -/

theorem render_nil (i : Nat) (cs : List Char) : render [] i cs = tagged i cs := by
  induction cs generalizing i with
  | nil => rfl
  | cons c cs ih =>
    rw [render, cellAt_plain (fun t ht => by cases ht) (fun t ht => by cases ht), ih]
    rfl

theorem occurrences_laid {last : Nat} (hpart : part ≠ []) (hlast : cs.length = last) :
    ∀ t ∈ occurrences part 0 cs, 0 < t.length ∧ t.start + t.length ≤ last ∧ 0 ≤ t.start := by
  intro t ht
  obtain ⟨j, hj, rfl, hstarts⟩ := (mem_occurrences).mp ht
  have hle := hstarts.length_le
  rw [List.length_drop] at hle
  refine ⟨List.length_pos_of_ne_nil hpart, ?_, Nat.zero_le _⟩
  show 0 + j + part.length ≤ last
  omega

/-- The occurrences that a list of secrets takes besides those that are taken. -/
def takeSecrets (secrets : List String) (cs : List Char) (spans : List Span) : List Span :=
  (secrets.flatMap fun secret => occurrences secret.toList 0 cs).foldl takeSpan spans

theorem laid_secrets {secrets : List String} (hsecrets : ∀ s ∈ secrets, s ≠ "") (hlaid : Laid spans 0 cs.length) :
    Laid (takeSecrets secrets cs spans) 0 cs.length := by
  refine laid_takeAll hlaid fun t ht => ?_
  obtain ⟨s, hs, ht⟩ := List.mem_flatMap.mp ht
  exact occurrences_laid (fun h => hsecrets s hs (String.toList_eq_nil_iff.mp h)) rfl t ht

/-- All turns take the occurrences of the secrets in their order. -/
theorem turns_render {secrets : List String} (hsecrets : ∀ s ∈ secrets, s ≠ "") (hlaid : Laid spans 0 cs.length)
    (hunmarked : unmarkedFrom secrets (render spans 0 cs)) :
    turns secrets (render spans 0 cs) = render (takeSecrets secrets cs spans) 0 cs := by
  induction secrets generalizing spans with
  | nil => rfl
  | cons s secrets ih =>
    obtain ⟨hs, hsecrets⟩ := List.forall_mem_cons.mp hsecrets
    obtain ⟨hhere, hrest⟩ := hunmarked
    have hpart : s.toList ≠ [] := fun h => hs (String.toList_eq_nil_iff.mp h)
    have hturn := replace_render hpart hlaid (Nat.zero_add _) hhere (Nat.le_refl _)
    have hlaid' : Laid ((occurrences s.toList 0 cs).foldl takeSpan spans) 0 cs.length :=
      laid_takeAll hlaid (occurrences_laid hpart rfl)
    rw [hturn] at hrest
    rw [turns, List.foldl_cons, ← turns, hturn, ih hsecrets hlaid' hrest, takeSecrets, takeSecrets, List.flatMap_cons,
      List.foldl_append]

theorem filter_nonempty (secrets : List String) : ∀ s ∈ secrets.filter (· ≠ ""), s ≠ "" := by
  intro s hs
  exact of_decide_eq_true (List.mem_filter.mp hs).2

theorem laid_nil (last : Nat) : Laid [] 0 last :=
  ⟨fun t ht => (by cases ht), fun t ht => (by cases ht), fun t ht => (by cases ht), fun t ht => (by cases ht)⟩

theorem laid_taken (secrets : List String) (message : String) : Laid (taken secrets message) 0 message.toList.length :=
  laid_secrets (filter_nonempty secrets) (laid_nil _)

/-- The output is the message with the taken occurrences replaced. -/
theorem redactCells_eq {secrets : List String} {message : String} (h : Unmarked secrets message) :
    redactCells secrets message = render (taken secrets message) 0 message.toList := by
  rw [Unmarked, ← render_nil] at h
  rw [redactCells, ← render_nil, turns_render (filter_nonempty secrets) (laid_nil _) h]
  rfl

/-! ### What is left -/

/-- The characters outside the parts are left. -/
theorem mem_render (hpos : ∀ t ∈ spans, 0 < t.length) (j : Nat) :
    (∃ c, ⟨c, some j⟩ ∈ render spans i cs) ↔ i ≤ j ∧ j < i + cs.length ∧ ∀ t ∈ spans, ¬ t.covers j := by
  induction cs generalizing i with
  | nil =>
    constructor
    · rintro ⟨c, hc⟩
      cases hc
    · rintro ⟨hlow, hhigh, -⟩
      rw [List.length_nil] at hhigh
      omega
  | cons c cs ih =>
    simp only [render, List.mem_append, exists_or, ih, List.length_cons]
    constructor
    · rintro (⟨d, hd⟩ | ⟨hlow, hhigh, hfree⟩)
      · rw [cellAt] at hd
        split at hd
        · cases marker_origin _ hd
        next hstart =>
          split at hd
          · cases hd
          next hcover =>
            cases List.mem_singleton.mp hd
            exact ⟨Nat.le_refl _, by omega, fun t ht hc => hcover ⟨t, ht, hc⟩⟩
      · exact ⟨by omega, by omega, hfree⟩
    · rintro ⟨hlow, hhigh, hfree⟩
      rcases Nat.eq_or_lt_of_le hlow with rfl | hlt
      · refine .inl ⟨c, ?_⟩
        rw [cellAt_plain _ hfree]
        · exact List.mem_singleton_self _
        · rintro t ht rfl
          exact hfree t ht (covers_start (hpos t ht))
      · exact .inr ⟨hlt, by omega, hfree⟩

/-- The characters of the output depend on the parts and on what is outside them. -/
theorem render_chars {spans' : List Span} {cs' : List Char} (hspans : ∀ t, t ∈ spans ↔ t ∈ spans') (hlen : cs.length = cs'.length)
    (hoff : ∀ j, (∀ t ∈ spans, ¬ t.covers (i + j)) → cs[j]? = cs'[j]?) :
    (render spans i cs).map Cell.char = (render spans' i cs').map Cell.char := by
  induction cs generalizing i cs' with
  | nil =>
    rw [List.eq_nil_of_length_eq_zero hlen.symm]
    rfl
  | cons c cs ih =>
    cases cs' with
    | nil => cases hlen
    | cons c' cs' =>
      have hrest := ih (i := i + 1) (Nat.succ.inj hlen) fun j hfree =>
        hoff (j + 1) (by rwa [← Nat.add_assoc, Nat.add_right_comm])
      rw [render, render, List.map_append, List.map_append, hrest]
      congr 1
      rw [cellAt, cellAt]
      simp only [hspans]
      split
      · rfl
      next hstart =>
        split
        · rfl
        next hcover =>
          have hchar := hoff 0 fun t ht hc => hcover ⟨t, (hspans t).mp ht, hc⟩
          rw [Option.some.inj hchar]

/-! ### Markers in the way -/

theorem prefix_before {a b : List Char} {x : Char} (h : part <+: a ++ x :: b) (hx : x ∉ part) : part <+: a := by
  induction part generalizing a with
  | nil => exact List.nil_prefix
  | cons y part ih =>
    cases a with
    | nil =>
      obtain ⟨rfl, -⟩ := List.cons_prefix_cons.mp h
      exact absurd List.mem_cons_self hx
    | cons z a =>
      obtain ⟨rfl, hrest⟩ := List.cons_prefix_cons.mp h
      exact List.cons_prefix_cons.mpr ⟨rfl, ih hrest fun hmem => hx (List.mem_cons_of_mem _ hmem)⟩

/-- No brackets, and no part of the word between them. -/
def Plain (part : List Char) : Prop := '[' ∉ part ∧ ']' ∉ part ∧ ¬ part <:+: "redacted".toList

theorem marker_word : marker = ⟨'[', none⟩ :: ("redacted".toList.map (fun c => (⟨c, none⟩ : Cell)) ++ [⟨']', none⟩]) := by
  decide +kernel

theorem cellAt_cases (spans : List Span) (i : Nat) (c : Char) :
    cellAt spans i c = marker ∨ cellAt spans i c = [] ∨ cellAt spans i c = [⟨c, some i⟩] := by
  rw [cellAt]
  split
  · exact .inl rfl
  · split
    · exact .inr (.inl rfl)
    · exact .inr (.inr rfl)

/-- A text without brackets that begins between markers is of the message alone. -/
theorem origin_of_prefix (hopen : '[' ∉ part) (h : part <+: (render spans i cs).map Cell.char) :
    ∀ c ∈ (render spans i cs).take part.length, c.origin.isSome = true := by
  induction cs generalizing part i with
  | nil =>
    intro c hc
    rw [render, List.take_nil] at hc
    cases hc
  | cons c cs ih =>
    cases part with
    | nil =>
      intro c hc
      cases hc
    | cons x part =>
      rw [render] at h ⊢
      rcases cellAt_cases spans i c with hcell | hcell | hcell
      · rw [hcell, marker_word, List.cons_append, List.map_cons] at h
        obtain ⟨rfl, -⟩ := List.cons_prefix_cons.mp h
        exact absurd List.mem_cons_self hopen
      · rw [hcell, List.nil_append] at h ⊢
        exact ih hopen h
      · rw [hcell, List.singleton_append, List.map_cons] at h
        obtain ⟨-, hrest⟩ := List.cons_prefix_cons.mp h
        rw [hcell, List.singleton_append, List.length_cons, List.take_succ_cons]
        exact List.forall_mem_cons.mpr ⟨rfl, ih (fun hmem => hopen (List.mem_cons_of_mem _ hmem)) hrest⟩

/-- A plain text does not begin within a marker. -/
theorem plain_not_within (hplain : Plain part) (j : Nat) (b : List Char) :
    ¬ part <+: ("redacted".toList ++ [']']).drop j ++ b ∨ ("redacted".toList ++ [']']).drop j = [] := by
  refine or_iff_not_imp_right.mpr fun hne h => ?_
  obtain ⟨-, hclose, hword⟩ := hplain
  by_cases hj : j ≤ "redacted".toList.length
  · rw [List.drop_append_of_le_length hj, List.append_assoc, List.singleton_append] at h
    have hstarts := prefix_before h hclose
    exact hword (hstarts.isInfix.trans (List.drop_suffix _ _).isInfix)
  · refine hne (List.drop_eq_nil_of_le ?_)
    rw [List.length_append, List.length_singleton]
    omega

theorem plain_unmarked (hplain : Plain part) (hrest : rest <:+ render spans i cs)
    (hstarts : part <+: rest.map Cell.char) : ∀ c ∈ rest.take part.length, c.origin.isSome = true := by
  induction cs generalizing i with
  | nil =>
    rw [render, List.suffix_nil] at hrest
    subst hrest
    intro c hc
    rw [List.take_nil] at hc
    cases hc
  | cons c cs ih =>
    rw [render] at hrest
    obtain ⟨front, hfront⟩ := hrest
    rcases List.append_eq_append_iff.mp hfront with ⟨a, hcell, hrest⟩ | ⟨a, -, hrest⟩
    · -- the text begins at this position of the message
      by_cases ha : a = []
      · rw [ha, List.nil_append] at hrest
        exact ih (by rw [hrest])
      · have hne : part ≠ [] := by
          rintro rfl
          exact hplain.2.2 (List.nil_infix)
        rcases cellAt_cases spans i c with hblock | hblock | hblock
        · exfalso
          rw [hblock, marker_word] at hcell
          rw [hrest, List.map_append] at hstarts
          cases front with
          | nil =>
            rw [List.nil_append] at hcell
            rw [← hcell, List.map_cons] at hstarts
            obtain ⟨x, part', rfl⟩ := List.exists_cons_of_ne_nil hne
            obtain ⟨rfl, -⟩ := List.cons_prefix_cons.mp hstarts
            exact hplain.1 List.mem_cons_self
          | cons d front =>
            have hcell : _ = front ++ a := (List.cons.inj hcell).2
            have hdrop := congrArg (fun l => (l.drop front.length).map Cell.char) hcell
            rw [List.drop_left, List.map_drop, List.map_append, marked_chars] at hdrop
            rw [← hdrop] at hstarts
            rcases plain_not_within hplain front.length (List.map Cell.char (render spans (i + 1) cs)) with h | h
            · exact h hstarts
            · exact ha (List.map_eq_nil_iff.mp (hdrop.symm.trans h))
        · rw [hblock] at hcell
          exact absurd (List.append_eq_nil_iff.mp hcell.symm).2 ha
        · rw [hblock] at hcell
          have hfirst : front = [] := by
            have hlen := congrArg List.length hcell
            rw [List.length_singleton, List.length_append] at hlen
            have hpos := List.length_pos_of_ne_nil ha
            exact List.eq_nil_of_length_eq_zero (by omega)
          rw [hfirst, List.nil_append] at hfront
          have heq : rest = render spans i (c :: cs) := by rw [hfront, render]
          rw [heq] at hstarts ⊢
          exact origin_of_prefix hplain.1 hstarts
    · exact ih ⟨a, hrest.symm⟩

theorem unmarkedIn_plain (hplain : Plain part) (n : Nat) (hrest : rest <:+ render spans i cs) :
    unmarkedIn part n rest := by
  induction n generalizing rest with
  | zero => exact trivial
  | succ n ih =>
    cases rest with
    | nil => exact trivial
    | cons d rest =>
      rw [unmarkedIn]
      split
      next hstarts =>
        exact ⟨plain_unmarked hplain hrest (List.isPrefixOf_iff_prefix.mp hstarts), ih ((List.drop_suffix _ _).trans hrest)⟩
      · exact ih ((List.suffix_cons d rest).trans hrest)

theorem unmarkedFrom_plain {secrets : List String} (hsecrets : ∀ s ∈ secrets, s ≠ "" ∧ Plain s.toList)
    (hlaid : Laid spans 0 cs.length) : unmarkedFrom secrets (render spans 0 cs) := by
  induction secrets generalizing spans with
  | nil => trivial
  | cons s secrets ih =>
    obtain ⟨⟨hne, hplain⟩, hsecrets⟩ := List.forall_mem_cons.mp hsecrets
    have hpart : s.toList ≠ [] := fun h => hne (String.toList_eq_nil_iff.mp h)
    have hhere := @unmarkedIn_plain _ cs _ spans 0 hplain (render spans 0 cs).length List.suffix_rfl
    refine ⟨hhere, ?_⟩
    rw [replace_render hpart hlaid (Nat.zero_add _) hhere (Nat.le_refl _)]
    exact ih hsecrets (laid_takeAll hlaid (occurrences_laid hpart rfl))

end RedactLemmas

open RedactLemmas

/-- While no secret meets a marker, the secrets are removed just when the occurrences that are taken
cover all, and two messages that differ in nothing else become the same when the same are taken. No
secret meets a marker that has no bracket and is no part of the word in it. -/
theorem redact_agrees (secrets : List String) (message : String) :
    (Unmarked secrets message → (Removed secrets message ↔ Covered secrets message)) ∧
      (∀ other, Unmarked secrets message → Unmarked secrets other → Alike secrets message other →
        Covered secrets message → (∀ t, t ∈ taken secrets message ↔ t ∈ taken secrets other) →
        redact message secrets = redact other secrets) ∧
      ((∀ secret ∈ secrets, secret ≠ "" → Plain secret.toList) → Unmarked secrets message) := by
  have hpos := (laid_taken secrets message).nonempty
  refine ⟨fun hunmarked => ?_, fun other hm ho halike hcovered htaken => ?_, fun hplain => ?_⟩
  · unfold Removed Covered
    rw [redactCells_eq hunmarked]
    refine forall_congr' fun t => forall_congr' fun hoccurs => forall_congr' fun j => forall_congr' fun hj => ?_
    rw [← not_exists, mem_render hpos]
    obtain ⟨secret, _, hne, hlen, hstarts⟩ := hoccurs
    have hle := hstarts.length_le
    rw [List.length_drop] at hle
    have hlong : 0 < secret.toList.length := List.length_pos_of_ne_nil fun h => hne (String.toList_eq_nil_iff.mp h)
    have hlast : j < 0 + message.toList.length := by
      have := hj.2
      omega
    constructor
    · intro h
      by_contra hnone
      exact h ⟨Nat.zero_le j, hlast, fun u hu hc => hnone ⟨u, hu, hc⟩⟩
    · rintro ⟨u, hu, hc⟩ ⟨-, -, hfree⟩
      exact hfree u hu hc
  · rw [redact_cells, redact_cells, redactCells_eq hm, redactCells_eq ho, render_chars htaken halike.length fun j hfree => ?_]
    refine halike.elsewhere j fun t ht hj => ?_
    obtain ⟨u, hu, hc⟩ := hcovered t ht j hj
    exact hfree u hu (by rwa [Nat.zero_add])
  · rw [Unmarked, ← render_nil]
    refine unmarkedFrom_plain (fun s hs => ?_) (laid_nil _)
    have hne := filter_nonempty secrets s hs
    exact ⟨hne, hplain s (List.mem_filter.mp hs).1 hne⟩

/-- The end of a longer secret is left when a shorter one that it begins with comes first. -/
theorem secret_leaks : redact "password1" ["password", "password1"] = "[redacted]1" ∧
    ¬ Removed ["password", "password1"] "password1" := by
  constructor
  · decide +kernel
  · intro h
    have hoccurs : Occurs ["password", "password1"] "password1" ⟨0, 9⟩ :=
      ⟨"password1", by decide, by decide, by decide, by decide⟩
    exact h ⟨0, 9⟩ hoccurs 8 ⟨by decide, by decide⟩ '1' (by decide +kernel)

end OmtClient.Deploy.Redact
