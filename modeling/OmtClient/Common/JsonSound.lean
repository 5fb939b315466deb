import OmtClient.Common.Json
import Mathlib.Data.List.Induction
import Mathlib.Data.List.Nodup

/-!
# What the parser returns

A parsed document is well formed whatever the text was: the keys of each object differ,
and each integer that has a magnitude has one of 64 bits.

1. `sound_value`: so is each value that the parser returns, by induction on its turns.
2. `parse_sound`: so is a document.
-/

namespace OmtClient.Common.Json

open OmtClient.Lib Prog

variable {F : Type}

/-- Distinct keys in each object, and magnitudes of 64 bits. -/
inductive Sound : Value F → Prop
  | null : Sound .null
  | bool (b : Bool) : Sound (.bool b)
  | string (s : String) : Sound (.string s)
  | number (n : Number F) (h : ∀ m, n.magnitude = some m → m < 2 ^ 64) : Sound (.number n)
  | array (items : List (Value F)) (h : ∀ v ∈ items, Sound v) : Sound (.array items)
  | object (members : List (String × Value F)) (hkeys : (members.map Prod.fst).Nodup)
      (h : ∀ m ∈ members, Sound m.2) : Sound (.object members)

namespace SoundLemmas

theorem wp_any {α : Type} (m : Parse α) (p : Parser) : wp m (fun _ _ => True) (fun _ _ => True) p := by
  unfold wp
  split
  · trivial
  · trivial

/-- The rest of a program after a step of which nothing is asked. -/
theorem wp_skip {α β : Type} {m : Parse α} {f : α → Parse β} {Q : β → Parser → Prop} {p : Parser}
    (h : ∀ a q, wp (f a) Q (fun _ _ => True) q) : wp (m >>= f) Q (fun _ _ => True) p :=
  wp_seq (wp_any m p) fun a q _ => h a q

theorem magnitude_lt (ds : Bytes) {m : Nat} (h : magnitude ds = some m) : m < 2 ^ 64 := by
  induction ds using List.reverseRecOn generalizing m with
  | nil =>
    cases h
    decide
  | append_singleton ds d ih =>
    rw [magnitude, List.foldlM_append] at h
    obtain ⟨u, _, hstep⟩ := Option.bind_eq_some_iff.mp h
    rw [List.foldlM_cons] at hstep
    obtain ⟨w, hw, hlast⟩ := Option.bind_eq_some_iff.mp hstep
    cases hlast
    obtain ⟨hlt, heq⟩ := Option.ite_none_right_eq_some.mp hw
    exact Option.some.inj heq ▸ hlt

theorem wp_number_sound (dec : Decimal F) (p : Parser) :
    wp (number dec) (fun n _ => ∀ m, n.magnitude = some m → m < 2 ^ 64) (fun _ _ => True) p := by
  unfold number
  refine wp_skip fun start q => wp_skip fun _ q => wp_skip fun first q => wp_skip fun _ q =>
    wp_skip fun whole q => wp_skip fun frac q => wp_skip fun expo q => wp_skip fun last q => ?_
  dsimp only
  split
  · split
    · exact fun m hm => nomatch hm
    · trivial
  · split
    · trivial
    · split
      · trivial
      · intro m hm
        dsimp only at hm
        split at hm
        · exact magnitude_lt _ hm
        · cases hm

theorem wp_memberKey_new (members : List (String × Value F)) (p : Parser) :
    wp (memberKey members) (fun key _ => key ∉ members.map Prod.fst) (fun _ _ => True) p := by
  unfold memberKey
  refine wp_skip fun _ q => wp_skip fun next q => ?_
  split
  · trivial
  · refine wp_skip fun _ q => wp_skip fun key q => ?_
    split
    · trivial
    · next hnew =>
      refine wp_skip fun _ q => wp_skip fun next q => ?_
      split
      · trivial
      · refine wp_skip fun _ q hmem => ?_
        obtain ⟨m, hm, heq⟩ := List.mem_map.mp hmem
        exact hnew (List.any_eq_true.mpr ⟨m, hm, beq_iff_eq.mpr heq⟩)

end SoundLemmas

open SoundLemmas

/-- A member that is new to an object. -/
theorem sound_snoc {members : List (String × Value F)} {key : String} {v : Value F}
    (hobject : Sound (.object members)) (hkey : key ∉ members.map Prod.fst) (hv : Sound v) :
    Sound (.object (members ++ [(key, v)])) := by
  cases hobject with
  | object _ hkeys hall =>
    refine .object _ ?_ fun m hm => ?_
    · rw [List.map_append, List.nodup_append]
      refine ⟨hkeys, List.nodup_singleton _, fun a ha b hb heq => ?_⟩
      rw [heq, List.mem_singleton.mp hb] at ha
      exact hkey ha
    · rcases List.mem_append.mp hm with hm | hm
      · exact hall m hm
      · cases List.mem_singleton.mp hm
        exact hv

/-- Each value that the parser returns is sound, by induction on its turns. -/
theorem sound_value (dec : Decimal F) (n : Nat) :
    (∀ p, wp (value dec n) (fun v _ => Sound v) (fun _ _ => True) p) ∧
    (∀ items : List (Value F), (∀ v ∈ items, Sound v) → ∀ p,
      wp (arrayItems dec n items) (fun out _ => ∀ v ∈ out, Sound v) (fun _ _ => True) p) ∧
    (∀ members : List (String × Value F), Sound (.object members) → ∀ p,
      wp (objectMembers dec n members) (fun out _ => Sound (.object out)) (fun _ _ => True) p) := by
  induction n with
  | zero =>
    refine ⟨fun p => ?_, fun _ _ p => ?_, fun _ _ p => ?_⟩
    · rw [value]
      trivial
    · rw [arrayItems]
      trivial
    · rw [objectMembers]
      trivial
  | succ n ih =>
    obtain ⟨hvalue, harray, hobject⟩ := ih
    refine ⟨fun p => ?_, fun items hitems p => ?_, fun members hmembers p => ?_⟩
    · rw [value]
      refine wp_skip fun _ q => wp_skip fun next q => ?_
      split
      · trivial
      refine wp_skip fun _ q => ?_
      split
      · exact wp_skip fun _ q => .null
      split
      · exact wp_skip fun _ q => .bool true
      split
      · exact wp_skip fun _ q => .bool false
      split
      · exact wp_skip fun _ q => wp_skip fun s q => .string s
      split
      · refine wp_skip fun empty q => ?_
        split
        · exact wp_seq (Q := fun out _ => ∀ v ∈ out, Sound v) (fun _ hv => nomatch hv)
            fun out q hout => wp_skip fun _ q => .array out hout
        · exact wp_seq (harray [] (fun _ hv => nomatch hv) q) fun out q hout =>
            wp_skip fun _ q => .array out hout
      split
      · refine wp_skip fun empty q => ?_
        have hnil : Sound (.object [] : Value F) := .object [] List.nodup_nil fun _ hm => nomatch hm
        split
        · exact wp_seq (Q := fun out _ => Sound (.object out)) hnil fun out q hout => wp_skip fun _ q => hout
        · exact wp_seq (hobject [] hnil q) fun out q hout => wp_skip fun _ q => hout
      split
      · exact wp_seq (wp_number_sound dec q) fun x q hx => .number x hx
      · trivial
    · rw [arrayItems]
      refine wp_skip fun _ q => wp_seq (hvalue q) fun item q hitem => wp_skip fun more q => ?_
      have hsnoc : ∀ v ∈ items ++ [item], Sound v := by
        intro v hv
        rcases List.mem_append.mp hv with hv | hv
        · exact hitems v hv
        · cases List.mem_singleton.mp hv
          exact hitem
      split
      · exact harray _ hsnoc q
      · exact hsnoc
    · rw [objectMembers]
      refine wp_skip fun _ q => wp_seq (wp_memberKey_new members q) fun key q hkey =>
        wp_seq (hvalue q) fun item q hitem => wp_skip fun more q => ?_
      have hsnoc := sound_snoc hmembers hkey hitem
      split
      · exact hobject _ hsnoc q
      · exact hsnoc

/-- A parsed document is sound. -/
theorem parse_sound {dec : Decimal F} {text : Bytes} {root : Value F} (h : parse dec text = .ok root) :
    Sound root := by
  rw [parse, parseWithBudget] at h
  split at h
  · cases h
  next =>
  have hdoc : wp (document dec (2 * text.length + 2)) (fun v _ => Sound v) (fun _ _ => True)
      { rest := text, depth := 0, budget := text.length * 64 + 65536 } := by
    unfold document
    refine wp_seq ((sound_value dec _).1 _) fun v q hv => wp_skip fun _ q => wp_skip fun last q => ?_
    split
    · trivial
    · exact hv
  unfold wp at hdoc
  split at hdoc
  · next hrun =>
    rw [hrun] at h
    cases h
    exact hdoc
  · next hrun =>
    rw [hrun] at h
    cases h

theorem sound_members {members : List (String × Value F)} (h : Sound (.object members)) :
    (members.map Prod.fst).Nodup ∧ ∀ m ∈ members, Sound m.2 := by
  cases h with
  | object _ hkeys hall => exact ⟨hkeys, hall⟩

theorem sound_get {v item : Value F} {key : String} (h : Sound v) (hget : v.get key = some item) :
    Sound item := by
  cases v with
  | object members =>
    obtain ⟨m, hm, rfl⟩ := Option.map_eq_some_iff.mp hget
    exact (sound_members h).2 m (List.mem_of_find?_eq_some hm)
  | null => cases hget
  | bool b => cases hget
  | number n => cases hget
  | string s => cases hget
  | array items => cases hget

/-- An unsigned number has 64 bits. -/
theorem asU64_lt {v : Value F} {n : Nat} (h : Sound v) (hn : v.asU64 = some n) : n < 2 ^ 64 := by
  cases h with
  | number x hx =>
    rw [Value.asU64, Number.asU64] at hn
    obtain ⟨_, hn⟩ := Option.ite_none_right_eq_some.mp hn
    obtain ⟨m, hm, hn⟩ := Option.bind_eq_some_iff.mp hn
    obtain ⟨_, hn⟩ := Option.ite_none_left_eq_some.mp hn
    exact Option.some.inj hn ▸ hx m hm
  | null => cases hn
  | bool b => cases hn
  | string s => cases hn
  | array items h => cases hn
  | object members hkeys h => cases hn

end OmtClient.Common.Json
