import Mathlib.Algebra.Order.Ring.Int
import Mathlib.Data.List.Basic
import Mathlib.Data.List.Induction
import Mathlib.Data.List.Nodup
import Mathlib.Data.List.Perm.Subperm

/-!
# The rate limiter

`allow` of `crates/omt-web/src/app.rs`: a sliding window for every scope and peer. Each call
first lets every key's old admissions expire; a new key finds room in a table of bounded size
or is refused. A call stands at a reading of the clock, and the limit depends on the scope.

1. `limiter_fair`: over any calls with a monotone clock, what is allowed, what is refused and
   what the table holds.
-/

namespace OmtClient.Web

structure RateLimit where
  count : Nat
  windowMs : Nat
  deriving DecidableEq, Repr

namespace RateLimit

def rateKeys : Nat := 4096

structure RateEntry where
  scope : String
  peer : String
  /-- When the admissions expire, oldest first. -/
  expiries : List Nat
  deriving DecidableEq, Repr

/-- A scope and a peer. -/
abbrev Key := String × String

def RateEntry.key (e : RateEntry) : Key := (e.scope, e.peer)

/-- What expired is taken from every key, and keys with nothing left are forgotten. -/
def expire (now : Nat) (rates : List RateEntry) : List RateEntry :=
  (rates.map fun e => { e with expiries := e.expiries.filter (now < ·) }).filter fun e => !e.expiries.isEmpty

/-- The verdict on the entry at `i`. -/
def grant (rates : List RateEntry) (i now : Nat) (limit : RateLimit) : Bool × List RateEntry :=
  match rates[i]? with
  | none => (false, rates)
  | some e =>
    if limit.count ≤ e.expiries.length then (false, rates)
    else (true, rates.set i { e with expiries := e.expiries ++ [now + limit.windowMs] })

/-- `allow`. -/
def allow (rates : List RateEntry) (now : Nat) (scope peer : String) (limit : RateLimit) : Bool × List RateEntry :=
  let rates := expire now rates
  match rates.findIdx? fun e => e.scope == scope && e.peer == peer with
  | some i => grant rates i now limit
  | none =>
    -- fail closed: new keys cannot push out others
    if rateKeys ≤ rates.length then (false, rates)
    else grant (rates ++ [⟨scope, peer, []⟩]) rates.length now limit

/-! ## Runs -/

structure Call where
  time : Nat
  scope : String
  peer : String
  deriving DecidableEq, Repr

def Call.key (c : Call) : Key := (c.scope, c.peer)

/-- The table, and the calls so far with their verdicts. -/
structure Limiter where
  rates : List RateEntry
  log : List (Call × Bool)
  deriving DecidableEq, Repr

section

variable (limit : String → RateLimit)

def Limiter.step (s : Limiter) (c : Call) : Limiter :=
  let (verdict, rates) := allow s.rates c.time c.scope c.peer (limit c.scope)
  ⟨rates, s.log ++ [(c, verdict)]⟩

def run (calls : List Call) : Limiter := calls.foldl (Limiter.step limit) ⟨[], []⟩

/-- The verdict on a call that follows others. -/
def verdict (before : List Call) (c : Call) : Bool :=
  (allow (run limit before).rates c.time c.scope c.peer (limit c.scope)).1

/-- The calls of a key that were allowed. -/
def allowed (log : List (Call × Bool)) (k : Key) : List Call :=
  (log.filter fun p => p.2 && p.1.key == k).map (·.1)

/-- A call that does not find the table full, or has an entry in it. -/
def HasRoom (rates : List RateEntry) (c : Call) : Prop :=
  (expire c.time rates).length < rateKeys ∨ c.key ∈ (expire c.time rates).map RateEntry.key

/-- What the limiter owes to the calls. -/
structure Fair (calls : List Call) : Prop where
  /-- In a window's time, half-open, no more calls of a key are allowed than its limit says. -/
  window : ∀ k from_, ((allowed (run limit calls).log k).filter fun c =>
    decide (from_ ≤ c.time ∧ c.time < from_ + (limit k.1).windowMs)).length ≤ (limit k.1).count
  /-- A call is refused only when its key has used up its limit in the window before it, or
  when the table is full of other keys with admissions that have not expired. -/
  refused : ∀ before c after, calls = before ++ c :: after → verdict limit before c = false →
    (limit c.scope).count ≤ ((allowed (run limit before).log c.key).filter fun a =>
      decide (a.time ≤ c.time ∧ c.time < a.time + (limit c.scope).windowMs)).length ∨
    ((expire c.time (run limit before).rates).length = rateKeys ∧
      ∀ e ∈ expire c.time (run limit before).rates, e.key ≠ c.key ∧ e.expiries ≠ [] ∧ ∀ t ∈ e.expiries, c.time < t)
  bounded : (run limit calls).rates.length ≤ rateKeys
  distinct : ((run limit calls).rates.map RateEntry.key).Nodup
  /-- Where calls of a key find room, their verdicts are those of its calls alone. -/
  independent : ∀ k, (∀ before c after, calls = before ++ c :: after → c.key = k → HasRoom (run limit before).rates c) →
    (run limit calls).log.filter (·.1.key == k) = (run limit (calls.filter (·.key == k))).log

/-! ## What a call keeps -/

/-- When the admissions of a key expire. -/
def grants (log : List (Call × Bool)) (k : Key) : List Nat :=
  (allowed log k).map fun c => c.time + (limit k.1).windowMs

/-- The table holds, of what was allowed, at least all that has not expired. -/
structure Inv (last : Nat) (s : Limiter) : Prop where
  distinct : (s.rates.map RateEntry.key).Nodup
  bounded : s.rates.length ≤ rateKeys
  held : ∀ now, last ≤ now → ∀ e ∈ s.rates,
    e.expiries.filter (now < ·) = (grants limit s.log e.key).filter (now < ·)
  absent : ∀ now, last ≤ now → ∀ k, k ∉ s.rates.map RateEntry.key → (grants limit s.log k).filter (now < ·) = []
  past : ∀ p ∈ s.log, p.1.time ≤ last

/-- The admissions of a key that have not expired. -/
def live (log : List (Call × Bool)) (k : Key) (now : Nat) : List Nat := (grants limit log k).filter (now < ·)

namespace RateLimitLemmas

variable {limit} {rates : List RateEntry} {log : List (Call × Bool)} {s : Limiter} {c : Call} {k : Key} {last now : Nat}

theorem mem_expire {e' : RateEntry} :
    e' ∈ expire now rates ↔
      ∃ e ∈ rates, e' = { e with expiries := e.expiries.filter (now < ·) } ∧ e.expiries.filter (now < ·) ≠ [] := by
  unfold expire
  rw [List.mem_filter, List.mem_map, Bool.not_eq_true', List.isEmpty_eq_false_iff]
  constructor
  · rintro ⟨⟨e, he, rfl⟩, hne⟩
    exact ⟨e, he, rfl, hne⟩
  · rintro ⟨e, he, rfl, hne⟩
    exact ⟨⟨e, he, rfl⟩, hne⟩

theorem expire_keys (now : Nat) (rates : List RateEntry) :
    ((expire now rates).map RateEntry.key).Sublist (rates.map RateEntry.key) := by
  have hsub : (expire now rates).Sublist (rates.map fun e => { e with expiries := e.expiries.filter (now < ·) }) :=
    List.filter_sublist
  have hmap := hsub.map RateEntry.key
  rwa [List.map_map] at hmap

theorem length_expire_le (now : Nat) (rates : List RateEntry) : (expire now rates).length ≤ rates.length := by
  have := (expire_keys now rates).length_le
  rwa [List.length_map, List.length_map] at this

theorem filter_later {m n : Nat} (h : m ≤ n) (l : List Nat) : (l.filter (m < ·)).filter (n < ·) = l.filter (n < ·) := by
  rw [List.filter_filter]
  refine List.filter_congr fun t _ => ?_
  rw [Bool.and_eq_left_iff_imp, decide_eq_true_iff, decide_eq_true_iff]
  exact fun hn => Nat.lt_of_le_of_lt h hn

theorem inv_mono (h : Inv limit last s) (hnow : last ≤ now) : Inv limit now s where
  distinct := h.distinct
  bounded := h.bounded
  held n hn := h.held n (Nat.le_trans hnow hn)
  absent n hn := h.absent n (Nat.le_trans hnow hn)
  past p hp := Nat.le_trans (h.past p hp) hnow

/-- Letting admissions expire changes nothing that counts, and leaves exactly what has not. -/
theorem inv_expire (h : Inv limit now s) :
    Inv limit now ⟨expire now s.rates, s.log⟩ ∧ ∀ e ∈ expire now s.rates, e.expiries = live limit s.log e.key now := by
  refine ⟨⟨(expire_keys now s.rates).nodup h.distinct, Nat.le_trans (length_expire_le now s.rates) h.bounded, ?_, ?_,
    h.past⟩, ?_⟩
  · intro n hn e' he'
    obtain ⟨e, he, rfl, _⟩ := (mem_expire).mp he'
    dsimp only
    rw [filter_later hn]
    exact h.held n hn e he
  · intro n hn k hk
    by_cases hold : k ∈ s.rates.map RateEntry.key
    · obtain ⟨e, he, rfl⟩ := List.mem_map.mp hold
      have hnone : e.expiries.filter (now < ·) = [] := by
        by_contra hne
        exact hk (List.mem_map.mpr ⟨_, (mem_expire).mpr ⟨e, he, rfl, hne⟩, rfl⟩)
      dsimp only
      rw [← filter_later hn, ← h.held now (Nat.le_refl _) e he, hnone]
      rfl
    · exact h.absent n hn k hold
  · intro e' he'
    obtain ⟨e, he, rfl, _⟩ := (mem_expire).mp he'
    exact h.held now (Nat.le_refl _) e he

theorem findIdx_split {α : Type} {p : α → Bool} {l : List α} {i : Nat} (h : l.findIdx? p = some i) :
    ∃ as x bs, l = as ++ x :: bs ∧ i = as.length ∧ p x = true := by
  obtain ⟨hi, hp, _⟩ := List.findIdx?_eq_some_iff_getElem.mp h
  refine ⟨l.take i, l[i], l.drop (i + 1), ?_, ?_, hp⟩
  · rw [List.getElem_cons_drop, List.take_append_drop]
  · rw [List.length_take, Nat.min_eq_left (Nat.le_of_lt hi)]

theorem admit_split (as bs : List RateEntry) (e : RateEntry) (now : Nat) (l : RateLimit) :
    grant (as ++ e :: bs) as.length now l =
      if l.count ≤ e.expiries.length then (false, as ++ e :: bs)
      else (true, as ++ { e with expiries := e.expiries ++ [now + l.windowMs] } :: bs) := by
  rw [grant, List.getElem?_append_right (Nat.le_refl _), Nat.sub_self, List.getElem?_cons_zero]
  dsimp only
  split
  · rfl
  · rw [List.set_append_right _ _ (Nat.le_refl _), Nat.sub_self, List.set_cons_zero]

theorem key_iff {e : RateEntry} : (e.scope == c.scope && e.peer == c.peer) = true ↔ e.key = c.key := by
  rw [Bool.and_eq_true, beq_iff_eq, beq_iff_eq, RateEntry.key, Call.key, Prod.mk.injEq]

/-- What a call can do: it is refused by a full table, refused by its key's own admissions, or
allowed and noted with them. -/
theorem allow_cases (h : Inv limit c.time s) (hcount : 1 ≤ (limit c.scope).count) :
    (allow s.rates c.time c.scope c.peer (limit c.scope) = (false, expire c.time s.rates) ∧ ¬ HasRoom s.rates c) ∨
    (allow s.rates c.time c.scope c.peer (limit c.scope) = (false, expire c.time s.rates) ∧ HasRoom s.rates c ∧
      (limit c.scope).count ≤ (live limit s.log c.key c.time).length) ∨
    (HasRoom s.rates c ∧ (live limit s.log c.key c.time).length < (limit c.scope).count ∧
      ∃ as e bs, allow s.rates c.time c.scope c.peer (limit c.scope) =
          (true, as ++ { e with expiries := e.expiries ++ [c.time + (limit c.scope).windowMs] } :: bs) ∧
        e.key = c.key ∧ e.expiries = live limit s.log c.key c.time ∧
        (as ++ e :: bs = expire c.time s.rates ∨
          (as = expire c.time s.rates ∧ bs = [] ∧ c.key ∉ as.map RateEntry.key ∧ as.length < rateKeys))) := by
  obtain ⟨hinv, hlive⟩ := inv_expire h
  unfold allow
  dsimp only
  cases hfind : (expire c.time s.rates).findIdx? fun e => e.scope == c.scope && e.peer == c.peer with
  | some i =>
    obtain ⟨as, e, bs, hsplit, rfl, he⟩ := findIdx_split hfind
    have hkey : e.key = c.key := (key_iff).mp he
    have hmem : e ∈ expire c.time s.rates := by
      rw [hsplit]
      exact List.mem_append_right _ List.mem_cons_self
    have hroom : HasRoom s.rates c := .inr (hkey ▸ List.mem_map_of_mem hmem)
    have hexp := hlive e hmem
    rw [hkey] at hexp
    dsimp only
    rw [hsplit, admit_split, hexp]
    split
    · next hfull => exact .inr (.inl ⟨rfl, hroom, hfull⟩)
    · next hfree =>
      exact .inr (.inr ⟨hroom, Nat.not_le.mp hfree, as, e, bs, by rw [hexp], hkey, hexp, .inl rfl⟩)
  | none =>
    have hnew : c.key ∉ (expire c.time s.rates).map RateEntry.key := by
      intro hmem
      obtain ⟨e, he, hkey⟩ := List.mem_map.mp hmem
      have := List.findIdx?_eq_none_iff.mp hfind e he
      rw [(key_iff).mpr hkey] at this
      cases this
    dsimp only
    split
    · next hfull =>
      exact .inl ⟨rfl, fun hroom => hroom.elim (fun hlt => absurd hfull (Nat.not_le.mpr hlt)) hnew⟩
    · next hfree =>
      have hnone : live limit s.log c.key c.time = [] := hinv.absent c.time (Nat.le_refl _) c.key hnew
      rw [admit_split, if_neg (by exact Nat.not_le.mpr hcount)]
      refine .inr (.inr ⟨.inl (Nat.not_le.mp hfree), by rw [hnone]; exact hcount, _, ⟨c.scope, c.peer, []⟩, [], rfl, rfl,
        hnone.symm, .inr ⟨rfl, rfl, hnew, Nat.not_le.mp hfree⟩⟩)

/-- A call is allowed exactly when it has room and its key has not used up its limit. -/
theorem allow_iff (h : Inv limit c.time s) (hcount : 1 ≤ (limit c.scope).count) :
    (allow s.rates c.time c.scope c.peer (limit c.scope)).1 = true ↔
      HasRoom s.rates c ∧ (live limit s.log c.key c.time).length < (limit c.scope).count := by
  rcases allow_cases h hcount with ⟨heq, hroom⟩ | ⟨heq, _, hfull⟩ | ⟨hroom, hfree, as, e, bs, heq, _⟩
  · rw [heq]
    exact ⟨fun h => (nomatch h), fun h => absurd h.1 hroom⟩
  · rw [heq]
    exact ⟨fun h => (nomatch h), fun h => absurd hfull (Nat.not_le.mpr h.2)⟩
  · rw [heq]
    exact ⟨fun _ => ⟨hroom, hfree⟩, fun _ => rfl⟩

theorem allowed_append (log : List (Call × Bool)) (c : Call) (b : Bool) (k : Key) :
    allowed (log ++ [(c, b)]) k = allowed log k ++ if b = true ∧ c.key = k then [c] else [] := by
  unfold allowed
  rw [List.filter_append, List.map_append]
  congr 1
  by_cases hb : b = true ∧ c.key = k
  · rw [if_pos hb, List.filter_cons_of_pos (by simp [hb])]
    rfl
  · rw [if_neg hb, List.filter_cons_of_neg (by simpa using hb)]
    rfl

theorem grants_append (log : List (Call × Bool)) (c : Call) (b : Bool) (k : Key) :
    grants limit (log ++ [(c, b)]) k =
      grants limit log k ++ if b = true ∧ c.key = k then [c.time + (limit k.1).windowMs] else [] := by
  unfold grants
  rw [allowed_append, List.map_append]
  congr 1
  split <;> rfl

theorem past_append (h : ∀ p ∈ log, p.1.time ≤ c.time) (b : Bool) : ∀ p ∈ log ++ [(c, b)], p.1.time ≤ c.time := by
  intro p hp
  rcases List.mem_append.mp hp with hp | hp
  · exact h p hp
  · cases List.mem_singleton.mp hp
    exact Nat.le_refl _

/-- A refused call is noted, and changes nothing else. -/
theorem inv_refused (h : Inv limit c.time ⟨rates, log⟩) : Inv limit c.time ⟨rates, log ++ [(c, false)]⟩ := by
  have hsame (k : Key) : grants limit (log ++ [(c, false)]) k = grants limit log k := by
    rw [grants_append, if_neg (fun h => nomatch h.1), List.append_nil]
  refine ⟨h.distinct, h.bounded, fun n hn e he => ?_, fun n hn k hk => ?_, past_append h.past false⟩
  · dsimp only
    rw [hsame]
    exact h.held n hn e he
  · dsimp only
    rw [hsame]
    exact h.absent n hn k hk

/-- An allowed call is noted with its key. -/
theorem inv_allowed {as bs : List RateEntry} {e : RateEntry} (h : Inv limit c.time ⟨as ++ e :: bs, log⟩)
    (hkey : e.key = c.key) :
    Inv limit c.time ⟨as ++ { e with expiries := e.expiries ++ [c.time + (limit c.scope).windowMs] } :: bs,
      log ++ [(c, true)]⟩ := by
  have hkeys : (as ++ { e with expiries := e.expiries ++ [c.time + (limit c.scope).windowMs] } :: bs).map RateEntry.key =
      (as ++ e :: bs).map RateEntry.key := by
    rw [List.map_append, List.map_append]
    rfl
  have hother {k : Key} (hk : k ≠ c.key) : grants limit (log ++ [(c, true)]) k = grants limit log k := by
    rw [grants_append, if_neg (fun h => hk h.2.symm), List.append_nil]
  have hdistinct := h.distinct
  rw [List.map_append, List.map_cons] at hdistinct
  have hmiss : e.key ∉ as.map RateEntry.key ∧ e.key ∉ bs.map RateEntry.key := by
    rw [List.nodup_append, List.nodup_cons] at hdistinct
    exact ⟨fun hmem => hdistinct.2.2 _ hmem _ List.mem_cons_self rfl, hdistinct.2.1.1⟩
  refine ⟨by rw [hkeys]; exact h.distinct, by simpa using h.bounded, fun n hn x hx => ?_, fun n hn k hk => ?_,
    past_append h.past true⟩
  · dsimp only at hx ⊢
    rcases List.mem_append.mp hx with hx | hx
    · rw [hother fun heq => hmiss.1 (hkey ▸ heq ▸ List.mem_map_of_mem hx)]
      exact h.held n hn x (List.mem_append_left _ hx)
    · rcases List.mem_cons.mp hx with rfl | hx
      · have hheld := h.held n hn e (List.mem_append_right _ List.mem_cons_self)
        show (e.expiries ++ [c.time + (limit c.scope).windowMs]).filter (n < ·) =
          (grants limit (log ++ [(c, true)]) e.key).filter (n < ·)
        rw [grants_append, if_pos ⟨rfl, hkey.symm⟩, List.filter_append, List.filter_append, hheld, hkey]
        rfl
      · rw [hother fun heq => hmiss.2 (hkey ▸ heq ▸ List.mem_map_of_mem hx)]
        exact h.held n hn x (List.mem_append_right _ (List.mem_cons_of_mem _ hx))
  · dsimp only at hk ⊢
    rw [hkeys] at hk
    have hne : k ≠ c.key := by
      rintro rfl
      exact hk (hkey ▸ List.mem_map_of_mem (List.mem_append_right _ List.mem_cons_self))
    rw [hother hne]
    exact h.absent n hn k hk

/-- A key that is new to the table, with nothing noted yet. -/
theorem inv_new (h : Inv limit c.time ⟨rates, log⟩) (hnew : c.key ∉ rates.map RateEntry.key)
    (hroom : rates.length < rateKeys) : Inv limit c.time ⟨rates ++ [⟨c.scope, c.peer, []⟩], log⟩ := by
  refine ⟨?_, ?_, fun n hn e he => ?_, fun n hn k hk => ?_, h.past⟩
  · dsimp only
    rw [List.map_append, List.nodup_append]
    refine ⟨h.distinct, List.nodup_singleton _, ?_⟩
    intro a ha b hb hab
    cases List.mem_singleton.mp hb
    have hkey : a = c.key := hab
    exact hnew (hkey ▸ ha)
  · dsimp only
    rw [List.length_append]
    exact hroom
  · rcases List.mem_append.mp he with he | he
    · exact h.held n hn e he
    · cases List.mem_singleton.mp he
      exact (h.absent n hn c.key hnew).symm
  · refine h.absent n hn k fun hmem => hk ?_
    dsimp only
    rw [List.map_append]
    exact List.mem_append_left _ hmem

theorem step_inv (h : Inv limit c.time s) (hcount : 1 ≤ (limit c.scope).count) : Inv limit c.time (s.step limit c) := by
  obtain ⟨hinv, _⟩ := inv_expire h
  unfold Limiter.step
  rcases allow_cases h hcount with ⟨heq, _⟩ | ⟨heq, _⟩ | ⟨_, _, as, e, bs, heq, hkey, hexp, hsplit | ⟨rfl, rfl, hnew, hroom⟩⟩
  · rw [heq]
    exact inv_refused hinv
  · rw [heq]
    exact inv_refused hinv
  · rw [heq]
    rw [← hsplit] at hinv
    exact inv_allowed hinv hkey
  · rw [heq]
    refine inv_allowed ?_ hkey
    have hnone : e = ⟨c.scope, c.peer, []⟩ := by
      have hempty : e.expiries = [] := hexp.trans (hinv.absent c.time (Nat.le_refl _) c.key hnew)
      obtain ⟨scope, peer, expiries⟩ := e
      obtain ⟨rfl, rfl⟩ := Prod.mk.inj hkey
      rw [show expiries = [] from hempty]
    rw [hnone]
    exact inv_new hinv hnew hroom

theorem run_append (calls : List Call) (c : Call) : run limit (calls ++ [c]) = (run limit calls).step limit c := by
  rw [run, List.foldl_append]
  rfl

theorem run_log (calls : List Call) (c : Call) :
    (run limit (calls ++ [c])).log = (run limit calls).log ++ [(c, verdict limit calls c)] := by
  rw [run_append]
  rfl

theorem exists_last (calls : List Call) : ∃ now, ∀ c ∈ calls, c.time ≤ now := by
  induction calls with
  | nil => exact ⟨0, nofun⟩
  | cons c calls ih =>
    obtain ⟨now, hnow⟩ := ih
    refine ⟨max c.time now, fun a ha => ?_⟩
    rcases List.mem_cons.mp ha with rfl | ha
    · exact Nat.le_max_left _ _
    · exact Nat.le_trans (hnow a ha) (Nat.le_max_right _ _)

/-- What holds after any calls with a monotone clock. -/
theorem run_inv (hcount : ∀ scope, 1 ≤ (limit scope).count) (calls : List Call)
    (hmono : calls.Pairwise fun a b => a.time ≤ b.time) (hnow : ∀ c ∈ calls, c.time ≤ now) :
    Inv limit now (run limit calls) := by
  induction calls using List.reverseRecOn generalizing now with
  | nil => exact ⟨List.nodup_nil, Nat.zero_le _, fun _ _ _ he => (nomatch he), fun _ _ _ _ => rfl, nofun⟩
  | append_singleton calls c ih =>
    obtain ⟨hpair, _, hlast⟩ := List.pairwise_append.mp hmono
    have hinv := @ih c.time hpair fun a ha => hlast a ha c List.mem_cons_self
    rw [run_append]
    exact inv_mono (step_inv hinv (hcount c.scope)) (hnow c (List.mem_append_right _ List.mem_cons_self))

theorem length_live (h : ∀ p ∈ log, p.1.time ≤ now) :
    (live limit log k now).length = ((allowed log k).filter fun a =>
      decide (a.time ≤ now ∧ now < a.time + (limit k.1).windowMs)).length := by
  unfold live grants
  rw [List.filter_map, List.length_map]
  refine congrArg List.length (List.filter_congr fun a ha => ?_)
  obtain ⟨p, hp, rfl⟩ := List.mem_map.mp ha
  have hpast := h p (List.mem_filter.mp hp).1
  rw [Function.comp_apply, decide_eq_decide]
  exact ⟨fun hlt => ⟨hpast, hlt⟩, fun hlt => hlt.2⟩

/-- One more allowed call: those of its key that share a window with it have not expired. -/
theorem window_append {from_ : Nat} (hpast : ∀ p ∈ log, p.1.time ≤ c.time)
    (hfree : (live limit log c.key c.time).length < (limit c.scope).count)
    (h : ((allowed log c.key).filter fun a =>
      decide (from_ ≤ a.time ∧ a.time < from_ + (limit c.scope).windowMs)).length ≤ (limit c.scope).count) :
    ((allowed (log ++ [(c, true)]) c.key).filter fun a =>
      decide (from_ ≤ a.time ∧ a.time < from_ + (limit c.scope).windowMs)).length ≤ (limit c.scope).count := by
  rw [allowed_append, if_pos ⟨rfl, rfl⟩, List.filter_append, List.length_append]
  by_cases hin : from_ ≤ c.time ∧ c.time < from_ + (limit c.scope).windowMs
  · rw [length_live hpast] at hfree
    have hsub : ((allowed log c.key).filter fun a =>
        decide (from_ ≤ a.time ∧ a.time < from_ + (limit c.scope).windowMs)).length ≤
        ((allowed log c.key).filter fun a => decide (a.time ≤ c.time ∧ c.time < a.time + (limit c.scope).windowMs)).length := by
      rw [← List.countP_eq_length_filter, ← List.countP_eq_length_filter]
      refine List.countP_mono_left fun a ha hwin => ?_
      obtain ⟨p, hp, rfl⟩ := List.mem_map.mp ha
      rw [decide_eq_true_iff] at hwin ⊢
      exact ⟨hpast p (List.mem_filter.mp hp).1, by omega⟩
    rw [List.filter_cons_of_pos (by rw [decide_eq_true_iff]; exact hin)]
    exact Nat.lt_of_le_of_lt hsub hfree
  · rw [List.filter_cons_of_neg (by rw [decide_eq_true_iff]; exact hin)]
    exact h

theorem window_bound (hcount : ∀ scope, 1 ≤ (limit scope).count) (calls : List Call)
    (hmono : calls.Pairwise fun a b => a.time ≤ b.time) (k : Key) (from_ : Nat) :
    ((allowed (run limit calls).log k).filter fun c =>
      decide (from_ ≤ c.time ∧ c.time < from_ + (limit k.1).windowMs)).length ≤ (limit k.1).count := by
  induction calls using List.reverseRecOn with
  | nil => exact Nat.zero_le _
  | append_singleton calls c ih =>
    obtain ⟨hpair, _, hlast⟩ := List.pairwise_append.mp hmono
    have hinv := run_inv hcount calls hpair fun a ha => hlast a ha c List.mem_cons_self
    have hbefore := ih hpair
    rw [run_log]
    cases hverdict : verdict limit calls c with
    | false =>
      rw [allowed_append, if_neg (fun h => nomatch h.1), List.append_nil]
      exact hbefore
    | true =>
      by_cases hkey : c.key = k
      · subst hkey
        exact window_append hinv.past ((allow_iff hinv (hcount c.scope)).mp hverdict).2 hbefore
      · rw [allowed_append, if_neg (fun h => hkey h.2), List.append_nil]
        exact hbefore

/-- The table has no keys but those that were called. -/
theorem allow_keys (h : Inv limit c.time s) (hcount : 1 ≤ (limit c.scope).count) :
    ∀ k ∈ (s.step limit c).rates.map RateEntry.key, k = c.key ∨ k ∈ s.rates.map RateEntry.key := by
  intro k hk
  have hold {k : Key} (hk : k ∈ (expire c.time s.rates).map RateEntry.key) : k = c.key ∨ k ∈ s.rates.map RateEntry.key :=
    .inr ((expire_keys c.time s.rates).subset hk)
  unfold Limiter.step at hk
  rcases allow_cases h hcount with ⟨heq, _⟩ | ⟨heq, _⟩ | ⟨_, _, as, e, bs, heq, hkey, _, hsplit⟩
  · rw [heq] at hk
    exact hold hk
  · rw [heq] at hk
    exact hold hk
  · rw [heq] at hk
    dsimp only at hk
    have hkeys : (as ++ { e with expiries := e.expiries ++ [c.time + (limit c.scope).windowMs] } :: bs).map RateEntry.key =
        as.map RateEntry.key ++ e.key :: bs.map RateEntry.key := by
      rw [List.map_append]
      rfl
    rw [hkeys] at hk
    rcases hsplit with hsplit | ⟨rfl, rfl, _⟩
    · refine hold ?_
      rw [← hsplit, List.map_append]
      exact hk
    · rcases List.mem_append.mp hk with hk | hk
      · exact hold hk
      · rcases List.mem_cons.mp hk with hk | hk
        · exact .inl (hk.trans hkey)
        · cases hk

theorem run_keys (hcount : ∀ scope, 1 ≤ (limit scope).count) (calls : List Call)
    (hmono : calls.Pairwise fun a b => a.time ≤ b.time) (hall : ∀ c ∈ calls, c.key = k) :
    ∀ k' ∈ (run limit calls).rates.map RateEntry.key, k' = k := by
  induction calls using List.reverseRecOn with
  | nil => exact nofun
  | append_singleton calls c ih =>
    obtain ⟨hpair, _, hlast⟩ := List.pairwise_append.mp hmono
    have hinv := run_inv hcount calls hpair fun a ha => hlast a ha c List.mem_cons_self
    intro k' hk'
    rw [run_append] at hk'
    rcases allow_keys hinv (hcount c.scope) k' hk' with heq | hk'
    · exact heq.trans (hall c (List.mem_append_right _ List.mem_cons_self))
    · exact ih hpair (fun a ha => hall a (List.mem_append_left _ ha)) k' hk'

/-- The calls of one key alone always find room. -/
theorem hasRoom_alone (hcount : ∀ scope, 1 ≤ (limit scope).count) (calls : List Call)
    (hmono : calls.Pairwise fun a b => a.time ≤ b.time) (hall : ∀ a ∈ calls, a.key = k) (hnow : ∀ a ∈ calls, a.time ≤ now) :
    (expire now (run limit calls).rates).length < rateKeys := by
  have hinv := run_inv hcount calls hmono hnow
  have hsub : (run limit calls).rates.map RateEntry.key ⊆ [k] := fun k' hk' =>
    List.mem_singleton.mpr (run_keys hcount calls hmono hall k' hk')
  have hlen := (List.subperm_of_subset hinv.distinct hsub).length_le
  rw [List.length_map, List.length_singleton] at hlen
  exact Nat.lt_of_le_of_lt (Nat.le_trans (length_expire_le _ _) hlen) (by decide)

theorem allowed_filter (log : List (Call × Bool)) (k : Key) : allowed (log.filter (·.1.key == k)) k = allowed log k := by
  unfold allowed
  rw [List.filter_filter]
  refine congrArg _ (List.filter_congr fun p _ => ?_)
  cases p.2 <;> simp

/-- Where the calls of a key find room, they are judged as if they were alone. -/
theorem independent_run (hcount : ∀ scope, 1 ≤ (limit scope).count) (calls : List Call)
    (hmono : calls.Pairwise fun a b => a.time ≤ b.time) (k : Key)
    (hroom : ∀ before c after, calls = before ++ c :: after → c.key = k → HasRoom (run limit before).rates c) :
    (run limit calls).log.filter (·.1.key == k) = (run limit (calls.filter (·.key == k))).log := by
  induction calls using List.reverseRecOn with
  | nil => rfl
  | append_singleton calls c ih =>
    obtain ⟨hpair, _, hlast⟩ := List.pairwise_append.mp hmono
    have hnow : ∀ a ∈ calls, a.time ≤ c.time := fun a ha => hlast a ha c List.mem_cons_self
    have hbefore := ih hpair fun before a after heq hkey =>
      hroom before a (after ++ [c]) (by rw [heq, List.append_assoc, List.cons_append]) hkey
    rw [run_log, List.filter_append, List.filter_append, hbefore]
    by_cases hkey : c.key = k
    · rw [List.filter_cons_of_pos (by simpa using hkey), List.filter_cons_of_pos (by simpa using hkey), List.filter_nil,
        List.filter_nil, run_log]
      -- the same admissions of the key count in both runs, and both have room
      have hsub : (calls.filter (·.key == k)).Sublist calls := List.filter_sublist
      have hinv := run_inv hcount calls hpair hnow
      have hpair' := hpair.sublist hsub
      have hnow' : ∀ a ∈ calls.filter (·.key == k), a.time ≤ c.time := fun a ha => hnow a (hsub.subset ha)
      have hinv' := run_inv hcount _ hpair' hnow'
      have hall : ∀ a ∈ calls.filter (·.key == k), a.key = k := fun a ha => beq_iff_eq.mp (List.mem_filter.mp ha).2
      have hlive : live limit (run limit (calls.filter (·.key == k))).log c.key c.time =
          live limit (run limit calls).log c.key c.time := by
        unfold live grants
        rw [← hbefore, hkey, allowed_filter]
      have hsame : verdict limit calls c = verdict limit (calls.filter (·.key == k)) c := by
        rw [Bool.eq_iff_iff]
        refine (allow_iff hinv (hcount c.scope)).trans (Iff.trans ?_ (allow_iff hinv' (hcount c.scope)).symm)
        rw [hlive]
        have hroom₁ : HasRoom (run limit calls).rates c := hroom calls c [] rfl hkey
        have hroom₂ : HasRoom (run limit (calls.filter (·.key == k))).rates c :=
          .inl (hasRoom_alone hcount _ hpair' hall hnow')
        exact ⟨fun h => ⟨hroom₂, h.2⟩, fun h => ⟨hroom₁, h.2⟩⟩
      rw [hsame]
    · rw [List.filter_cons_of_neg (by simpa using hkey), List.filter_cons_of_neg (by simpa using hkey), List.filter_nil,
        List.filter_nil, List.append_nil, List.append_nil]

end RateLimitLemmas

open RateLimitLemmas

/-- **The rate limiter is a fair sliding window.** For any calls with a monotone clock and a
limit for each scope that allows at least one call: in no window's time are more calls of a
key allowed than its limit; a call is refused only by its own key's admissions in the window
before it or by a table full of other live keys; the table is bounded and its keys are
distinct; and calls that find room are judged by their own key's calls alone. -/
theorem limiter_fair (limit : String → RateLimit) (hcount : ∀ scope, 1 ≤ (limit scope).count) (calls : List Call)
    (hmono : calls.Pairwise fun a b => a.time ≤ b.time) : Fair limit calls := by
  obtain ⟨now, hnow⟩ := exists_last calls
  have hinv := run_inv hcount calls hmono hnow
  refine ⟨window_bound hcount calls hmono, fun before c after hcalls hverdict => ?_, hinv.bounded, hinv.distinct,
    independent_run hcount calls hmono⟩
  rw [hcalls] at hmono
  obtain ⟨hpair, _, hcross⟩ := List.pairwise_append.mp hmono
  have hbefore := run_inv hcount before hpair fun a ha => hcross a ha c List.mem_cons_self
  have hlive : (live limit (run limit before).log c.key c.time).length =
      ((allowed (run limit before).log c.key).filter fun a =>
        decide (a.time ≤ c.time ∧ c.time < a.time + (limit c.scope).windowMs)).length := length_live hbefore.past
  rw [← hlive]
  by_cases hroom : HasRoom (run limit before).rates c
  · refine .inl (Nat.not_lt.mp fun hfree => ?_)
    have := (allow_iff hbefore (hcount c.scope)).mpr ⟨hroom, hfree⟩
    exact Bool.false_ne_true (hverdict.symm.trans this)
  · refine .inr ⟨Nat.le_antisymm (Nat.le_trans (length_expire_le _ _) hbefore.bounded) ?_, fun e he => ⟨?_, ?_, ?_⟩⟩
    · exact Nat.not_lt.mp fun hlt => hroom (.inl hlt)
    · exact fun hkey => hroom (.inr (hkey ▸ List.mem_map_of_mem he))
    · obtain ⟨e', _, rfl, hne⟩ := mem_expire.mp he
      exact hne
    · obtain ⟨e', _, rfl, _⟩ := mem_expire.mp he
      exact fun t ht => of_decide_eq_true (List.mem_filter.mp ht).2

theorem login_limiter_fair :
    Fair (fun _ => ⟨2, 200⟩) [⟨0, "login", "10.0.0.1"⟩, ⟨10, "login", "10.0.0.1"⟩, ⟨20, "login", "10.0.0.1"⟩] ∧
      (run (fun _ => ⟨2, 200⟩) [⟨0, "login", "10.0.0.1"⟩, ⟨10, "login", "10.0.0.1"⟩, ⟨20, "login", "10.0.0.1"⟩]).log.map
        (·.2) = [true, true, false] :=
  ⟨limiter_fair _ (fun _ => by decide) _ (by decide), by decide⟩

end

end RateLimit

end OmtClient.Web
