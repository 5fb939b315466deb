import Mathlib.Control.Monad.Basic
import OmtClient.Common.Calendar

/-!
# Reading a timestamp, checked

`parse_rfc3339` of `crates/omt-common/src/timefmt.rs` once more, with every index and every
operation on `u8`, `u32`, `i32`, `i64` and `usize` checked: in `Timefmt` these have a value
whatever their arguments are, here they end the program. The counter of the fraction's digits
is an `i32`, since nothing in the source says otherwise.

1. `checked_eq`: but for a fraction of `2 ^ 31` digits the checked parser does what
   `parseRfc3339` does, and at such a fraction the counter overflows.
2. `parse_zone`: what is accepted is a local time and an offset, and the instant is the local
   time less the offset.
3. `rfc3339_exact`: the round trip, the shift by the offset, and exactly when the parser
   returns.
-/

namespace OmtClient.Common.Rfc3339

open OmtClient.Lib Timefmt Timefmt.TimefmtLemmas Calendar Calendar.CalendarLemmas

/-! ## The checked parser -/

/-- Why a call ends the program. -/
inductive Panic
  | outOfRange
  | overflow
  deriving DecidableEq, Repr

/-- A computation that may end the program, and may return `None` early. -/
abbrev Run := OptionT (Except Panic)

/-- `?` on a value that is there or not. -/
def found {α : Type} (o : Option α) : Run α := OptionT.mk (.ok o)

def stop {α : Type} (panic : Panic) : Run α := OptionT.mk (.error panic)

/-- `return None` unless the condition holds. -/
def require (condition : Bool) : Run Unit := found (if condition then some () else none)

/-- `xs[i]`. -/
def index {α : Type} (xs : List α) (i : Nat) : Run α := xs[i]?.elim (stop .outOfRange) fun x => found (some x)

/-- A number that an unsigned type below `bound` holds, or the positive half of a signed one. -/
def fits (bound v : Nat) : Run Nat := if v < bound then found (some v) else stop .overflow

def u32 (v : Nat) : Run Nat := fits (2 ^ 32) v

def usize (v : Nat) : Run Nat := fits (2 ^ 64) v

/-- `a - b` on an unsigned type. -/
def less (a b : Nat) : Run Nat := if b ≤ a then found (some (a - b)) else stop .overflow

/-- An operation on `i64`. -/
def long (v : Option Int) : Run Int := v.elim (stop .overflow) fun v => found (some v)

/-- One digit more: `v * 10 + u32::from(c - b'0')`. -/
def pushDigit (v : Nat) (c : Byte) : Run Nat := do
  let tens ← u32 (v * 10)
  let d ← less c.toNat 48
  u32 (tens + d)

/-- `digits`. -/
def digitsAt (s : Bytes) (start n : Nat) : Run Nat := do
  let last ← usize (start + n)
  let field ← found (if start ≤ last ∧ last ≤ s.length then some ((s.take last).drop start) else none)
  field.foldlM (fun v c => if isDigit c then pushDigit v c else found none) 0

/-- `s[i]` against what may stand there. -/
def separator (s : Bytes) (i : Nat) (allowed : List Byte) : Run Unit := do
  let b ← index s i
  require (allowed.contains b)

/-- The days of a month: `DAYS_IN[month as usize - 1]` and the leap day. -/
def daysInAt (year : Int) (month : Nat) : Run Nat := do
  let i ← less month 1
  let days ← index [31, 28, 31, 30, 31, 30, 31, 31, 30, 31, 30, 31] i
  u32 (days + if month = 2 ∧ leap year then 1 else 0)

def dateTimeAt (s : Bytes) : Run Civil := do
  let year ← digitsAt s 0 4
  let month ← digitsAt s 5 2
  let day ← digitsAt s 8 2
  let hour ← digitsAt s 11 2
  let minute ← digitsAt s 14 2
  let second ← digitsAt s 17 2
  separator s 4 [45]
  separator s 7 [45]
  separator s 10 [84, 116]
  separator s 13 [58]
  separator s 16 [58]
  require (1 ≤ month ∧ month ≤ 12 ∧ ¬ day < 1)
  let dim ← daysInAt year month
  require (day ≤ dim ∧ hour ≤ 23 ∧ minute ≤ 59 ∧ second ≤ 60)
  found (some { year, month, day, hour, minute, second })

/-- Only the first nine digits are read. -/
def nextFrac (n frac : Nat) (c : Byte) : Run Nat := if n < 9 then pushDigit frac c else found (some frac)

/-- The loop over the digits of the fraction, from `p` on: where it stops, how many digits it
counted and what the first nine denote. -/
def fractionLoop : Bytes → Nat → Nat → Nat → Run (Nat × Nat × Nat)
  | [], p, n, frac => found (some (p, n, frac))
  | c :: rest, p, n, frac =>
    if isDigit c then do
      let frac ← nextFrac n frac c
      let n ← fits (2 ^ 31) (n + 1)
      let p ← usize (p + 1)
      fractionLoop rest p n frac
    else found (some (p, n, frac))

def fractionAt (s : Bytes) : Run (Nat × Nat) :=
  if s[19]? = some 46 then do
    let p ← usize (19 + 1)
    let (p, n, frac) ← fractionLoop (s.drop p) p 0 0
    require (n ≠ 0)
    -- for _ in n..9
    let frac ← (List.range' n (9 - n)).foldlM (fun frac _ => u32 (frac * 10)) frac
    found (some (frac, p))
  else found (some (0, 19))

def zoneAt (s : Bytes) (p : Nat) : Run (Int × Nat) :=
  match s[p]? with
  | none => found none
  | some sign =>
    if sign = 90 ∨ sign = 122 then do
      let p ← usize (p + 1)
      found (some (0, p))
    else if sign = 43 ∨ sign = 45 then do
      let hours ← usize (p + 1)
      let oh ← digitsAt s hours 2
      let minutes ← usize (p + 4)
      let om ← digitsAt s minutes 2
      let colon ← usize (p + 3)
      require (s[colon]? = some 58 ∧ oh ≤ 23 ∧ om ≤ 59)
      let p ← usize (p + 6)
      let hourSeconds ← u32 (oh * 3600)
      let minuteSeconds ← u32 (om * 60)
      let seconds ← u32 (hourSeconds + minuteSeconds)
      let offset ← long (i64 ((seconds : Int) * if sign = 45 then -1 else 1))
      found (some (offset, p))
    else found none

/-- `u32::from(hour * 3600 + minute * 60 + second)`. -/
def clockAt (c : Civil) : Run Nat := do
  let hours ← u32 (c.hour * 3600)
  let minutes ← u32 (c.minute * 60)
  let both ← u32 (hours + minutes)
  u32 (both + c.second)

/-- `parse_rfc3339`. -/
def parseRfc3339At (text : String) : Run (Int × Nat) := do
  let s := utf8 text
  let c ← dateTimeAt s
  let (frac, p) ← fractionAt s
  let (offset, p) ← zoneAt s p
  require (p = s.length)
  let days ← long (daysFromCivil64 c.year c.month c.day)
  let daySeconds ← long (i64 (days * 86400))
  let clock ← clockAt c
  let there ← long (i64 (daySeconds + clock))
  let seconds ← long (i64 (there - offset))
  found (some (seconds, frac))

/-! ## What is said about it -/

/-- A text that a `&str` can hold: no slice has more than `isize::MAX` bytes. -/
def Held (text : String) : Prop := (utf8 text).length < 2 ^ 63

/-- A date and time, a point and `2 ^ 31` digits. -/
def Endless (text : String) : Prop :=
  dateTime (utf8 text) ≠ none ∧ (utf8 text)[19]? = some 46 ∧
    2 ^ 31 ≤ (((utf8 text).drop 20).takeWhile isDigit).length

/-- How an offset from UTC is written. -/
inductive Zone
  | utc (lower : Bool)
  | shift (west : Bool) (hours : Fin 24) (minutes : Fin 60)

/-- The offset in seconds. -/
def Zone.seconds : Zone → Int
  | .utc _ => 0
  | .shift west hours minutes => (if west then -1 else 1) * (hours * 3600 + minutes * 60 : Nat)

def Zone.text : Zone → String
  | .utc lower => if lower then "z" else "Z"
  | .shift west hours minutes =>
    String.ofList ((if west then '-' else '+') :: pad 2 hours ++ ':' :: pad 2 minutes)

namespace Rfc3339Lemmas

/-! ## Nothing is at fault -/

section Run

variable {α β : Type} {bound v : Nat}

@[simp]
theorem found_bind (o : Option α) (f : α → Run β) : (found o >>= f) = o.elim (found none) f := by
  cases o <;> rfl

theorem fits_ok (h : v < bound) : fits bound v = found (some v) := if_pos h

theorem u32_ok (h : v < 2 ^ 32) : u32 v = found (some v) := if_pos h

theorem usize_ok (h : v < 2 ^ 64) : usize v = found (some v) := if_pos h

theorem index_ok {xs : List α} {i : Nat} (h : i < xs.length) (default : α) :
    index xs i = found (some (xs.getD i default)) := by
  rw [index, List.getD_eq_getElem?_getD, List.getElem?_eq_getElem h]
  rfl

theorem long_ok {v : Int} (h : IsI64 v) : long (i64 v) = found (some v) := by
  rw [i64_of h]
  rfl

end Run

theorem isDigit_range {c : Byte} (h : isDigit c = true) : 48 ≤ c.toNat ∧ c.toNat ≤ 57 := by
  rw [isDigit, Bool.and_eq_true, decide_eq_true_eq, decide_eq_true_eq] at h
  exact h

theorem pushDigit_ok {v : Nat} {c : Byte} (hc : isDigit c = true) (hv : v * 10 + 9 < 2 ^ 32) :
    pushDigit v c = found (some (v * 10 + (c.toNat - 48))) := by
  obtain ⟨hlow, hhigh⟩ := isDigit_range hc
  rw [pushDigit, u32_ok (by omega), found_bind, Option.elim_some, less, if_pos hlow, found_bind, Option.elim_some,
    u32_ok (by omega)]

/-- A short field of digits. -/
theorem fold_ok (field : Bytes) : ∀ v, (v + 1) * 10 ^ field.length ≤ 2 ^ 32 →
    field.foldlM (fun v c => if isDigit c then pushDigit v c else found none) v =
      found (field.foldlM (fun v c => if isDigit c then some (v * 10 + (c.toNat - 48)) else none) v) := by
  induction field with
  | nil => exact fun v _ => rfl
  | cons c field ih =>
    intro v hv
    rw [List.foldlM_cons, List.foldlM_cons]
    by_cases hc : isDigit c = true
    · rw [List.length_cons, Nat.pow_succ] at hv
      have hpos : 1 ≤ 10 ^ field.length := Nat.one_le_pow _ _ (by decide)
      have hten : (v + 1) * 10 ≤ 2 ^ 32 := by
        refine le_trans (Nat.le_mul_of_pos_right _ hpos) ?_
        rw [Nat.mul_assoc, Nat.mul_comm 10]
        exact hv
      obtain ⟨hlow, hhigh⟩ := isDigit_range hc
      rw [if_pos hc, if_pos hc, pushDigit_ok hc (by omega), found_bind, Option.elim_some]
      have hnext : v * 10 + (c.toNat - 48) + 1 ≤ (v + 1) * 10 := by omega
      refine ih _ ?_
      calc (v * 10 + (c.toNat - 48) + 1) * 10 ^ field.length
        _ ≤ (v + 1) * 10 * 10 ^ field.length := Nat.mul_le_mul_right _ hnext
        _ = (v + 1) * (10 ^ field.length * 10) := by rw [Nat.mul_assoc, Nat.mul_comm 10]
        _ ≤ 2 ^ 32 := hv
    · rw [if_neg hc, if_neg hc]
      rfl

theorem digitsAt_ok {s : Bytes} {start n : Nat} (hn : n ≤ 4) (hstart : start + n < 2 ^ 64) :
    digitsAt s start n = found (digits s start n) := by
  rw [digitsAt, usize_ok hstart, found_bind, Option.elim_some, digits]
  by_cases hfits : start + n ≤ s.length
  · have hfield : (s.take (start + n)).drop start = (s.drop start).take n := by
      rw [List.drop_take, Nat.add_sub_cancel_left]
    rw [if_pos ⟨Nat.le_add_right _ _, hfits⟩, found_bind, Option.elim_some, if_neg (Nat.not_lt.mpr hfits), hfield]
    refine fold_ok _ 0 ?_
    have hlen : ((s.drop start).take n).length ≤ 4 := by
      rw [List.length_take]
      omega
    exact le_trans (Nat.mul_le_mul_left _ (Nat.pow_le_pow_right (by decide) hlen)) (by decide)
  · rw [if_neg (fun h => hfits h.2), if_pos (Nat.not_le.mp hfits)]
    rfl

theorem separator_ok {s : Bytes} {i : Nat} (h : i < s.length) (allowed : List Byte) :
    separator s i allowed = require (allowed.contains (s.getD i 0)) := by
  rw [separator, index_ok h 0, found_bind, Option.elim_some]

theorem require_bind {α : Type} (condition : Bool) (f : Unit → Run α) :
    (require condition >>= f) = if condition then f () else found none := by
  rw [require, found_bind]
  cases condition <;> rfl

theorem digits_some {s : Bytes} {start n v : Nat} (h : digits s start n = some v) : start + n ≤ s.length := by
  rw [digits] at h
  by_cases hlt : s.length < start + n
  · rw [if_pos hlt] at h
    cases h
  · exact Nat.not_lt.mp hlt

theorem daysInAt_ok (year : Int) {month : Nat} (h : 1 ≤ month ∧ month ≤ 12) :
    daysInAt year month = found (some (daysIn year month)) := by
  have hle := daysIn_le year h.2
  have hmonth : month - 1 < [31, 28, 31, 30, 31, 30, 31, 31, 30, 31, 30, 31].length := by
    show month - 1 < 12
    omega
  rw [daysInAt, less, if_pos h.1, found_bind, Option.elim_some, index_ok hmonth 0, found_bind, Option.elim_some]
  exact u32_ok (lt_of_le_of_lt hle (by decide))

/-- The date and time is read without a fault. -/
theorem dateTimeAt_ok (s : Bytes) : dateTimeAt s = found (dateTime s) := by
  rw [dateTimeAt, dateTime]
  rw [digitsAt_ok (by decide) (by decide), digitsAt_ok (by decide) (by decide), digitsAt_ok (by decide) (by decide),
    digitsAt_ok (by decide) (by decide), digitsAt_ok (by decide) (by decide), digitsAt_ok (by decide) (by decide)]
  rcases digits s 0 4 with _ | year
  · rfl
  rcases digits s 5 2 with _ | month
  · rfl
  rcases digits s 8 2 with _ | day
  · rfl
  rcases digits s 11 2 with _ | hour
  · rfl
  rcases digits s 14 2 with _ | minute
  · rfl
  rcases hsecond : digits s 17 2 with _ | second
  · rfl
  have hlen : 19 ≤ s.length := digits_some hsecond
  simp only [found_bind, Option.elim_some, Option.bind_eq_bind, Option.bind_some]
  rw [separator_ok (by omega), separator_ok (by omega), separator_ok (by omega), separator_ok (by omega),
    separator_ok (by omega)]
  simp only [require_bind, List.contains_cons, List.contains_nil, Bool.or_false, beq_iff_eq, Bool.or_eq_true]
  by_cases h4 : s.getD 4 0 = 45
  swap
  · rw [if_neg h4, if_pos (.inl h4)]
  by_cases h7 : s.getD 7 0 = 45
  swap
  · rw [if_pos h4, if_neg h7, if_pos (.inr (.inl h7))]
  by_cases h10 : s.getD 10 0 = 84 ∨ s.getD 10 0 = 116
  swap
  · rw [if_pos h4, if_pos h7, if_neg h10, if_pos (.inr (.inr (.inl (not_or.mp h10))))]
  by_cases h13 : s.getD 13 0 = 58
  swap
  · rw [if_pos h4, if_pos h7, if_pos h10, if_neg h13, if_pos (.inr (.inr (.inr (.inl h13))))]
  by_cases h16 : s.getD 16 0 = 58
  swap
  · rw [if_pos h4, if_pos h7, if_pos h10, if_pos h13, if_neg h16, if_pos (.inr (.inr (.inr (.inr h16))))]
  have hplain : ¬ (s.getD 4 0 ≠ 45 ∨ s.getD 7 0 ≠ 45 ∨ (s.getD 10 0 ≠ 84 ∧ s.getD 10 0 ≠ 116) ∨ s.getD 13 0 ≠ 58 ∨
      s.getD 16 0 ≠ 58) := by
    rintro (h | h | h | h | h)
    · exact h h4
    · exact h h7
    · exact h10.elim h.1 h.2
    · exact h h13
    · exact h h16
  rw [if_pos h4, if_pos h7, if_pos h10, if_pos h13, if_pos h16, if_neg hplain]
  by_cases hdate : 1 ≤ month ∧ month ≤ 12 ∧ ¬ day < 1
  swap
  · rw [if_neg (decide_eq_true_iff.not.mpr hdate), if_pos (by omega)]
  rw [if_pos (decide_eq_true_iff.mpr hdate), if_neg (by omega), daysInAt_ok _ ⟨hdate.1, hdate.2.1⟩, found_bind,
    Option.elim_some]
  by_cases hclock : day ≤ daysIn year month ∧ hour ≤ 23 ∧ minute ≤ 59 ∧ second ≤ 60
  · rw [if_pos (decide_eq_true_iff.mpr hclock), if_neg (by omega)]
  · rw [if_neg (decide_eq_true_iff.not.mpr hclock), if_pos (by omega)]

/-- What digits denote behind a number. -/
def value (v : Nat) (ds : Bytes) : Nat := ds.foldl (fun v c => v * 10 + (c.toNat - 48)) v

theorem digitsValue_eq {ds : Bytes} (h : ∀ c ∈ ds, isDigit c = true) : digitsValue ds = some (value 0 ds) := by
  have hfrom : ∀ v, ds.foldlM (fun v c => if isDigit c then some (v * 10 + (c.toNat - 48)) else none) v =
      some (value v ds) := by
    induction ds with
    | nil => exact fun v => rfl
    | cons c ds ih =>
      intro v
      rw [List.foldlM_cons, if_pos (h c List.mem_cons_self)]
      exact ih (fun c hc => h c (List.mem_cons_of_mem _ hc)) _
  exact hfrom 0

theorem value_lt (ds : Bytes) (h : ∀ c ∈ ds, isDigit c = true) : ∀ v, value v ds + 1 ≤ (v + 1) * 10 ^ ds.length := by
  induction ds with
  | nil =>
    intro v
    exact Nat.le_of_eq (Nat.mul_one _).symm
  | cons c ds ih =>
    intro v
    obtain ⟨hlow, hhigh⟩ := isDigit_range (h c List.mem_cons_self)
    have hnext : v * 10 + (c.toNat - 48) + 1 ≤ (v + 1) * 10 := by omega
    calc value (v * 10 + (c.toNat - 48)) ds + 1
      _ ≤ (v * 10 + (c.toNat - 48) + 1) * 10 ^ ds.length := ih (fun c hc => h c (List.mem_cons_of_mem _ hc)) _
      _ ≤ (v + 1) * 10 * 10 ^ ds.length := Nat.mul_le_mul_right _ hnext
      _ = (v + 1) * 10 ^ (ds.length + 1) := by rw [Nat.mul_assoc, Nat.pow_succ, Nat.mul_comm 10]

/-- The loop counts the digits and reads those that are left to nine, unless it counts too far. -/
theorem fractionLoop_eq (rest : Bytes) : ∀ p n frac, n < 2 ^ 31 → p + rest.length < 2 ^ 64 →
    (n < 9 → (frac + 1) * 10 ^ (9 - n) ≤ 10 ^ 9) →
    fractionLoop rest p n frac =
      if n + (rest.takeWhile isDigit).length < 2 ^ 31 then
        found (some (p + (rest.takeWhile isDigit).length, n + (rest.takeWhile isDigit).length,
          value frac ((rest.takeWhile isDigit).take (9 - n))))
      else stop .overflow := by
  induction rest with
  | nil =>
    intro p n frac hn hp hfrac
    rw [fractionLoop, List.takeWhile_nil, List.take_nil]
    exact (if_pos hn).symm
  | cons c rest ih =>
    intro p n frac hn hp hfrac
    rw [fractionLoop]
    by_cases hc : isDigit c = true
    swap
    · rw [if_neg hc, List.takeWhile_cons_of_neg hc, List.take_nil]
      exact (if_pos hn).symm
    rw [if_pos hc, List.takeWhile_cons_of_pos hc, List.length_cons]
    rw [List.length_cons] at hp
    -- at the ninth digit and behind it the digits are only counted
    obtain ⟨next, hnext, hread, hbound⟩ : ∃ next, nextFrac n frac c = found (some next) ∧
        (value frac ((c :: rest.takeWhile isDigit).take (9 - n)) =
          value next ((rest.takeWhile isDigit).take (9 - (n + 1)))) ∧
        (n + 1 < 9 → (next + 1) * 10 ^ (9 - (n + 1)) ≤ 10 ^ 9) := by
      by_cases hnine : n < 9
      · have hle := hfrac hnine
        obtain ⟨k, hk⟩ : ∃ k, 9 - n = k + 1 := ⟨8 - n, by omega⟩
        rw [hk, Nat.pow_succ] at hle
        have hpos : 1 ≤ 10 ^ k := Nat.one_le_pow _ _ (by decide)
        obtain ⟨hlow, hhigh⟩ := isDigit_range hc
        have hten : (frac + 1) * 10 ≤ (frac + 1) * (10 ^ k * 10) :=
          Nat.mul_le_mul_left _ (Nat.le_mul_of_pos_left _ hpos)
        refine ⟨frac * 10 + (c.toNat - 48), ?_, ?_, fun _ => ?_⟩
        · rw [nextFrac, if_pos hnine, pushDigit_ok hc (by omega)]
        · rw [hk, show 9 - (n + 1) = k by omega]
          rfl
        · rw [show 9 - (n + 1) = k by omega]
          calc (frac * 10 + (c.toNat - 48) + 1) * 10 ^ k
            _ ≤ (frac + 1) * 10 * 10 ^ k := Nat.mul_le_mul_right _ (by omega)
            _ = (frac + 1) * (10 ^ k * 10) := by rw [Nat.mul_assoc, Nat.mul_comm 10]
            _ ≤ 10 ^ 9 := hle
      · refine ⟨frac, if_neg hnine, ?_, fun h => absurd h (by omega)⟩
        rw [show 9 - n = 0 by omega, show 9 - (n + 1) = 0 by omega]
        rfl
    rw [hnext, found_bind, Option.elim_some]
    by_cases hlast : n + 1 < 2 ^ 31
    · rw [fits_ok hlast, found_bind, Option.elim_some, usize_ok (by omega), found_bind, Option.elim_some,
        ih _ _ _ hlast (by omega) hbound, hread]
      simp only [Nat.add_assoc, Nat.add_comm 1]
    · rw [fits, if_neg hlast, if_neg (by omega)]
      rfl

/-- `for _ in n..9`. -/
theorem scale_ok (xs : List Nat) : ∀ frac, (frac + 1) * 10 ^ xs.length ≤ 10 ^ 9 →
    xs.foldlM (fun frac _ => u32 (frac * 10)) frac = found (some (frac * 10 ^ xs.length)) := by
  induction xs with
  | nil =>
    intro frac _
    rw [List.length_nil, Nat.pow_zero, Nat.mul_one]
    rfl
  | cons x xs ih =>
    intro frac h
    rw [List.length_cons, Nat.pow_succ, Nat.mul_comm (10 ^ xs.length)] at h
    have hpos : 1 ≤ 10 ^ xs.length := Nat.one_le_pow _ _ (by decide)
    have hten : (frac + 1) * 10 ≤ (frac + 1) * (10 * 10 ^ xs.length) :=
      Nat.mul_le_mul_left _ (Nat.le_mul_of_pos_right _ hpos)
    rw [List.foldlM_cons, u32_ok (by omega), found_bind, Option.elim_some, ih, List.length_cons, Nat.pow_succ,
      Nat.mul_assoc, Nat.mul_comm 10]
    calc (frac * 10 + 1) * 10 ^ xs.length
      _ ≤ (frac + 1) * 10 * 10 ^ xs.length := Nat.mul_le_mul_right _ (by omega)
      _ = (frac + 1) * (10 * 10 ^ xs.length) := Nat.mul_assoc _ _ _
      _ ≤ 10 ^ 9 := h

theorem takeWhile_digits (s : Bytes) : ∀ c ∈ s.takeWhile isDigit, isDigit c = true :=
  List.all_eq_true.mp List.all_takeWhile

/-- The fraction is read without a fault unless it has too many digits. -/
theorem fractionAt_eq {s : Bytes} (hs : s.length < 2 ^ 63) :
    fractionAt s = if s[19]? = some 46 ∧ 2 ^ 31 ≤ ((s.drop 20).takeWhile isDigit).length then stop .overflow
      else found (fraction s) := by
  rw [fractionAt, fraction]
  by_cases hpoint : s[19]? = some 46
  swap
  · rw [if_neg hpoint, if_neg hpoint, if_neg (fun h => hpoint h.1)]
  rw [if_pos hpoint, if_pos hpoint]
  have hdrop : (s.drop (19 + 1)).length ≤ s.length := by
    rw [List.length_drop]
    exact Nat.sub_le _ _
  rw [usize_ok (by decide), found_bind, Option.elim_some,
    fractionLoop_eq _ _ _ _ (by decide) (by omega) (fun _ => by decide)]
  dsimp only
  rw [Nat.zero_add]
  have hdigits := takeWhile_digits (s.drop 20)
  generalize (s.drop 20).takeWhile isDigit = ds at hdigits ⊢
  by_cases hlong : 2 ^ 31 ≤ ds.length
  · rw [if_neg (by omega), if_pos ⟨hpoint, hlong⟩]
    rfl
  rw [if_pos (by omega), if_neg (fun h => hlong h.2), found_bind, Option.elim_some, require_bind]
  by_cases hnone : ds = []
  · subst hnone
    rfl
  have hpos : ds.length ≠ 0 := fun h => hnone (List.length_eq_zero_iff.mp h)
  rw [if_pos (decide_eq_true hpos), if_neg hnone]
  have hfirst : ∀ c ∈ ds.take 9, isDigit c = true := fun c hc => hdigits c (List.mem_of_mem_take hc)
  have hbound := value_lt (ds.take 9) hfirst 0
  rw [List.length_take] at hbound
  rw [digitsValue_eq hfirst, scale_ok, found_bind, Option.elim_some, List.length_range']
  · rfl
  · rw [List.length_range']
    calc (value 0 (ds.take 9) + 1) * 10 ^ (9 - ds.length)
      _ ≤ (0 + 1) * 10 ^ min 9 ds.length * 10 ^ (9 - ds.length) := Nat.mul_le_mul_right _ hbound
      _ = 10 ^ (min 9 ds.length + (9 - ds.length)) := by rw [Nat.zero_add, Nat.one_mul, Nat.pow_add]
      _ = 10 ^ 9 := by rw [show min 9 ds.length + (9 - ds.length) = 9 by omega]
      _ ≤ 10 ^ 9 := Nat.le_refl _

theorem fraction_le {s : Bytes} {r : Nat × Nat} (h : fraction s = some r) : 19 ≤ r.2 ∧ r.2 ≤ 20 + s.length := by
  rw [fraction] at h
  by_cases hpoint : s[19]? = some 46
  · rw [if_pos hpoint] at h
    by_cases hnone : (s.drop 20).takeWhile isDigit = []
    · rw [if_pos hnone] at h
      cases h
    · rw [if_neg hnone] at h
      obtain ⟨v, -, rfl⟩ := Option.map_eq_some_iff.mp h
      have htake := (List.takeWhile_prefix isDigit (l := s.drop 20)).length_le
      rw [List.length_drop] at htake
      omega
  · rw [if_neg hpoint] at h
    cases h
    omega

/-- The zone is read without a fault. -/
theorem zoneAt_ok {s : Bytes} {p : Nat} (hp : p + 6 < 2 ^ 64) : zoneAt s p = found (zone s p) := by
  rw [zoneAt, zone]
  rcases s[p]? with _ | sign
  · rfl
  dsimp only
  by_cases hletter : sign = 90 ∨ sign = 122
  · rw [if_pos hletter, if_pos hletter, usize_ok (by omega)]
    rfl
  rw [if_neg hletter, if_neg hletter]
  by_cases hsign : sign = 43 ∨ sign = 45
  swap
  · rw [if_neg hsign, if_neg hsign]
  rw [if_pos hsign, if_pos hsign, usize_ok (by omega), found_bind, Option.elim_some, digitsAt_ok (by decide) (by omega)]
  rcases digits s (p + 1) 2 with _ | oh
  · rfl
  rw [found_bind, Option.elim_some, usize_ok (by omega), found_bind, Option.elim_some,
    digitsAt_ok (by decide) (by omega)]
  rcases digits s (p + 4) 2 with _ | om
  · rfl
  rw [found_bind, Option.elim_some, usize_ok (by omega), found_bind, Option.elim_some, require_bind]
  show _ = found (if _ then none else some _)
  by_cases hfields : s[p + 3]? = some 58 ∧ oh ≤ 23 ∧ om ≤ 59
  swap
  · rw [if_neg (decide_eq_true_iff.not.mpr hfields), if_pos]
    by_contra hnone
    exact hfields ⟨by_contra fun h => hnone (.inl h), by omega, by omega⟩
  obtain ⟨hcolon, hoh, hom⟩ := hfields
  have hrange : IsI64 (((oh * 3600 + om * 60 : Nat) : Int) * if sign = 45 then -1 else 1) := by
    split
    · exact ⟨by omega, by omega⟩
    · exact ⟨by omega, by omega⟩
  have hgood : ¬ (s[p + 3]? ≠ some 58 ∨ 23 < oh ∨ 59 < om) := by
    rintro (h | h | h)
    · exact h hcolon
    · omega
    · omega
  rw [if_pos (decide_eq_true ⟨hcolon, hoh, hom⟩), if_neg hgood,
    usize_ok (by omega), found_bind, Option.elim_some, u32_ok (by omega), found_bind, Option.elim_some,
    u32_ok (by omega), found_bind, Option.elim_some, u32_ok (by omega), found_bind, Option.elim_some, long_ok hrange]
  rfl

/-- A number read from digits has no more of them. -/
theorem digits_lt {s : Bytes} {start n v : Nat} (h : digits s start n = some v) : v < 10 ^ n := by
  have hfrom : ∀ (ds : Bytes) (a : Nat),
      ds.foldlM (fun v c => if isDigit c then some (v * 10 + (c.toNat - 48)) else none) a = some v →
      v + 1 ≤ (a + 1) * 10 ^ ds.length := by
    intro ds
    induction ds with
    | nil =>
      rintro a ⟨⟩
      exact Nat.le_of_eq (Nat.mul_one _).symm
    | cons c ds ih =>
      intro a ha
      rw [List.foldlM_cons] at ha
      by_cases hc : isDigit c = true
      · rw [if_pos hc] at ha
        obtain ⟨hlow, hhigh⟩ := isDigit_range hc
        calc v + 1
          _ ≤ (a * 10 + (c.toNat - 48) + 1) * 10 ^ ds.length := ih _ ha
          _ ≤ (a + 1) * 10 * 10 ^ ds.length := Nat.mul_le_mul_right _ (by omega)
          _ = (a + 1) * 10 ^ (ds.length + 1) := by rw [Nat.mul_assoc, Nat.pow_succ, Nat.mul_comm 10]
      · rw [if_neg hc] at ha
        cases ha
  rw [digits] at h
  by_cases hlt : s.length < start + n
  · rw [if_pos hlt] at h
    cases h
  · rw [if_neg hlt] at h
    have hlen : ((s.drop start).take n).length ≤ n := List.length_take_le _ _
    have hle := hfrom _ 0 h
    rw [Nat.zero_add, Nat.one_mul] at hle
    exact lt_of_lt_of_le hle (Nat.pow_le_pow_right (by decide) hlen)

/-- What the date and time of an accepted text are. -/
theorem dateTime_cases {s : Bytes} {c : Civil} (h : dateTime s = some c) :
    ∃ year month day hour minute second, c = ⟨(year : Nat), month, day, hour, minute, second⟩ ∧ year < 10 ^ 4 ∧
      1 ≤ month ∧ month ≤ 12 ∧ 1 ≤ day ∧ day ≤ 32 ∧ hour ≤ 23 ∧ minute ≤ 59 ∧ second ≤ 60 ∧ 19 ≤ s.length := by
  rw [dateTime] at h
  obtain ⟨year, hyear, h⟩ := Option.bind_eq_some_iff.mp h
  obtain ⟨month, -, h⟩ := Option.bind_eq_some_iff.mp h
  obtain ⟨day, -, h⟩ := Option.bind_eq_some_iff.mp h
  obtain ⟨hour, -, h⟩ := Option.bind_eq_some_iff.mp h
  obtain ⟨minute, -, h⟩ := Option.bind_eq_some_iff.mp h
  obtain ⟨second, hsecond, h⟩ := Option.bind_eq_some_iff.mp h
  split at h
  · cases h
  split at h
  · cases h
  split at h
  · cases h
  rename_i hplain hdate hclock
  have hdim := daysIn_le year (show month ≤ 12 by omega)
  exact ⟨year, month, day, hour, minute, second, (Option.some.inj h).symm, digits_lt hyear, by omega, by omega, by omega,
    by omega, by omega, by omega, by omega, digits_some hsecond⟩

/-- A day of the years 0 to 9999 and its neighbours. -/
theorem daysFromCivil_bounds {year month day : Nat} (hyear : year < 10 ^ 4) (hmonth : 1 ≤ month ∧ month ≤ 12)
    (hday : 1 ≤ day ∧ day ≤ 32) :
    -10 ^ 7 ≤ daysFromCivil year month day ∧ daysFromCivil year month day ≤ 10 ^ 7 := by
  unfold daysFromCivil
  dsimp only
  obtain ⟨mp, hmp, hlow, hhigh⟩ : ∃ mp : Int, mp = (if 2 < (month : Int) then (month : Int) - 3 else month + 9) ∧
      0 ≤ mp ∧ mp ≤ 11 := by
    refine ⟨_, rfl, ?_, ?_⟩ <;> split <;> omega
  obtain ⟨y, hy, hfirst, hlast⟩ : ∃ y : Int, y = year - (if month ≤ 2 then 1 else 0) ∧ -1 ≤ y ∧ y ≤ 10 ^ 4 := by
    refine ⟨_, rfl, ?_, ?_⟩ <;> split <;> omega
  rw [← hmp, ← hy]
  omega

theorem zone_bounds {s : Bytes} {p : Nat} {r : Int × Nat} (h : zone s p = some r) : -86400 < r.1 ∧ r.1 < 86400 := by
  rw [zone] at h
  rcases hs : s[p]? with _ | sign
  · rw [hs] at h
    cases h
  rw [hs] at h
  dsimp only at h
  by_cases hletter : sign = 90 ∨ sign = 122
  · rw [if_pos hletter] at h
    cases h
    exact ⟨by omega, by omega⟩
  rw [if_neg hletter] at h
  by_cases hsign : sign = 43 ∨ sign = 45
  swap
  · rw [if_neg hsign] at h
    cases h
  rw [if_pos hsign] at h
  obtain ⟨oh, -, h⟩ := Option.bind_eq_some_iff.mp h
  obtain ⟨om, -, h⟩ := Option.bind_eq_some_iff.mp h
  split at h
  · cases h
  rename_i hgood
  cases h
  split <;> omega

theorem clockAt_ok {c : Civil} (h : c.hour ≤ 23 ∧ c.minute ≤ 59 ∧ c.second ≤ 60) :
    clockAt c = found (some (c.hour * 3600 + c.minute * 60 + c.second)) := by
  obtain ⟨hhour, hminute, hsecond⟩ := h
  rw [clockAt, u32_ok (by omega), found_bind, Option.elim_some, u32_ok (by omega), found_bind, Option.elim_some,
    u32_ok (by omega), found_bind, Option.elim_some, u32_ok (by omega)]

end Rfc3339Lemmas

open Rfc3339Lemmas

/-- The checked parser is `parseRfc3339`, unless it counts the digits of a fraction too far. -/
theorem checked_eq {text : String} (held : Held text) (h : ¬ Endless text) :
    parseRfc3339At text = found (parseRfc3339 text) := by
  rw [parseRfc3339At, parseRfc3339]
  rw [dateTimeAt_ok]
  rcases hdate : dateTime (utf8 text) with _ | c
  · rfl
  have hshort : ¬ ((utf8 text)[19]? = some 46 ∧ 2 ^ 31 ≤ (((utf8 text).drop 20).takeWhile isDigit).length) :=
    fun hlong => h ⟨by rw [hdate]; simp, hlong.1, hlong.2⟩
  rw [found_bind, Option.elim_some, fractionAt_eq held, if_neg hshort]
  rcases hfraction : fraction (utf8 text) with _ | r
  · rfl
  obtain ⟨frac, p⟩ := r
  obtain ⟨-, hp⟩ := fraction_le hfraction
  rw [Held] at held
  rw [found_bind, Option.elim_some]
  dsimp only
  rw [zoneAt_ok (by omega)]
  rcases hzone : zone (utf8 text) p with _ | r
  · simp only [Option.bind_eq_bind, Option.bind_some, hzone]
    rfl
  obtain ⟨offset, q⟩ := r
  simp only [Option.bind_eq_bind, Option.bind_some, hzone]
  rw [found_bind, Option.elim_some]
  rw [require_bind]
  by_cases hend : q = (utf8 text).length
  swap
  · rw [if_neg (decide_eq_true_iff.not.mpr hend), if_pos hend]
  rw [if_pos (decide_eq_true hend), if_neg (fun hne => hne hend)]
  obtain ⟨year, month, day, hour, minute, second, rfl, hyear, hm1, hm2, hd1, hd2, hhour, hminute, hsecond, -⟩ :=
    dateTime_cases hdate
  obtain ⟨hfirst, hlast⟩ := daysFromCivil_bounds hyear ⟨hm1, hm2⟩ ⟨hd1, hd2⟩
  obtain ⟨hwest, heast⟩ := zone_bounds hzone
  dsimp only at hwest heast ⊢
  rw [daysFromCivil64_eq ⟨hm1, hm2, hd2⟩ ⟨by omega, by omega⟩ (by omega)]
  generalize daysFromCivil year month day = days at hfirst hlast ⊢
  show (long (i64 (days * 86400)) >>= _) = _
  rw [long_ok ⟨by omega, by omega⟩, found_bind, Option.elim_some, clockAt_ok ⟨hhour, hminute, hsecond⟩, found_bind,
    Option.elim_some]
  dsimp only
  rw [long_ok ⟨by omega, by omega⟩, found_bind, Option.elim_some, long_ok ⟨by omega, by omega⟩, found_bind,
    Option.elim_some]

/-- At a fraction that is too long the counter overflows. -/
theorem endless_overflows {text : String} (held : Held text) (h : Endless text) :
    parseRfc3339At text = stop .overflow := by
  obtain ⟨hdate, hlong⟩ := h
  obtain ⟨c, hc⟩ := Option.ne_none_iff_exists'.mp hdate
  rw [parseRfc3339At]
  rw [dateTimeAt_ok, hc, found_bind, Option.elim_some, fractionAt_eq held, if_pos hlong]
  rfl

/-! ## The offset -/

/-- What stands before the offset: the seconds of the local time since the epoch as if it were
UTC, and its nanoseconds. -/
def localTime (body : Bytes) : Option (Int × Nat) := do
  let c ← dateTime body
  let (frac, p) ← fraction body
  if p ≠ body.length then none
  else
    some (daysFromCivil c.year c.month c.day * 86400 + ((c.hour * 3600 + c.minute * 60 + c.second : Nat) : Int), frac)

namespace Rfc3339Lemmas

theorem digits_append {a : Bytes} {start n : Nat} (h : start + n ≤ a.length) (b : Bytes) :
    digits (a ++ b) start n = digits a start n := by
  rw [digits, digits, if_neg (by rw [List.length_append]; omega), if_neg (by omega), List.drop_append,
    List.take_append, List.length_drop, show n - (a.length - start) = 0 by omega, List.take_zero, List.append_nil]

theorem dateTime_append {a : Bytes} (h : 19 ≤ a.length) (b : Bytes) : dateTime (a ++ b) = dateTime a := by
  have hget (i : Nat) (hi : i < 19) : (a ++ b).getD i 0 = a.getD i 0 := by
    rw [List.getD_eq_getElem?_getD, List.getD_eq_getElem?_getD, List.getElem?_append_left (by omega)]
  rw [dateTime, dateTime, digits_append (by omega), digits_append (by omega), digits_append (by omega),
    digits_append (by omega), digits_append (by omega), digits_append (by omega), hget 4 (by decide), hget 7 (by decide),
    hget 10 (by decide), hget 13 (by decide), hget 16 (by decide)]

/-- The digits end where something else follows. -/
theorem digits_end {a : Bytes} {c : Byte} (h : 20 ≤ a.length) (hdigit : isDigit c = false) (b : Bytes) :
    ((a ++ c :: b).drop 20).takeWhile isDigit = (a.drop 20).takeWhile isDigit := by
  have hstop : (c :: b).takeWhile isDigit = [] := List.takeWhile_cons_of_neg (by rw [hdigit]; simp)
  rw [List.drop_append_of_le_length h, List.takeWhile_append, hstop, List.append_nil]
  split
  · rename_i hall
    exact ((List.takeWhile_prefix _).eq_of_length hall).symm
  · rfl

/-- Behind nineteen bytes there is a point where there is one without the zone. -/
theorem point_append {a : Bytes} {c : Byte} (h : 19 ≤ a.length) (hpoint : c ≠ 46) (b : Bytes) :
    (a ++ c :: b)[19]? = some 46 ↔ a[19]? = some 46 := by
  by_cases hlen : a.length = 19
  · rw [List.getElem?_append_right (by omega), hlen, Nat.sub_self, List.getElem?_cons_zero,
      List.getElem?_eq_none (by omega)]
    exact ⟨fun heq => absurd (Option.some.inj heq) hpoint, fun heq => by cases heq⟩
  · rw [List.getElem?_append_left (by omega)]

/-- The fraction ends there too. -/
theorem fraction_append {a : Bytes} {c : Byte} (h : 19 ≤ a.length) (hdigit : isDigit c = false) (hpoint : c ≠ 46)
    (b : Bytes) : fraction (a ++ c :: b) = fraction a := by
  rw [fraction, fraction]
  by_cases hthere : a[19]? = some 46
  · obtain ⟨hlen, -⟩ := List.getElem?_eq_some_iff.mp hthere
    rw [if_pos hthere, if_pos ((point_append h hpoint b).mpr hthere), digits_end hlen hdigit]
  · rw [if_neg hthere, if_neg (fun h' => hthere ((point_append h hpoint b).mp h'))]

theorem digits_drop (s : Bytes) (p i : Nat) {n : Nat} (hn : 0 < n) : digits s (p + i) n = digits (s.drop p) i n := by
  rw [digits, digits, List.length_drop, List.drop_drop]
  by_cases hshort : s.length < p + i + n
  · rw [if_pos hshort, if_pos (by omega)]
  · rw [if_neg hshort, if_neg (by omega)]

/-- The zone is a matter of what stands behind the local time. -/
theorem zone_drop (s : Bytes) (p : Nat) : zone s p = (zone (s.drop p) 0).map fun r => (r.1, p + r.2) := by
  have hget (i : Nat) : s[p + i]? = (s.drop p)[i]? := List.getElem?_drop.symm
  rw [zone, zone, ← hget 0, Nat.add_zero]
  rcases s[p]? with _ | sign
  · rfl
  dsimp only
  rw [hget 3, digits_drop _ _ 1 (by decide), digits_drop _ _ 4 (by decide), Nat.zero_add, Nat.zero_add, Nat.zero_add]
  by_cases hletter : sign = 90 ∨ sign = 122
  · rw [if_pos hletter, if_pos hletter]
    rfl
  rw [if_neg hletter, if_neg hletter]
  by_cases hsign : sign = 43 ∨ sign = 45
  swap
  · rw [if_neg hsign, if_neg hsign]
    rfl
  rw [if_pos hsign, if_pos hsign]
  rcases digits (s.drop p) 1 2 with _ | oh
  · rfl
  rcases digits (s.drop p) 4 2 with _ | om
  · rfl
  simp only [Option.bind_eq_bind, Option.bind_some]
  by_cases hbad : (s.drop p)[3]? ≠ some 58 ∨ 23 < oh ∨ 59 < om
  · rw [if_pos hbad, if_pos hbad]
    rfl
  · rw [if_neg hbad, if_neg hbad]
    rfl

theorem digit_of {c : Byte} (h : isDigit c = true) : c = digit (c.toNat - 48) ∧ c.toNat - 48 < 10 := by
  obtain ⟨hlow, hhigh⟩ := isDigit_range h
  refine ⟨?_, by omega⟩
  rw [digit, show 48 + (c.toNat - 48) = c.toNat by omega]
  exact (UInt8.ofNat_toNat).symm

/-- Two digits are those of their number. -/
theorem digitsValue_pair {a b : Byte} {v : Nat} (h : digitsValue [a, b] = some v) :
    a = digit (v / 10) ∧ b = digit (v % 10) := by
  rw [digitsValue, List.foldlM_cons] at h
  by_cases ha : isDigit a = true
  swap
  · rw [if_neg ha] at h
    cases h
  rw [if_pos ha] at h
  obtain ⟨w, hw, h⟩ := Option.bind_eq_some_iff.mp h
  cases hw
  rw [List.foldlM_cons] at h
  by_cases hb : isDigit b = true
  swap
  · rw [if_neg hb] at h
    cases h
  rw [if_pos hb] at h
  obtain ⟨w, hw, h⟩ := Option.bind_eq_some_iff.mp h
  cases hw
  cases h
  obtain ⟨heqa, hlta⟩ := digit_of ha
  obtain ⟨heqb, hltb⟩ := digit_of hb
  refine ⟨?_, ?_⟩
  · rw [show ((0 * 10 + (a.toNat - 48)) * 10 + (b.toNat - 48)) / 10 = a.toNat - 48 by omega]
    exact heqa
  · rw [show ((0 * 10 + (a.toNat - 48)) * 10 + (b.toNat - 48)) % 10 = b.toNat - 48 by omega]
    exact heqb

/-- The bytes of an offset. -/
def zoneBytes : Zone → Bytes
  | .utc lower => [if lower then 122 else 90]
  | .shift west hours minutes => [if west then 45 else 43, digit (hours / 10), digit (hours % 10), 58,
      digit (minutes / 10), digit (minutes % 10)]

theorem utf8_zone (z : Zone) : utf8 z.text = zoneBytes z := by
  cases z with
  | utc lower => cases lower <;> rfl
  | shift west hours minutes =>
    obtain ⟨h, hh⟩ := hours
    obtain ⟨m, hm⟩ := minutes
    rw [Zone.text, utf8_ofList, List.flatMap_append, List.flatMap_cons, List.flatMap_cons, pad_two _ (by omega),
      pad_two _ (by omega)]
    cases west <;> rfl

/-- An offset is read as its seconds. -/
theorem zone_zoneBytes (z : Zone) : zone (zoneBytes z) 0 = some (z.seconds, (zoneBytes z).length) := by
  cases z with
  | utc lower => cases lower <;> rfl
  | shift west hours minutes =>
    obtain ⟨h, hh⟩ := hours
    obtain ⟨m, hm⟩ := minutes
    have hours : digits (zoneBytes (.shift west ⟨h, hh⟩ ⟨m, hm⟩)) 1 2 = some h := digitsValue_two (by omega)
    have minutes : digits (zoneBytes (.shift west ⟨h, hh⟩ ⟨m, hm⟩)) 4 2 = some m := digitsValue_two (by omega)
    have colon : (zoneBytes (.shift west ⟨h, hh⟩ ⟨m, hm⟩))[3]? = some 58 := rfl
    have hgood : ¬ (some (58 : Byte) ≠ some 58 ∨ 23 < h ∨ 59 < m) := by
      rintro (hne | hlarge | hlarge)
      · exact hne rfl
      · omega
      · omega
    rw [zone, Nat.zero_add, Nat.zero_add, Nat.zero_add, hours, minutes, colon]
    simp only [Option.bind_eq_bind, Option.bind_some]
    cases west
    · show (if some (58 : Byte) ≠ some 58 ∨ 23 < h ∨ 59 < m then none
        else some (((h * 3600 + m * 60 : Nat) : Int) * 1, 6)) = some (1 * ((h * 3600 + m * 60 : Nat) : Int), 6)
      rw [if_neg hgood, Int.mul_comm]
    · show (if some (58 : Byte) ≠ some 58 ∨ 23 < h ∨ 59 < m then none
        else some (((h * 3600 + m * 60 : Nat) : Int) * -1, 6)) = some (-1 * ((h * 3600 + m * 60 : Nat) : Int), 6)
      rw [if_neg hgood, Int.mul_comm]

/-- What is read as an offset is one. -/
theorem zone_cases {t : Bytes} {o : Int} (h : zone t 0 = some (o, t.length)) : ∃ z : Zone, t = zoneBytes z ∧ o = z.seconds := by
  rw [zone] at h
  rcases t with _ | ⟨sign, rest⟩
  · cases h
  rw [List.getElem?_cons_zero] at h
  dsimp only at h
  by_cases hletter : sign = 90 ∨ sign = 122
  · rw [if_pos hletter, List.length_cons] at h
    obtain ⟨rfl, hlen⟩ := Prod.mk.inj (Option.some.inj h)
    obtain rfl : rest = [] := List.length_eq_zero_iff.mp (by omega)
    rcases hletter with rfl | rfl
    · exact ⟨.utc false, rfl, rfl⟩
    · exact ⟨.utc true, rfl, rfl⟩
  rw [if_neg hletter] at h
  by_cases hsign : sign = 43 ∨ sign = 45
  swap
  · rw [if_neg hsign] at h
    cases h
  rw [if_pos hsign] at h
  obtain ⟨oh, hoh, h⟩ := Option.bind_eq_some_iff.mp h
  obtain ⟨om, hom, h⟩ := Option.bind_eq_some_iff.mp h
  split at h
  · cases h
  rename_i hgood
  obtain ⟨rfl, hlen⟩ := Prod.mk.inj (Option.some.inj h)
  have hfive : rest.length = 5 := by
    rw [List.length_cons] at hlen
    omega
  obtain ⟨a, rest, rfl⟩ := List.exists_cons_of_length_eq_add_one hfive
  obtain ⟨b, rest, rfl⟩ := List.exists_cons_of_length_eq_add_one (Nat.succ.inj hfive)
  obtain ⟨c, d, e, rfl⟩ := List.length_eq_three.mp (Nat.succ.inj (Nat.succ.inj hfive))
  have hhours : digitsValue [a, b] = some oh := hoh
  have hminutes : digitsValue [d, e] = some om := hom
  obtain ⟨rfl, rfl⟩ := digitsValue_pair hhours
  obtain ⟨rfl, rfl⟩ := digitsValue_pair hminutes
  have hcolon : c = 58 := by
    by_contra hne
    exact hgood (.inl fun heq => hne (Option.some.inj heq))
  subst hcolon
  rcases hsign with rfl | rfl
  · refine ⟨.shift false ⟨oh, by omega⟩ ⟨om, by omega⟩, rfl, ?_⟩
    exact Int.mul_comm _ _
  · refine ⟨.shift true ⟨oh, by omega⟩ ⟨om, by omega⟩, rfl, ?_⟩
    exact Int.mul_comm _ _

/-- A text splits in one way into a body and an offset. -/
theorem zone_unique {a b : Bytes} {z z' : Zone} (h : a ++ zoneBytes z = b ++ zoneBytes z') :
    a = b ∧ z.seconds = z'.seconds := by
  have hdigit (k : Nat) (hk : k < 10) (lower : Bool) : digit k ≠ if lower then 122 else 90 := by
    intro heq
    have hd := (digit_spec hk).1
    rw [heq] at hd
    cases lower <;> cases hd
  have hsame : (zoneBytes z).length = (zoneBytes z').length := by
    have hlast := congrArg List.getLast? h
    cases z with
    | utc lower =>
      cases z' with
      | utc lower' => rfl
      | shift west' hours' minutes' =>
        rw [zoneBytes, zoneBytes, List.getLast?_append, List.getLast?_append] at hlast
        exact absurd (Option.some.inj hlast).symm (hdigit _ (Nat.mod_lt _ (by decide)) _)
    | shift west hours minutes =>
      cases z' with
      | utc lower' =>
        rw [zoneBytes, zoneBytes, List.getLast?_append, List.getLast?_append] at hlast
        exact absurd (Option.some.inj hlast) (hdigit _ (Nat.mod_lt _ (by decide)) _)
      | shift west' hours' minutes' => rfl
  obtain ⟨hbody, hzone⟩ := List.append_inj' h hsame
  refine ⟨hbody, ?_⟩
  have hread := zone_zoneBytes z
  rw [hzone, zone_zoneBytes z'] at hread
  exact (Prod.mk.inj (Option.some.inj hread)).1.symm

theorem zone_first (z : Zone) : ∃ c rest, zoneBytes z = c :: rest ∧ isDigit c = false ∧ c ≠ 46 ∧ c < 128 := by
  cases z with
  | utc lower => cases lower <;> exact ⟨_, _, rfl, by decide, by decide, by decide⟩
  | shift west hours minutes => cases west <;> exact ⟨_, _, rfl, by decide, by decide, by decide⟩

end Rfc3339Lemmas

/-- What is accepted is a local time and an offset, and the instant is their difference. -/
theorem parse_zone {text : String} {r : Int × Nat} : parseRfc3339 text = some r ↔
    ∃ (body : String) (z : Zone) (l : Int × Nat),
      text = body ++ z.text ∧ localTime (utf8 body) = some l ∧ r = (l.1 - z.seconds, l.2) := by
  constructor
  · intro h
    rw [parseRfc3339] at h
    obtain ⟨c, hc, h⟩ := Option.bind_eq_some_iff.mp h
    obtain ⟨⟨frac, p⟩, hfrac, h⟩ := Option.bind_eq_some_iff.mp h
    obtain ⟨⟨offset, q⟩, hzone, h⟩ := Option.bind_eq_some_iff.mp h
    dsimp only at hzone h
    by_cases hend : q = (utf8 text).length
    swap
    · rw [if_pos hend] at h
      cases h
    rw [if_neg (fun hne => hne hend)] at h
    cases h
    subst hend
    obtain ⟨hp, -⟩ := fraction_le hfrac
    rw [zone_drop] at hzone
    obtain ⟨⟨o, n⟩, hthere, hread⟩ := Option.map_eq_some_iff.mp hzone
    obtain ⟨rfl, hn⟩ := Prod.mk.inj hread
    have hlen : n = ((utf8 text).drop p).length := by
      rw [List.length_drop]
      omega
    rw [hlen] at hthere
    obtain ⟨z, hz, rfl⟩ := zone_cases hthere
    obtain ⟨first, rest, hfirst, hdigit, hpoint, hascii⟩ := zone_first z
    have hsplit : (utf8 text).take p ++ first :: rest = utf8 text := by
      rw [← hfirst, ← hz, List.take_append_drop]
    obtain ⟨body, hbody⟩ := (valid_around hascii ⟨text, hsplit.symm⟩).1
    have htext : text = body ++ z.text := utf8_injective (by rw [utf8_append, hbody, utf8_zone, hfirst, hsplit])
    have hple : ((utf8 text).take p).length = p := by
      refine List.length_take_of_le ?_
      rw [← hn]
      exact Nat.le_add_right _ _
    have hdate : dateTime (utf8 body) = some c := by
      rw [hbody, ← dateTime_append (by omega) (first :: rest), hsplit]
      exact hc
    have hfraction : fraction (utf8 body) = some (frac, (utf8 body).length) := by
      rw [hbody, ← fraction_append (by omega) hdigit hpoint rest, hsplit, hple]
      exact hfrac
    refine ⟨body, z, (_, frac), htext, ?_, rfl⟩
    rw [localTime, hdate]
    simp only [Option.bind_eq_bind, Option.bind_some, hfraction]
    exact if_neg (fun hne => hne rfl)
  · rintro ⟨body, z, l, rfl, hlocal, rfl⟩
    rw [localTime] at hlocal
    obtain ⟨c, hc, hlocal⟩ := Option.bind_eq_some_iff.mp hlocal
    obtain ⟨⟨frac, p⟩, hfrac, hlocal⟩ := Option.bind_eq_some_iff.mp hlocal
    dsimp only at hlocal
    by_cases hend : p = (utf8 body).length
    swap
    · rw [if_pos hend] at hlocal
      cases hlocal
    rw [if_neg (fun hne => hne hend)] at hlocal
    cases hlocal
    subst hend
    obtain ⟨_, _, _, _, _, _, -, -, -, -, -, -, -, -, -, hlen⟩ := dateTime_cases hc
    obtain ⟨first, rest, hfirst, hdigit, hpoint, -⟩ := zone_first z
    have hbytes : utf8 (body ++ z.text) = utf8 body ++ zoneBytes z := by
      rw [utf8_append, utf8_zone]
    have hdate : dateTime (utf8 body ++ zoneBytes z) = some c := (dateTime_append hlen _).trans hc
    have hfraction : fraction (utf8 body ++ zoneBytes z) = some (frac, (utf8 body).length) := by
      rw [hfirst, fraction_append hlen hdigit hpoint]
      exact hfrac
    have hzone : zone (utf8 body ++ zoneBytes z) (utf8 body).length =
        some (z.seconds, (utf8 body ++ zoneBytes z).length) := by
      rw [zone_drop, List.drop_left, zone_zoneBytes, List.length_append]
      rfl
    rw [parseRfc3339, hbytes]
    rw [hdate]
    simp only [Option.bind_eq_bind, Option.bind_some, hfraction, hzone]
    exact if_neg (fun hne => hne rfl)

/-! ## The parser as a whole -/

namespace Rfc3339Lemmas

theorem found_inj {α : Type} {o o' : Option α} (h : found o = found o') : o = o' := by
  have hrun := congrArg OptionT.run h
  exact Except.ok.inj hrun

theorem found_ne_stop {α : Type} {o : Option α} {panic : Panic} : found o ≠ stop panic := by
  intro h
  have hrun := congrArg OptionT.run h
  cases hrun

/-- What is found is found without counting too far. -/
theorem parse_of_found {text : String} {o : Option (Int × Nat)} (held : Held text)
    (h : parseRfc3339At text = found o) : ¬ Endless text ∧ parseRfc3339 text = o := by
  have hshort : ¬ Endless text := fun hlong => found_ne_stop (h.symm.trans (endless_overflows held hlong))
  exact ⟨hshort, found_inj ((checked_eq held hshort).symm.trans h)⟩

theorem short_of_length {text : String} (h : (utf8 text).length < 2 ^ 31) : Held text ∧ ¬ Endless text := by
  refine ⟨lt_trans h (by decide), ?_⟩
  rintro ⟨-, -, hlong⟩
  have htake := (List.takeWhile_prefix isDigit (l := (utf8 text).drop 20)).length_le
  rw [List.length_drop] at htake
  omega

/-- The digits that are counted stand before the offset. -/
theorem endless_body {body : String} {z : Zone} (h : 19 ≤ (utf8 body).length) : Endless (body ++ z.text) ↔
    dateTime (utf8 body) ≠ none ∧ (utf8 body)[19]? = some 46 ∧
      2 ^ 31 ≤ (((utf8 body).drop 20).takeWhile isDigit).length := by
  obtain ⟨first, rest, hfirst, hdigit, hpoint, -⟩ := zone_first z
  rw [Endless, utf8_append, utf8_zone, hfirst, dateTime_append h, point_append h hpoint]
  refine and_congr_right fun _ => and_congr_right fun hthere => ?_
  obtain ⟨hlen, -⟩ := List.getElem?_eq_some_iff.mp hthere
  rw [digits_end hlen hdigit]

/-- Another offset shifts the instant. -/
theorem shifts {body : String} {z z' : Zone} {t : Int} {nanos : Nat} (held : Held (body ++ z.text))
    (held' : Held (body ++ z'.text)) (h : parseRfc3339At (body ++ z.text) = found (some (t, nanos))) :
    parseRfc3339At (body ++ z'.text) = found (some (t + z.seconds - z'.seconds, nanos)) := by
  obtain ⟨hshort, hparse⟩ := parse_of_found held h
  obtain ⟨body', z'', l, htext, hlocal, hr⟩ := (parse_zone).mp hparse
  have hbytes := congrArg utf8 htext
  rw [utf8_append, utf8_append, utf8_zone, utf8_zone] at hbytes
  obtain ⟨hbody, hseconds⟩ := zone_unique hbytes
  rw [← hbody] at hlocal
  obtain ⟨rfl, rfl⟩ := Prod.mk.inj hr
  obtain ⟨c, hc, -⟩ := Option.bind_eq_some_iff.mp hlocal
  obtain ⟨_, _, _, _, _, _, -, -, -, -, -, -, -, -, -, hlen⟩ := dateTime_cases hc
  have hshort' : ¬ Endless (body ++ z'.text) := by
    rw [endless_body hlen] at hshort ⊢
    exact hshort
  rw [checked_eq held' hshort', (parse_zone).mpr ⟨body, z', l, rfl, hlocal, rfl⟩, hseconds, Int.sub_add_cancel]

end Rfc3339Lemmas

/-- The round trip at every instant whose year has four digits; the form of what is accepted, and
the shift by the offset; and exactly when the parser returns. -/
theorem rfc3339_exact (text : String) :
    (∀ seconds ms, 0 ≤ (split seconds).year → (split seconds).year ≤ 9999 →
      parseRfc3339At (rfc3339Millis seconds ms) = found (some (seconds, ms % 1000 * 10 ^ 6))) ∧
    (∀ r, Held text → parseRfc3339At text = found (some r) →
      ∃ (body : String) (z : Zone), text = body ++ z.text) ∧
    (∀ (body : String) (z z' : Zone) (t : Int) (nanos : Nat), Held (body ++ z.text) → Held (body ++ z'.text) →
      parseRfc3339At (body ++ z.text) = found (some (t, nanos)) →
      parseRfc3339At (body ++ z'.text) = found (some (t + z.seconds - z'.seconds, nanos))) ∧
    (Held text → ((∃ o, parseRfc3339At text = found o) ↔ ¬ Endless text)) := by
  refine ⟨fun seconds ms hlow hhigh => ?_, fun r held h => ?_, ?_, fun held => ⟨?_, fun h => ?_⟩⟩
  · obtain ⟨year, hyear⟩ : ∃ year : Nat, (split seconds).year = year := ⟨(split seconds).year.toNat, by omega⟩
    have hstamp := rfc3339Millis_stamp ms hyear (by omega)
    have hlen : (utf8 (rfc3339Millis seconds ms)).length < 2 ^ 31 := by
      rw [hstamp]
      show 24 < 2 ^ 31
      omega
    obtain ⟨held, hshort⟩ := short_of_length hlen
    rw [checked_eq held hshort, parse_rfc3339Millis ms ⟨hlow, hhigh⟩]
  · obtain ⟨-, hparse⟩ := parse_of_found held h
    obtain ⟨body, z, -, htext, -⟩ := parse_zone.mp hparse
    exact ⟨body, z, htext⟩
  · exact fun body z z' t nanos held held' h => shifts held held' h
  · rintro ⟨o, ho⟩
    exact (parse_of_found held ho).1
  · exact ⟨_, checked_eq held h⟩

/-- A date and time with `2 ^ 31` digits behind the point ends the program. -/
theorem digits_overflow : ¬ ∀ text, Held text → ∃ o, parseRfc3339At text = found o := by
  intro h
  obtain ⟨n, hn, hlow⟩ : ∃ n, n < 2 ^ 32 ∧ 2 ^ 31 ≤ n := ⟨2 ^ 31, by decide, Nat.le_refl _⟩
  have hbytes : utf8 ("2023-11-14T22:13:20." ++ String.ofList (List.replicate n '0')) =
      utf8 "2023-11-14T22:13:20." ++ List.replicate n 48 := by
    rw [utf8_append, utf8_ofList (List.replicate n '0'), List.flatMap_replicate]
    exact congrArg _ List.flatten_replicate_singleton
  have held : Held ("2023-11-14T22:13:20." ++ String.ofList (List.replicate n '0')) := by
    rw [Held, hbytes, List.length_append, List.length_replicate]
    show 20 + n < 2 ^ 63
    omega
  have hdigits : ((utf8 "2023-11-14T22:13:20." ++ List.replicate n 48).drop 20).takeWhile isDigit =
      List.replicate n 48 := by
    have hlen : (utf8 "2023-11-14T22:13:20.").length = 20 := by decide
    rw [← hlen, List.drop_left]
    exact List.takeWhile_replicate.trans (if_pos rfl)
  have hdate : dateTime (utf8 "2023-11-14T22:13:20.") = some ⟨2023, 11, 14, 22, 13, 20⟩ := by decide
  have hlong : Endless ("2023-11-14T22:13:20." ++ String.ofList (List.replicate n '0')) := by
    rw [Endless, hbytes, hdigits, List.length_replicate, dateTime_append (by decide), hdate,
      List.getElem?_append_left (by decide)]
    exact ⟨by simp, rfl, hlow⟩
  obtain ⟨o, ho⟩ := h _ held
  exact found_ne_stop (ho.symm.trans (endless_overflows held hlong))

end OmtClient.Common.Rfc3339
