import Mathlib.Tactic.Linarith
import OmtClient.Lib.Utf8

/-!
# Timestamps

`crates/omt-common/src/timefmt.rs`: the civil-from-days conversion, the RFC 3339
timestamp the status records carry, and its parser. Rust's `/` on `i64` truncates;
every dividend here is not negative, where it is Lean's `/`.

1. `year_spec`: the year that `civil_from_days` finds in its era.
2. `civil_days`: a day's date is a date, and counts back to the day.
3. `parse_rfc3339_millis`: a written timestamp reads back as its instant when its
   year has four digits, and not at all otherwise.
-/

namespace OmtClient.Common.Timefmt

open OmtClient.Lib

/-! ## The calendar -/

/-- `u32::try_from(v).unwrap_or(1)`. -/
def u32OrOne (v : Int) : Nat := if 0 ≤ v ∧ v < 2 ^ 32 then v.toNat else 1

/-- `civil_from_days`: the proleptic Gregorian date of a day count since
1970-01-01. -/
def civilFromDays (days : Int) : Int × Nat × Nat :=
  let shifted := days + 719468
  let era := shifted / 146097
  let dayOfEra := shifted - era * 146097
  let yearOfEra := (dayOfEra - dayOfEra / 1460 + dayOfEra / 36524 - dayOfEra / 146096) / 365
  let y := yearOfEra + era * 400
  let dayOfYear := dayOfEra - (365 * yearOfEra + yearOfEra / 4 - yearOfEra / 100)
  let monthPrime := (5 * dayOfYear + 2) / 153
  let d := dayOfYear - (153 * monthPrime + 2) / 5 + 1
  let m := monthPrime + if monthPrime < 10 then 3 else -9
  (if m ≤ 2 then y + 1 else y, u32OrOne m, u32OrOne d)

/-- `days_from_civil`: days since 1970-01-01 of a proleptic Gregorian date. -/
def daysFromCivil (year : Int) (month day : Nat) : Int :=
  let y := year - if month ≤ 2 then 1 else 0
  let era := y / 400
  let yearOfEra := y - era * 400
  let m : Int := month
  let dayOfYear := (153 * (if 2 < m then m - 3 else m + 9) + 2) / 5 + day - 1
  let dayOfEra := yearOfEra * 365 + yearOfEra / 4 - yearOfEra / 100 + dayOfYear
  era * 146097 + dayOfEra - 719468

structure Civil where
  year : Int
  month : Nat
  day : Nat
  hour : Nat
  minute : Nat
  second : Nat
  deriving DecidableEq, Repr

/-- `split`. -/
def split (seconds : Int) : Civil :=
  let days := seconds / 86400
  let rest := (seconds % 86400).toNat
  let (year, month, day) := civilFromDays days
  { year, month, day, hour := rest / 3600, minute := rest % 3600 / 60, second := rest % 60 }

def leap (y : Int) : Bool := (y % 4 = 0 ∧ y % 100 ≠ 0) ∨ y % 400 = 0

/-- The days of a month, `DAYS_IN` and the leap day. -/
def daysIn (year : Int) (month : Nat) : Nat :=
  [31, 28, 31, 30, 31, 30, 31, 31, 30, 31, 30, 31].getD (month - 1) 0 +
    if month = 2 ∧ leap year then 1 else 0

/-! ## The text -/

/-- A number padded with zeros to `width`. -/
def pad (width n : Nat) : List Char :=
  List.replicate (width - (Nat.toDigits 10 n).length) '0' ++ Nat.toDigits 10 n

/-- A signed number padded with zeros after its sign. -/
def padSigned (width : Nat) (z : Int) : List Char :=
  if z < 0 then '-' :: pad (width - 1) z.natAbs else pad width z.toNat

/-- `rfc3339_millis`: "YYYY-MM-DDTHH:MM:SS.mmmZ". -/
def rfc3339Millis (seconds : Int) (millis : Nat) : String :=
  let c := split seconds
  String.ofList (padSigned 4 c.year ++ '-' :: pad 2 c.month ++ '-' :: pad 2 c.day ++ 'T' :: pad 2 c.hour ++
    ':' :: pad 2 c.minute ++ ':' :: pad 2 c.second ++ '.' :: pad 3 (millis % 1000) ++ ['Z'])

def isDigit (b : Byte) : Bool := 48 ≤ b && b ≤ 57

/-- The number that a field of digits denotes. -/
def digitsValue (field : Bytes) : Option Nat :=
  field.foldlM (fun v c => if isDigit c then some (v * 10 + (c.toNat - 48)) else none) 0

/-- `digits`: the number in the `n` bytes from `start` on. -/
def digits (s : Bytes) (start n : Nat) : Option Nat :=
  if s.length < start + n then none else digitsValue ((s.drop start).take n)

/-- The nanoseconds of the fraction, and where the text goes on. -/
def fraction (s : Bytes) : Option (Nat × Nat) :=
  if s[19]? = some 46 then
    let ds := (s.drop 20).takeWhile isDigit
    if ds = [] then none
    else (digitsValue (ds.take 9)).map fun frac => (frac * 10 ^ (9 - ds.length), 20 + ds.length)
  else some (0, 19)

/-- The offset of the zone at `p` in seconds, and where the text goes on. -/
def zone (s : Bytes) (p : Nat) : Option (Int × Nat) :=
  match s[p]? with
  | none => none
  | some sign =>
    if sign = 90 ∨ sign = 122 then some (0, p + 1)
    else if sign = 43 ∨ sign = 45 then do
      let oh ← digits s (p + 1) 2
      let om ← digits s (p + 4) 2
      if s[p + 3]? ≠ some 58 ∨ 23 < oh ∨ 59 < om then none
      else some (((oh * 3600 + om * 60 : Nat) : Int) * if sign = 45 then -1 else 1, p + 6)
    else none

/-- The date and time before the fraction. -/
def dateTime (s : Bytes) : Option Civil := do
  let year ← digits s 0 4
  let month ← digits s 5 2
  let day ← digits s 8 2
  let hour ← digits s 11 2
  let minute ← digits s 14 2
  let second ← digits s 17 2
  if s.getD 4 0 ≠ 45 ∨ s.getD 7 0 ≠ 45 ∨ (s.getD 10 0 ≠ 84 ∧ s.getD 10 0 ≠ 116) ∨ s.getD 13 0 ≠ 58 ∨
      s.getD 16 0 ≠ 58 then none
  else if month < 1 ∨ 12 < month ∨ day < 1 then none
  -- a leap second is folded into the next second
  else if daysIn year month < day ∨ 23 < hour ∨ 59 < minute ∨ 60 < second then none
  else some { year, month, day, hour, minute, second }

/-- `parse_rfc3339`: the instant as seconds and nanoseconds since the epoch. -/
def parseRfc3339 (text : String) : Option (Int × Nat) := do
  let s := utf8 text
  let c ← dateTime s
  let (frac, p) ← fraction s
  let (offset, p) ← zone s p
  if p ≠ s.length then none
  else
    let days := daysFromCivil c.year c.month c.day
    some (days * 86400 + ((c.hour * 3600 + c.minute * 60 + c.second : Nat) : Int) - offset, frac)

/-! ## Days and dates -/

namespace TimefmtLemmas

/-- The days of an era before its year `y`. -/
def yearStart (y : Nat) : Nat := 365 * y + y / 4 - y / 100 + y / 400

/-- What `civil_from_days` takes for the year of a day of the era. -/
def yearOf (doe : Nat) : Nat := (doe - doe / 1460 + doe / 36524 - doe / 146096) / 365

theorem yearOf_mono {a b : Nat} (h : a ≤ b) (hb : b ≤ 146096) : yearOf a ≤ yearOf b := by
  refine Nat.div_le_div_right ?_
  have hlast (n : Nat) (hn : n ≤ 146096) : n / 146096 = if n = 146096 then 1 else 0 := by
    split <;> omega
  rw [hlast a (Nat.le_trans h hb), hlast b hb]
  split <;> split <;> omega

/-- The month and day that `civil_from_days` gives to a day of the year that starts
in March. -/
def monthOf (doy : Int) : Int :=
  (5 * doy + 2) / 153 + if (5 * doy + 2) / 153 < 10 then 3 else -9

def dayOf (doy : Int) : Int := doy - (153 * ((5 * doy + 2) / 153) + 2) / 5 + 1

/-- The first and the last day of a year of the era are in that year. The year has 365 days, or 366 if
February at its end has 29. Months have their lengths, February a 29th day only at the year's end, and the
day of the year is counted back. -/
theorem era_tables :
    (∀ y, y < 400 → (yearOf (yearStart y) = y ∧ yearOf (yearStart (y + 1) - 1) = y) ∧
      yearStart y = 365 * y + y / 4 - y / 100 ∧
      yearStart (y + 1) ≤ yearStart y + 366 ∧ (yearStart (y + 1) = yearStart y + 366 →
        ((y + 1) % 4 = 0 ∧ (y + 1) % 100 ≠ 0) ∨ (y + 1) % 400 = 0)) ∧
    ∀ n : Nat, n < 366 →
      1 ≤ monthOf n ∧ monthOf n ≤ 12 ∧ 1 ≤ dayOf n ∧ dayOf n ≤ 31 ∧
      (dayOf n).toNat ≤ [31, 28, 31, 30, 31, 30, 31, 31, 30, 31, 30, 31].getD ((monthOf n).toNat - 1) 0 +
        (if (monthOf n).toNat = 2 ∧ n = 365 then 1 else 0) ∧
      (153 * (if 2 < monthOf n then monthOf n - 3 else monthOf n + 9) + 2) / 5 + dayOf n - 1 = n := by
  decide +kernel

theorem yearOf_ends {y : Nat} (h : y < 400) : yearOf (yearStart y) = y ∧ yearOf (yearStart (y + 1) - 1) = y :=
  (era_tables.1 y h).1

/-- A year of the era has 365 days, or 366 if February at its end has 29. -/
theorem year_length {y : Nat} (h : y < 400) : yearStart y = 365 * y + y / 4 - y / 100 ∧
    yearStart (y + 1) ≤ yearStart y + 366 ∧ (yearStart (y + 1) = yearStart y + 366 →
      ((y + 1) % 4 = 0 ∧ (y + 1) % 100 ≠ 0) ∨ (y + 1) % 400 = 0) :=
  (era_tables.1 y h).2

theorem exists_year {k doe : Nat} (h : doe < yearStart k) :
    ∃ y, y < k ∧ yearStart y ≤ doe ∧ doe < yearStart (y + 1) := by
  induction k with
  | zero => exact absurd h (Nat.not_lt_zero _)
  | succ k ih =>
    by_cases hk : doe < yearStart k
    · obtain ⟨y, hy, hstart, hend⟩ := ih hk
      exact ⟨y, Nat.lt_succ_of_lt hy, hstart, hend⟩
    · exact ⟨k, Nat.lt_succ_self _, Nat.not_lt.mp hk, h⟩

/-- The formula gives the year the day lies in. -/
theorem year_spec {doe : Nat} (h : doe ≤ 146096) :
    yearOf doe < 400 ∧ yearStart (yearOf doe) ≤ doe ∧ doe < yearStart (yearOf doe + 1) := by
  have hall : doe < yearStart 400 := by
    show doe < 365 * 400 + 400 / 4 - 400 / 100 + 400 / 400
    omega
  obtain ⟨y, hy, hstart, hend⟩ := exists_year hall
  obtain ⟨hfirst, hlast⟩ := yearOf_ends hy
  have hlow : y ≤ yearOf doe := by
    rw [← hfirst]
    exact yearOf_mono hstart h
  have hhigh : yearOf doe ≤ y := by
    rw [← hlast]
    refine yearOf_mono (Nat.le_sub_one_of_lt hend) ?_
    unfold yearStart
    omega
  have hyear : yearOf doe = y := Nat.le_antisymm hhigh hlow
  rw [hyear]
  exact ⟨hy, hstart, hend⟩

theorem u32OrOne_eq {v : Int} (h : 1 ≤ v ∧ v ≤ 31) : u32OrOne v = v.toNat := by
  refine if_pos ⟨by omega, ?_⟩
  calc v ≤ 31 := h.2
    _ < 2 ^ 32 := by decide

/-- A day and its place in its era: the year of the era and the day of that year. -/
theorem civilFromDays_eq (days : Int) : ∃ (era : Int) (y doy : Nat),
    y < 400 ∧ doy < 366 ∧ (doy = 365 → leap (y + 1 + era * 400) = true) ∧
    days = era * 146097 + (y * 365 + y / 4 - y / 100 + doy : Nat) - 719468 ∧
    civilFromDays days = (if monthOf doy ≤ 2 then y + era * 400 + 1 else y + era * 400,
      u32OrOne (monthOf doy), u32OrOne (dayOf doy)) := by
  obtain ⟨era, doe, hera, hdoe, hdays⟩ : ∃ (era : Int) (doe : Nat), era = (days + 719468) / 146097 ∧
      doe ≤ 146096 ∧ days + 719468 - era * 146097 = doe := by
    refine ⟨(days + 719468) / 146097, ((days + 719468) % 146097).toNat, rfl, by omega, by omega⟩
  obtain ⟨hy, hstart, hend⟩ := year_spec hdoe
  have hyear : ((doe : Int) - doe / 1460 + doe / 36524 - doe / 146096) / 365 = yearOf doe := by
    unfold yearOf
    omega
  obtain ⟨hfirst, hlength, hlong⟩ := year_length hy
  have hcivil : civilFromDays days = (if monthOf ((doe : Int) - (365 * (yearOf doe : Int) +
        (yearOf doe : Int) / 4 - (yearOf doe : Int) / 100)) ≤ 2 then yearOf doe + era * 400 + 1
        else yearOf doe + era * 400,
      u32OrOne (monthOf ((doe : Int) - (365 * (yearOf doe : Int) + (yearOf doe : Int) / 4 -
        (yearOf doe : Int) / 100))),
      u32OrOne (dayOf ((doe : Int) - (365 * (yearOf doe : Int) + (yearOf doe : Int) / 4 -
        (yearOf doe : Int) / 100)))) := by
    unfold civilFromDays
    dsimp only
    rw [← hera, hdays, hyear]
    rfl
  clear hyear
  generalize yearOf doe = y at *
  have hdoy : (doe : Int) - (365 * (y : Int) + (y : Int) / 4 - (y : Int) / 100) =
      (doe - yearStart y : Nat) := by omega
  rw [hdoy] at hcivil
  refine ⟨era, y, doe - yearStart y, hy, by omega, fun hlast => ?_, by omega, hcivil⟩
  have hleap := hlong (by omega)
  rw [leap, decide_eq_true_eq]
  omega

end TimefmtLemmas

open TimefmtLemmas

/-- The date of a day is a date of the calendar, and counts back to the day. -/
theorem civil_days (days : Int) :
    1 ≤ (civilFromDays days).2.1 ∧ (civilFromDays days).2.1 ≤ 12 ∧ 1 ≤ (civilFromDays days).2.2 ∧
    (civilFromDays days).2.2 ≤ daysIn (civilFromDays days).1 (civilFromDays days).2.1 ∧
    daysFromCivil (civilFromDays days).1 (civilFromDays days).2.1 (civilFromDays days).2.2 = days := by
  obtain ⟨era, y, doy, hy, hdoy, hleap, hdays, heq⟩ := civilFromDays_eq days
  obtain ⟨hm1, hm12, hd1, hd31, hdim, hback⟩ := era_tables.2 doy hdoy
  obtain ⟨m, hm⟩ : ∃ m : Nat, monthOf doy = m := ⟨(monthOf doy).toNat, by omega⟩
  obtain ⟨d, hd⟩ : ∃ d : Nat, dayOf doy = d := ⟨(dayOf doy).toNat, by omega⟩
  rw [heq, u32OrOne_eq ⟨hm1, by omega⟩, u32OrOne_eq ⟨hd1, hd31⟩]
  rw [hm] at hm1 hm12 hdim hback ⊢
  rw [hd] at hd1 hd31 hdim hback ⊢
  simp only [Int.toNat_natCast] at hdim ⊢
  refine ⟨by omega, by omega, by omega, Nat.le_trans hdim (Nat.add_le_add_left ?_ _), ?_⟩
  · -- the leap day is there only in a leap year
    by_cases hlast : m = 2 ∧ doy = 365
    · have hyear := hleap hlast.2
      have hfeb : (m : Int) ≤ 2 := by omega
      rw [if_pos hlast, if_pos hfeb, add_right_comm, if_pos ⟨hlast.1, hyear⟩]
    · rw [if_neg hlast]
      exact Nat.zero_le _
  · unfold daysFromCivil
    dsimp only
    have hera : (if (m : Int) ≤ 2 then (y : Int) + era * 400 + 1 else y + era * 400) -
        (if m ≤ 2 then 1 else 0) = y + era * 400 := by
      split <;> split <;> omega
    rw [hera, show ((y : Int) + era * 400) / 400 = era by omega, hdays]
    omega

/-! ## Reading a timestamp back -/

namespace TimefmtLemmas

def digit (k : Nat) : Byte := UInt8.ofNat (48 + k)

theorem digit_spec {k : Nat} (h : k < 10) : isDigit (digit k) = true ∧ (digit k).toNat - 48 = k := by
  have hall : ∀ k, k < 10 → isDigit (digit k) = true ∧ (digit k).toNat - 48 = k := by decide
  exact hall k h

theorem encode_digitChar : ∀ k, k < 10 → encode k.digitChar = [digit k] := by decide

theorem pad_one {n : Nat} (h : n < 10) : (pad 1 n).flatMap encode = [digit n] := by
  rw [pad, Nat.toDigits_of_lt_base h]
  show ([n.digitChar] : List Char).flatMap encode = _
  rw [List.flatMap_cons, encode_digitChar n h]
  rfl

/-- A wider field is a narrower one and its last digit. -/
theorem pad_succ (w n : Nat) :
    (pad (w + 2) n).flatMap encode = (pad (w + 1) (n / 10)).flatMap encode ++ [digit (n % 10)] := by
  have hlast : ([(n % 10).digitChar] : List Char).flatMap encode = [digit (n % 10)] := by
    rw [List.flatMap_cons, encode_digitChar _ (Nat.mod_lt _ (by decide))]
    rfl
  rw [← hlast, ← List.flatMap_append]
  congr 1
  by_cases hn : n < 10
  · rw [pad, pad, Nat.toDigits_of_lt_base hn, Nat.div_eq_of_lt hn, Nat.toDigits_zero, Nat.mod_eq_of_lt hn]
    show List.replicate (w + 1) '0' ++ _ = List.replicate w '0' ++ ['0'] ++ _
    rw [List.replicate_succ']
  · rw [pad, pad, Nat.toDigits_of_base_le (by decide) (Nat.not_lt.mp hn), List.length_append,
      List.length_singleton, show w + 2 = w + 1 + 1 from rfl, Nat.add_sub_add_right, List.append_assoc]

theorem pad_two (n : Nat) (h : n < 100) :
    (pad 2 n).flatMap encode = [digit (n / 10), digit (n % 10)] := by
  rw [pad_succ, pad_one (by omega)]
  rfl

theorem pad_three (n : Nat) (h : n < 1000) :
    (pad 3 n).flatMap encode = [digit (n / 100), digit (n / 10 % 10), digit (n % 10)] := by
  rw [pad_succ, pad_two _ (by omega), Nat.div_div_eq_div_mul]
  rfl

theorem pad_four (n : Nat) (h : n < 10000) : (pad 4 n).flatMap encode =
    [digit (n / 1000), digit (n / 100 % 10), digit (n / 10 % 10), digit (n % 10)] := by
  rw [pad_succ, pad_three _ (by omega), Nat.div_div_eq_div_mul, Nat.div_div_eq_div_mul]
  rfl

theorem daysIn_le (year : Int) {month : Nat} (h : month ≤ 12) : daysIn year month ≤ 32 := by
  have htable : ∀ m, m ≤ 12 → [31, 28, 31, 30, 31, 30, 31, 31, 30, 31, 30, 31].getD (m - 1) 0 ≤ 31 := by
    decide
  show _ + _ ≤ 31 + 1
  refine Nat.add_le_add (htable month h) ?_
  split
  · exact Nat.le_refl _
  · exact Nat.zero_le _

theorem digitsValue_snoc {ds : Bytes} {v k : Nat} (h : digitsValue ds = some v) (hk : k < 10) :
    digitsValue (ds ++ [digit k]) = some (v * 10 + k) := by
  obtain ⟨hd, hv⟩ := digit_spec hk
  unfold digitsValue at h ⊢
  rw [List.foldlM_append, h]
  simp [hd, hv]

theorem digitsValue_two {n : Nat} (h : n < 100) :
    digitsValue [digit (n / 10), digit (n % 10)] = some n := by
  have hone : digitsValue ([] ++ [digit (n / 10)]) = some (0 * 10 + n / 10) := digitsValue_snoc rfl (by omega)
  rw [Nat.zero_mul, Nat.zero_add] at hone
  exact (digitsValue_snoc hone (Nat.mod_lt n (by decide))).trans (by rw [Nat.div_add_mod'])

theorem digitsValue_three {n : Nat} (h : n < 1000) :
    digitsValue [digit (n / 100), digit (n / 10 % 10), digit (n % 10)] = some n := by
  have htwo := @digitsValue_two (n / 10) (by omega)
  rw [Nat.div_div_eq_div_mul] at htwo
  exact (digitsValue_snoc htwo (Nat.mod_lt n (by decide))).trans (by rw [Nat.div_add_mod'])

theorem digitsValue_four {n : Nat} (h : n < 10000) :
    digitsValue [digit (n / 1000), digit (n / 100 % 10), digit (n / 10 % 10), digit (n % 10)] =
      some n := by
  have hthree := @digitsValue_three (n / 10) (by omega)
  rw [Nat.div_div_eq_div_mul, Nat.div_div_eq_div_mul] at hthree
  exact (digitsValue_snoc hthree (Nat.mod_lt n (by decide))).trans (by rw [Nat.div_add_mod'])

/-- The bytes of a timestamp. -/
def stamp (year month day hour minute second millis : Nat) : Bytes :=
  [digit (year / 1000), digit (year / 100 % 10), digit (year / 10 % 10), digit (year % 10), 45,
    digit (month / 10), digit (month % 10), 45, digit (day / 10), digit (day % 10), 84,
    digit (hour / 10), digit (hour % 10), 58, digit (minute / 10), digit (minute % 10), 58,
    digit (second / 10), digit (second % 10), 46, digit (millis / 100), digit (millis / 10 % 10),
    digit (millis % 10), 90]

variable {year month day hour minute second millis : Nat}

theorem dateTime_stamp (hyear : year < 10000) (hmonth : 1 ≤ month ∧ month ≤ 12)
    (hday : 1 ≤ day ∧ day ≤ daysIn year month) (hhour : hour < 24) (hminute : minute < 60)
    (hsecond : second < 60) :
    dateTime (stamp year month day hour minute second millis) =
      some ⟨year, month, day, hour, minute, second⟩ := by
  have hdim := daysIn_le year hmonth.2
  have hy : digits (stamp year month day hour minute second millis) 0 4 = some year :=
    digitsValue_four hyear
  have hm : digits (stamp year month day hour minute second millis) 5 2 = some month :=
    digitsValue_two (by omega)
  have hd : digits (stamp year month day hour minute second millis) 8 2 = some day :=
    digitsValue_two (by omega)
  have hh : digits (stamp year month day hour minute second millis) 11 2 = some hour :=
    digitsValue_two (by omega)
  have hmi : digits (stamp year month day hour minute second millis) 14 2 = some minute :=
    digitsValue_two (by omega)
  have hs : digits (stamp year month day hour minute second millis) 17 2 = some second :=
    digitsValue_two (by omega)
  rw [dateTime, hy, hm, hd, hh, hmi, hs]
  simp only [Option.bind_eq_bind, Option.bind_some]
  rw [if_neg (by simp [stamp]), if_neg (by omega), if_neg (by omega)]

theorem utf8_rfc3339Millis (seconds : Int) (ms : Nat) : utf8 (rfc3339Millis seconds ms) =
    (padSigned 4 (split seconds).year).flatMap encode ++ 45 :: (pad 2 (split seconds).month).flatMap encode ++
      45 :: (pad 2 (split seconds).day).flatMap encode ++
      84 :: (pad 2 (split seconds).hour).flatMap encode ++
      58 :: (pad 2 (split seconds).minute).flatMap encode ++
      58 :: (pad 2 (split seconds).second).flatMap encode ++
      46 :: (pad 3 (ms % 1000)).flatMap encode ++ [90] := by
  rw [rfc3339Millis, utf8_ofList]
  simp only [List.flatMap_append, List.flatMap_cons, List.flatMap_nil]
  rfl

/-- The parts of an instant's date and time. -/
theorem split_spec (seconds : Int) :
    (1 ≤ (split seconds).month ∧ (split seconds).month ≤ 12) ∧
    (1 ≤ (split seconds).day ∧ (split seconds).day ≤ daysIn (split seconds).year (split seconds).month) ∧
    (split seconds).hour < 24 ∧ (split seconds).minute < 60 ∧ (split seconds).second < 60 ∧
    daysFromCivil (split seconds).year (split seconds).month (split seconds).day * 86400 +
      ((split seconds).hour * 3600 + (split seconds).minute * 60 + (split seconds).second : Nat) =
      seconds := by
  obtain ⟨hm1, hm12, hd1, hdim, hback⟩ := civil_days (seconds / 86400)
  have hrest : (seconds % 86400).toNat < 86400 := by omega
  have hclock : (seconds % 86400).toNat / 3600 * 3600 + (seconds % 86400).toNat % 3600 / 60 * 60 +
      (seconds % 86400).toNat % 60 = (seconds % 86400).toNat := by omega
  refine ⟨⟨hm1, hm12⟩, ⟨hd1, hdim⟩, ?_, ?_, ?_, ?_⟩
  · show (seconds % 86400).toNat / 3600 < 24
    omega
  · show (seconds % 86400).toNat % 3600 / 60 < 60
    omega
  · show (seconds % 86400).toNat % 60 < 60
    omega
  · show daysFromCivil (civilFromDays (seconds / 86400)).1 (civilFromDays (seconds / 86400)).2.1
      (civilFromDays (seconds / 86400)).2.2 * 86400 + (((seconds % 86400).toNat / 3600 * 3600 +
      (seconds % 86400).toNat % 3600 / 60 * 60 + (seconds % 86400).toNat % 60 : Nat) : Int) = seconds
    rw [hback, hclock]
    omega

theorem rfc3339Millis_stamp {seconds : Int} (ms : Nat) {year : Nat} (hyear : (split seconds).year = year)
    (hlt : year < 10000) : utf8 (rfc3339Millis seconds ms) = stamp year (split seconds).month
      (split seconds).day (split seconds).hour (split seconds).minute (split seconds).second (ms % 1000) := by
  obtain ⟨hm, hd, hh, hmi, hs, _⟩ := split_spec seconds
  have hdim := daysIn_le (split seconds).year hm.2
  have hpadded : padSigned 4 (split seconds).year = pad 4 year := by
    rw [hyear, padSigned, if_neg (by omega)]
    rfl
  rw [utf8_rfc3339Millis, hpadded, pad_four _ hlt, pad_two _ (by omega), pad_two _ (by omega),
    pad_two _ (by omega), pad_two _ (by omega), pad_two _ (by omega),
    pad_three _ (Nat.mod_lt _ (by decide))]
  rfl

theorem fraction_stamp (h : millis < 1000) :
    fraction (stamp year month day hour minute second millis) = some (millis * 10 ^ 6, 23) := by
  obtain ⟨ha, _⟩ := digit_spec (show millis / 100 < 10 by omega)
  obtain ⟨hb, _⟩ := digit_spec (show millis / 10 % 10 < 10 by omega)
  obtain ⟨hc, _⟩ := digit_spec (show millis % 10 < 10 by omega)
  have hds : ((stamp year month day hour minute second millis).drop 20).takeWhile isDigit =
      [digit (millis / 100), digit (millis / 10 % 10), digit (millis % 10)] := by
    show [digit (millis / 100), digit (millis / 10 % 10), digit (millis % 10), 90].takeWhile isDigit = _
    rw [List.takeWhile_cons_of_pos ha, List.takeWhile_cons_of_pos hb, List.takeWhile_cons_of_pos hc]
    rfl
  have hpoint : (stamp year month day hour minute second millis)[19]? = some 46 := rfl
  rw [fraction, if_pos hpoint]
  simp only [hds]
  rw [if_neg nofun]
  show (digitsValue [digit (millis / 100), digit (millis / 10 % 10), digit (millis % 10)]).map _ = _
  rw [digitsValue_three h]
  rfl

theorem flatMap_encode_digits {cs : List Char} (h : ∀ c ∈ cs, c.isDigit = true) :
    cs.flatMap encode = cs.map fun c => UInt8.ofNat c.toNat := by
  induction cs with
  | nil => rfl
  | cons c cs ih =>
    have hc : c.toNat < 128 := by
      have hd := h c List.mem_cons_self
      simp only [Char.isDigit, Bool.and_eq_true, decide_eq_true_eq, UInt32.le_iff_toNat_le] at hd
      exact Nat.lt_of_le_of_lt hd.2 (by decide)
    rcases encode_cases c with ⟨_, henc⟩ | ⟨hhigh, _⟩
    · rw [List.flatMap_cons, henc, ih fun c hc => h c (List.mem_cons_of_mem _ hc)]
      rfl
    · exact absurd hc (Nat.not_lt.mpr hhigh)

/-- A text without a hyphen after four digits has no date. -/
theorem dateTime_none {s : Bytes} (h : digits s 0 4 = none ∨ s.getD 4 0 ≠ 45) : dateTime s = none := by
  unfold dateTime
  simp only [Option.bind_eq_bind, Option.bind_eq_none_iff]
  intro year hy month _ day _ hour _ minute _ second _
  rcases h with h | h
  · exact nomatch hy.symm.trans h
  · exact if_pos (.inl h)

theorem dateTime_negative {z : Int} (hz : z < 0) (rest : Bytes) :
    dateTime ((padSigned 4 z).flatMap encode ++ rest) = none := by
  refine dateTime_none (.inl ?_)
  rw [padSigned, if_pos hz, digits]
  split
  · rfl
  · rfl

theorem dateTime_large {n : Nat} (hn : 10000 ≤ n) (rest : Bytes) :
    dateTime ((pad 4 n).flatMap encode ++ rest) = none := by
  have hlen : 5 ≤ (Nat.toDigits 10 n).length := by
    by_contra hshort
    have hle := (Nat.length_toDigits_le_iff (b := 10) (n := n) (k := 4) (by decide) (by decide)).mp (by omega)
    omega
  have hdigits : ∀ c ∈ Nat.toDigits 10 n, c.isDigit = true := fun c hc =>
    Nat.isDigit_of_mem_toDigits (by decide) (by decide) hc
  have hpad : pad 4 n = Nat.toDigits 10 n := by
    rw [pad, Nat.sub_eq_zero_of_le (by omega)]
    rfl
  refine dateTime_none (.inr ?_)
  rw [hpad, flatMap_encode_digits hdigits]
  obtain ⟨c, hc⟩ : ∃ c, (Nat.toDigits 10 n)[4]? = some c := ⟨_, List.getElem?_eq_getElem hlen⟩
  have hcd := hdigits c (List.mem_of_getElem? hc)
  simp only [Char.isDigit, Bool.and_eq_true, decide_eq_true_eq, UInt32.le_iff_toNat_le] at hcd
  rw [List.getD_eq_getElem?_getD, List.getElem?_append_left (by rw [List.length_map]; exact hlen),
    List.getElem?_map, hc]
  intro heq
  have hval : c.toNat = 45 := by
    have hlt : c.toNat < 256 := Nat.lt_of_le_of_lt hcd.2 (by decide)
    have := congrArg UInt8.toNat heq
    rw [show ((some c).map fun c => UInt8.ofNat c.toNat).getD 0 = UInt8.ofNat c.toNat from rfl,
      UInt8.toNat_ofNat_of_lt' hlt] at this
    exact this
  have hlow : 48 ≤ c.toNat := hcd.1
  omega

end TimefmtLemmas

/-- A timestamp whose year has four digits reads back as its instant. -/
theorem parse_rfc3339Millis {seconds : Int} (ms : Nat)
    (hyear : 0 ≤ (split seconds).year ∧ (split seconds).year ≤ 9999) :
    parseRfc3339 (rfc3339Millis seconds ms) = some (seconds, ms % 1000 * 10 ^ 6) := by
  obtain ⟨year, hy⟩ : ∃ year : Nat, (split seconds).year = year := ⟨(split seconds).year.toNat, by omega⟩
  obtain ⟨hm, hd, hh, hmi, hs, hsum⟩ := split_spec seconds
  rw [hy] at hyear hd hsum
  have hstamp := rfc3339Millis_stamp ms hy (by omega)
  rw [parseRfc3339, hstamp, dateTime_stamp (by omega) hm hd hh hmi hs]
  simp only [Option.bind_eq_bind, Option.bind_some, fraction_stamp (Nat.mod_lt ms (show 0 < 1000 by decide))]
  show some (_ - (0 : Int), _) = _
  rw [hsum, sub_zero]

/-- A timestamp of another year does not read back. -/
theorem parse_rfc3339Millis_none {seconds : Int} (ms : Nat)
    (hyear : ¬ (0 ≤ (split seconds).year ∧ (split seconds).year ≤ 9999)) :
    parseRfc3339 (rfc3339Millis seconds ms) = none := by
  have hdate : dateTime (utf8 (rfc3339Millis seconds ms)) = none := by
    rw [utf8_rfc3339Millis]
    simp only [List.append_assoc]
    by_cases hneg : (split seconds).year < 0
    · exact dateTime_negative hneg _
    · have hlarge : 10000 ≤ (split seconds).year.toNat := by omega
      rw [padSigned, if_neg hneg]
      exact dateTime_large hlarge _
  rw [parseRfc3339, hdate]
  rfl

end OmtClient.Common.Timefmt
