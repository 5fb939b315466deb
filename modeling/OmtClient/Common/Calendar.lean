import OmtClient.Common.Timefmt

/-!
# The calendar

`civil_from_days` and `days_from_civil` of `crates/omt-common/src/timefmt.rs` once more, with
what `Timefmt` leaves out: `i64` arithmetic that overflows and a `/` that truncates.

1. `civilFromDays64_eq` and `daysFromCivil64_eq`: without an overflow they are the functions of
   `Timefmt`.
2. `place_unique`: a day has one place in the eras.
3. `civil_of_date`: the date of a date's day is the date.
4. `day_after`: the day after a date is the next date.
5. `calendar_exact`: both directions and the order, where nothing overflows.
-/

namespace OmtClient.Common.Calendar

open OmtClient.Common.Timefmt OmtClient.Common.Timefmt.TimefmtLemmas

/-! ## The conversions on `i64` -/

def IsI64 (v : Int) : Prop := -2 ^ 63 ≤ v ∧ v < 2 ^ 63

instance (v : Int) : Decidable (IsI64 v) := inferInstanceAs (Decidable (_ ∧ _))

/-- The result of an operation on `i64`, unless it overflows. -/
def i64 (v : Int) : Option Int := if IsI64 v then some v else none

/-- `civil_from_days`. -/
def civilFromDays64 (days : Int) : Option (Int × Nat × Nat) := do
  let shifted ← i64 (days + 719468)
  let era := shifted / 146097
  let eraDays ← i64 (era * 146097)
  let dayOfEra ← i64 (shifted - eraDays)
  let fewer ← i64 (dayOfEra - dayOfEra.tdiv 1460)
  let more ← i64 (fewer + dayOfEra.tdiv 36524)
  let last ← i64 (more - dayOfEra.tdiv 146096)
  let yearOfEra := last.tdiv 365
  let eraYears ← i64 (era * 400)
  let y ← i64 (yearOfEra + eraYears)
  let yearDays ← i64 (365 * yearOfEra)
  let leapDays ← i64 (yearDays + yearOfEra.tdiv 4)
  let daysBefore ← i64 (leapDays - yearOfEra.tdiv 100)
  let dayOfYear ← i64 (dayOfEra - daysBefore)
  let fives ← i64 (5 * dayOfYear)
  let scaled ← i64 (fives + 2)
  let monthPrime := scaled.tdiv 153
  let months ← i64 (153 * monthPrime)
  let start ← i64 (months + 2)
  let dayOfMonth ← i64 (dayOfYear - start.tdiv 5)
  let d ← i64 (dayOfMonth + 1)
  let m ← i64 (monthPrime + if monthPrime < 10 then 3 else -9)
  let y ← if m ≤ 2 then i64 (y + 1) else some y
  some (y, u32OrOne m, u32OrOne d)

/-- `days_from_civil`. -/
def daysFromCivil64 (year : Int) (month day : Nat) : Option Int := do
  let y ← i64 (year - if month ≤ 2 then 1 else 0)
  let era := y / 400
  let eraYears ← i64 (era * 400)
  let yearOfEra ← i64 (y - eraYears)
  let m : Int := month
  let monthPrime ← i64 (if 2 < m then m - 3 else m + 9)
  let months ← i64 (153 * monthPrime)
  let start ← i64 (months + 2)
  let through ← i64 (start.tdiv 5 + day)
  let dayOfYear ← i64 (through - 1)
  let yearDays ← i64 (yearOfEra * 365)
  let leapDays ← i64 (yearDays + yearOfEra.tdiv 4)
  let daysBefore ← i64 (leapDays - yearOfEra.tdiv 100)
  let dayOfEra ← i64 (daysBefore + dayOfYear)
  let eraDays ← i64 (era * 146097)
  let shifted ← i64 (eraDays + dayOfEra)
  i64 (shifted - 719468)

/-! ## Dates -/

/-- A date of the proleptic Gregorian calendar. -/
def IsDate (date : Int × Nat × Nat) : Prop :=
  (1 ≤ date.2.1 ∧ date.2.1 ≤ 12) ∧ 1 ≤ date.2.2 ∧ date.2.2 ≤ daysIn date.1 date.2.1

/-- The date after a date. -/
def nextDate (date : Int × Nat × Nat) : Int × Nat × Nat :=
  if date.2.2 < daysIn date.1 date.2.1 then (date.1, date.2.1, date.2.2 + 1)
  else if date.2.1 < 12 then (date.1, date.2.1 + 1, 1)
  else (date.1 + 1, 1, 1)

/-- The conversions, where nothing overflows. -/
structure Exact : Prop where
  /-- The date of a day is one, and its day is the day. -/
  days : ∀ n date, IsI64 n → civilFromDays64 n = some date →
    IsDate date ∧ daysFromCivil64 date.1 date.2.1 date.2.2 = some n
  /-- The day of a date has that date. -/
  dates : ∀ year month day n, IsDate (year, month, day) → daysFromCivil64 year month day = some n →
    civilFromDays64 n = some (year, month, day)
  /-- Consecutive days have consecutive dates. -/
  next : ∀ n date date', IsI64 n → IsI64 (n + 1) → civilFromDays64 n = some date →
    civilFromDays64 (n + 1) = some date' → date' = nextDate date
  /-- Only the shift to the start of an era overflows, in the last days of the range. -/
  defined : ∀ n, IsI64 n → ((∃ date, civilFromDays64 n = some date) ↔ n + 719468 < 2 ^ 63)

namespace CalendarLemmas

theorem i64_of {v : Int} (h : IsI64 v) : i64 v = some v := if_pos h

theorem i64_bind {β : Type} {v : Int} {f : Int → Option β} (h : IsI64 v) : (i64 v).bind f = f v := by
  rw [i64_of h]
  rfl

/-- Where nothing is negative `/` rounds the same way. -/
theorem tdiv_eq {a : Int} (h : 0 ≤ a) (b : Int) : a.tdiv b = a / b := Int.tdiv_eq_ediv_of_nonneg h

/-- A number computed from a day of an era and the number of the era. -/
theorem era_bounds {days : Int} (h : IsI64 days) (hfit : days + 719468 < 2 ^ 63) :
    ∃ (era : Int) (doe : Nat), era = (days + 719468) / 146097 ∧ doe ≤ 146096 ∧
      days + 719468 - era * 146097 = doe ∧ IsI64 (days + 719468) ∧ IsI64 (era * 146097) ∧
      -10 ^ 15 ≤ era ∧ era ≤ 10 ^ 15 := by
  obtain ⟨hlow, hhigh⟩ := h
  refine ⟨(days + 719468) / 146097, ((days + 719468) % 146097).toNat, rfl, by omega, by omega, ⟨by omega, hfit⟩,
    ⟨by omega, by omega⟩, by omega, by omega⟩

theorem civilFromDays64_none {days : Int} (h : ¬ days + 719468 < 2 ^ 63) : civilFromDays64 days = none := by
  have hover : i64 (days + 719468) = none := if_neg (fun hin => h hin.2)
  unfold civilFromDays64
  rw [hover]
  rfl

/-- Past the shift nothing overflows. -/
theorem civilFromDays64_eq {days : Int} (h : IsI64 days) (hfit : days + 719468 < 2 ^ 63) :
    civilFromDays64 days = some (civilFromDays days) := by
  obtain ⟨era, doe, hera, hdoe, hdays, hshift, heraDays, heraLow, heraHigh⟩ := era_bounds h hfit
  obtain ⟨hy, hstart, hend⟩ := year_spec hdoe
  obtain ⟨hfirst, hlength, -⟩ := year_length hy
  have hyear : ((doe : Int) - doe / 1460 + doe / 36524 - doe / 146096) / 365 = yearOf doe := by
    unfold yearOf
    omega
  have hdiv : ∀ b : Int, (doe : Int).tdiv b = doe / b := tdiv_eq (Int.natCast_nonneg doe)
  have hyearDiv : ∀ b : Int, ((yearOf doe : Nat) : Int).tdiv b = (yearOf doe : Nat) / b :=
    tdiv_eq (Int.natCast_nonneg _)
  have hcivil : civilFromDays days = (fun (dayOfYear : Int) =>
      (if monthOf dayOfYear ≤ 2 then (yearOf doe : Nat) + era * 400 + 1 else (yearOf doe : Nat) + era * 400,
        u32OrOne (monthOf dayOfYear), u32OrOne (dayOf dayOfYear)))
      (doe - (365 * (yearOf doe : Nat) + (yearOf doe : Nat) / 4 - (yearOf doe : Nat) / 100)) := by
    unfold civilFromDays
    dsimp only
    rw [← hera, hdays, hyear]
    rfl
  rw [hcivil]
  unfold civilFromDays64
  refine (i64_bind hshift).trans ?_
  dsimp only
  rw [← hera]
  refine (i64_bind heraDays).trans ?_
  rw [hdays]
  refine (i64_bind ⟨by omega, by omega⟩).trans ?_
  rw [hdiv, hdiv, hdiv]
  clear hera hdays hshift heraDays hdiv hcivil h hfit
  iterate 3 refine (i64_bind ⟨by omega, by omega⟩).trans ?_
  rw [tdiv_eq (by omega), hyear, hyearDiv, hyearDiv]
  clear hyear hyearDiv
  generalize yearOf doe = y at *
  iterate 6 refine (i64_bind ⟨by omega, by omega⟩).trans ?_
  obtain ⟨doy, hdoy, hlt⟩ : ∃ doy : Nat, (doe : Int) - (365 * (y : Int) + (y : Int) / 4 - (y : Int) / 100) = doy ∧
      doy < 366 := ⟨doe - yearStart y, by omega, by omega⟩
  rw [hdoy]
  clear hdoy hfirst hlength hstart hend hdoe
  obtain ⟨hfirstMonth, hlastMonth, -⟩ := era_tables.2 doy hlt
  iterate 2 refine (i64_bind ⟨by omega, by omega⟩).trans ?_
  rw [@tdiv_eq (5 * (doy : Int) + 2) (by omega)]
  iterate 2 refine (i64_bind ⟨by omega, by omega⟩).trans ?_
  rw [@tdiv_eq (153 * ((5 * (doy : Int) + 2) / 153) + 2) (by omega)]
  iterate 2 refine (i64_bind ⟨by omega, by omega⟩).trans ?_
  have hmonth : IsI64 (monthOf doy) := ⟨by omega, by omega⟩
  refine (i64_bind hmonth).trans ?_
  by_cases hearly : monthOf doy ≤ 2
  · rw [if_pos hearly, if_pos hearly]
    exact i64_bind ⟨by omega, by omega⟩
  · rw [if_neg hearly, if_neg hearly]
    rfl

theorem i64_some {v w : Int} (h : i64 v = some w) : w = v ∧ IsI64 v := by
  by_cases hin : IsI64 v
  · rw [i64_of hin] at h
    exact ⟨(Option.some.inj h).symm, hin⟩
  · rw [i64, if_neg hin] at h
    cases h

theorem i64_bind_some {β : Type} {v : Int} {f : Int → Option β} {r : β} (h : (i64 v).bind f = some r) :
    f v = some r ∧ IsI64 v := by
  obtain ⟨w, hw, hrest⟩ := Option.bind_eq_some_iff.mp h
  obtain ⟨heq, hin⟩ := i64_some hw
  exact ⟨heq ▸ hrest, hin⟩

/-- Without an overflow it is the conversion of `Timefmt`. -/
theorem daysFromCivil64_some {year n : Int} {month day : Nat} (h : daysFromCivil64 year month day = some n) :
    n = daysFromCivil year month day ∧ IsI64 n ∧ n + 719468 < 2 ^ 63 := by
  unfold daysFromCivil64 at h
  obtain ⟨h, -⟩ := i64_bind_some h
  obtain ⟨h, -⟩ := i64_bind_some h
  obtain ⟨h, -⟩ := i64_bind_some h
  obtain ⟨h, -⟩ := i64_bind_some h
  obtain ⟨h, -⟩ := i64_bind_some h
  obtain ⟨h, -⟩ := i64_bind_some h
  have hmonth : 0 ≤ 153 * (if 2 < (month : Int) then (month : Int) - 3 else month + 9) + 2 := by
    split <;> omega
  rw [tdiv_eq hmonth] at h
  obtain ⟨h, -⟩ := i64_bind_some h
  obtain ⟨h, -⟩ := i64_bind_some h
  have hyear : 0 ≤ (year - if month ≤ 2 then 1 else 0) - (year - if month ≤ 2 then 1 else 0) / 400 * 400 := by
    omega
  rw [tdiv_eq hyear, tdiv_eq hyear] at h
  obtain ⟨h, -⟩ := i64_bind_some h
  obtain ⟨h, -⟩ := i64_bind_some h
  obtain ⟨h, -⟩ := i64_bind_some h
  obtain ⟨h, -⟩ := i64_bind_some h
  obtain ⟨h, -⟩ := i64_bind_some h
  obtain ⟨h, hshift⟩ := i64_bind_some h
  obtain ⟨heq, hin⟩ := i64_some h
  refine ⟨heq, heq ▸ hin, ?_⟩
  rw [heq, Int.sub_add_cancel]
  exact hshift.2

/-- The arithmetic of a date near the range of the days. -/
theorem daysFromCivil64_eq {year : Int} {month day : Nat} (hdate : 1 ≤ month ∧ month ≤ 12 ∧ day ≤ 32)
    (h : IsI64 (daysFromCivil year month day)) (hfit : daysFromCivil year month day + 719468 < 2 ^ 63) :
    daysFromCivil64 year month day = some (daysFromCivil year month day) := by
  unfold daysFromCivil64
  unfold daysFromCivil at h hfit ⊢
  dsimp only at h hfit ⊢
  obtain ⟨y, hy⟩ : ∃ y, y = year - if month ≤ 2 then 1 else 0 := ⟨_, rfl⟩
  obtain ⟨mp, hmp, hlow, hhigh⟩ : ∃ mp : Int, mp = (if 2 < (month : Int) then (month : Int) - 3 else month + 9) ∧
      0 ≤ mp ∧ mp ≤ 11 := by
    refine ⟨_, rfl, ?_, ?_⟩ <;> split <;> omega
  rw [← hy, ← hmp] at h hfit ⊢
  obtain ⟨-, -, hday⟩ := hdate
  obtain ⟨h, hupper⟩ := h
  iterate 6 refine (i64_bind ⟨by omega, by omega⟩).trans ?_
  rw [@tdiv_eq (153 * mp + 2) (by omega)]
  iterate 2 refine (i64_bind ⟨by omega, by omega⟩).trans ?_
  rw [@tdiv_eq (y - y / 400 * 400) (by omega), @tdiv_eq (y - y / 400 * 400) (by omega)]
  iterate 6 refine (i64_bind ⟨by omega, by omega⟩).trans ?_
  exact i64_of ⟨by omega, by omega⟩

/-! ## One date for a day -/

/-- The year of the era that the days of a year lie in. -/
theorem yearOf_between {y doe : Nat} (hy : y < 400) (hstart : yearStart y ≤ doe) (hend : doe < yearStart (y + 1)) :
    yearOf doe = y := by
  obtain ⟨hfirst, hlast⟩ := yearOf_ends hy
  have htop : yearStart (y + 1) - 1 ≤ 146096 := by
    unfold yearStart
    omega
  have hlow : yearOf (yearStart y) ≤ yearOf doe := yearOf_mono hstart (by omega)
  have hhigh : yearOf doe ≤ yearOf (yearStart (y + 1) - 1) := yearOf_mono (by omega) htop
  omega

/-- A year has 365 days, and a 366th where its February has a 29th. -/
theorem year_days : ∀ y, y < 400 → yearStart y + 365 ≤ yearStart (y + 1) ∧
    (((y + 1) % 4 = 0 ∧ (y + 1) % 100 ≠ 0 ∨ (y + 1) % 400 = 0) → yearStart y + 366 = yearStart (y + 1)) := by
  decide +kernel

theorem in_year {era : Int} {y doy : Nat} (hy : y < 400) (hdoy : doy < 366)
    (hleap : doy = 365 → leap (y + 1 + era * 400) = true) : yearStart y + doy < yearStart (y + 1) := by
  obtain ⟨hshort, hlong⟩ := year_days y hy
  by_cases hlast : doy = 365
  · have hyear := hleap hlast
    rw [leap, decide_eq_true_eq] at hyear
    have hfull := hlong (by omega)
    omega
  · omega

end CalendarLemmas

open CalendarLemmas

/-- A day has one place: its era, the year of the era and the day of that year. -/
theorem place_unique {era era' : Int} {y y' doy doy' : Nat} (hy : y < 400) (hy' : y' < 400)
    (hin : yearStart y + doy < yearStart (y + 1)) (hin' : yearStart y' + doy' < yearStart (y' + 1))
    (h : era * 146097 + (yearStart y + doy : Nat) = era' * 146097 + (yearStart y' + doy' : Nat)) :
    era = era' ∧ y = y' ∧ doy = doy' := by
  have htop : ∀ k, k < 400 → yearStart (k + 1) ≤ 146097 := by
    intro k hk
    unfold yearStart
    omega
  have hera : era = era' := by
    have h1 := htop y hy
    have h2 := htop y' hy'
    omega
  have hdoe : yearStart y + doy = yearStart y' + doy' := by
    rw [hera] at h
    omega
  have hyear : y = y' := by
    have hfirst := yearOf_between hy (Nat.le_add_right _ doy) hin
    have hsecond := yearOf_between hy' (Nat.le_add_right _ doy') hin'
    rw [← hfirst, ← hsecond, hdoe]
  subst hyear
  exact ⟨hera, rfl, by omega⟩

namespace CalendarLemmas

/-- The day of the year, counted from March, of a day of a month. -/
def dayOfYear (month day : Nat) : Nat := (153 * (if 2 < month then month - 3 else month + 9) + 2) / 5 + day - 1

/-- The months of the year of `civil_from_days` are those of the calendar. -/
theorem month_table : ∀ k, k < 12 → ∀ j, j < 31 →
    [31, 28, 31, 30, 31, 30, 31, 31, 30, 31, 30, 31].getD k 0 + (if k = 1 then 1 else 0) ≤ j ∨
    (monthOf (dayOfYear (k + 1) (j + 1)) = k + 1 ∧ dayOf (dayOfYear (k + 1) (j + 1)) = j + 1 ∧
      dayOfYear (k + 1) (j + 1) < 366 ∧ (dayOfYear (k + 1) (j + 1) = 365 → k = 1 ∧ j = 28)) := by
  decide +kernel

theorem daysIn_eq (year : Int) (k : Nat) : daysIn year (k + 1) =
    [31, 28, 31, 30, 31, 30, 31, 31, 30, 31, 30, 31].getD k 0 + if k = 1 ∧ leap year then 1 else 0 := by
  have hmonth : (k + 1 = 2 ∧ leap year = true) = (k = 1 ∧ leap year = true) := by
    rw [Nat.succ_inj]
  rw [daysIn, Nat.add_sub_cancel]
  simp only [hmonth]

theorem month_lengths : ∀ k, k < 12 → 28 ≤ [31, 28, 31, 30, 31, 30, 31, 31, 30, 31, 30, 31].getD k 0 ∧
    [31, 28, 31, 30, 31, 30, 31, 31, 30, 31, 30, 31].getD k 0 + (if k = 1 then 1 else 0) ≤ 31 := by
  decide

/-- A month is the same one, and a day the same one, in the year that starts in March. -/
theorem month_back {year : Int} {month day : Nat} (h : IsDate (year, month, day)) :
    monthOf (dayOfYear month day) = month ∧ dayOf (dayOfYear month day) = day ∧ dayOfYear month day < 366 ∧
    (dayOfYear month day = 365 → month = 2 ∧ leap year = true) := by
  obtain ⟨⟨hfirst, hlast⟩, hday, hin⟩ := h
  obtain ⟨k, rfl⟩ : ∃ k, month = k + 1 := ⟨month - 1, (Nat.sub_add_cancel hfirst).symm⟩
  obtain ⟨j, rfl⟩ : ∃ j, day = j + 1 := ⟨day - 1, (Nat.sub_add_cancel hday).symm⟩
  have hk : k < 12 := hlast
  dsimp only at hin
  rw [daysIn_eq] at hin
  obtain ⟨hshort, hlong⟩ := month_lengths k hk
  -- February may have its 29th day in the table, whatever the year
  have hbound : (if k = 1 ∧ leap year = true then 1 else 0) ≤ if k = 1 then 1 else 0 := by
    by_cases hfeb : k = 1
    · rw [if_pos hfeb]
      split <;> omega
    · rw [if_neg hfeb, if_neg (fun hboth => hfeb hboth.1)]
  obtain hout | ⟨hmonth, hdayOf, hdoy, hleap⟩ := month_table k hk j (by omega)
  · omega
  · refine ⟨by rw [hmonth]; exact (Int.natCast_succ k).symm, by rw [hdayOf]; exact (Int.natCast_succ j).symm, hdoy,
      fun hend => ?_⟩
    obtain ⟨rfl, rfl⟩ := hleap hend
    refine ⟨rfl, ?_⟩
    by_cases hyear : leap year = true
    · exact hyear
    · rw [if_neg (fun hboth => hyear hboth.2)] at hin
      exact absurd hin (by decide)

/-- The day of a date, by its place in its era. -/
theorem day_place {year : Int} {month day : Nat} (h : IsDate (year, month, day)) : ∃ (era : Int) (y : Nat),
    y < 400 ∧ (y : Int) + era * 400 = (year - if month ≤ 2 then 1 else 0) ∧
    daysFromCivil year month day = era * 146097 + (y * 365 + y / 4 - y / 100 + dayOfYear month day : Nat) - 719468 := by
  obtain ⟨⟨hfirst, hlast⟩, hday, -⟩ := h
  dsimp only at hfirst hlast hday
  refine ⟨(year - if month ≤ 2 then 1 else 0) / 400, ((year - if month ≤ 2 then 1 else 0) % 400).toNat, by omega,
    by omega, ?_⟩
  unfold daysFromCivil dayOfYear
  dsimp only
  generalize (year - if month ≤ 2 then 1 else 0) = shifted
  have hmonth : (if 2 < (month : Int) then (month : Int) - 3 else month + 9) =
      ((if 2 < month then month - 3 else month + 9 : Nat) : Int) := by
    split <;> split <;> omega
  rw [hmonth]
  generalize (if 2 < month then month - 3 else month + 9) = mp
  omega

end CalendarLemmas

/-- The date of a date's day is the date. -/
theorem civil_of_date {year : Int} {month day : Nat} (h : IsDate (year, month, day)) :
    civilFromDays (daysFromCivil year month day) = (year, month, day) := by
  obtain ⟨hmonth, hdayOf, hdoy, hleap⟩ := month_back h
  obtain ⟨era, y, hy, hyear, hday⟩ := day_place h
  obtain ⟨era', y', doy', hy', hdoy', hleap', hday', heq⟩ := civilFromDays_eq (daysFromCivil year month day)
  obtain ⟨hfirst, -, -⟩ := year_length hy
  obtain ⟨hfirst', -, -⟩ := year_length hy'
  have hin : yearStart y + dayOfYear month day < yearStart (y + 1) := by
    refine @in_year era y _ hy hdoy fun hend => ?_
    obtain ⟨hfeb, hyearLeap⟩ := hleap hend
    rw [if_pos (by omega)] at hyear
    rw [show (y : Int) + 1 + era * 400 = year by omega]
    exact hyearLeap
  have hsame : era * 146097 + (yearStart y + dayOfYear month day : Nat) = era' * 146097 + (yearStart y' + doy' : Nat) := by
    omega
  obtain ⟨rfl, rfl, hdoyEq⟩ := place_unique hy hy' hin (in_year hy' hdoy' hleap') hsame
  obtain ⟨⟨hmonthLow, hmonthHigh⟩, hdayLow, hdayHigh⟩ := h
  have hlength := daysIn_le year hmonthHigh
  dsimp only at hmonthLow hmonthHigh hdayLow hdayHigh hlength
  obtain ⟨-, -, -, hdayMax, -⟩ := era_tables.2 (dayOfYear month day) hdoy
  rw [heq, ← hdoyEq, u32OrOne_eq (by omega), u32OrOne_eq (by omega), hmonth, hdayOf, Int.toNat_natCast, Int.toNat_natCast]
  refine Prod.ext ?_ rfl
  dsimp only
  split <;> split at hyear <;> omega

namespace CalendarLemmas

theorem nextDate_isDate {year : Int} {month day : Nat} (h : IsDate (year, month, day)) :
    IsDate (nextDate (year, month, day)) := by
  obtain ⟨⟨hfirst, hlast⟩, hday, hin⟩ := h
  unfold nextDate
  dsimp only at *
  by_cases hmore : day < daysIn year month
  · rw [if_pos hmore]
    exact ⟨⟨hfirst, hlast⟩, Nat.succ_pos day, hmore⟩
  · rw [if_neg hmore]
    by_cases hyear : month < 12
    · rw [if_pos hyear]
      refine ⟨⟨Nat.succ_pos month, hyear⟩, Nat.le_refl 1, ?_⟩
      dsimp only
      rw [daysIn_eq]
      have hlong := (month_lengths month hyear).1
      omega
    · rw [if_neg hyear]
      exact ⟨⟨Nat.le_refl 1, Nat.le_add_left 1 11⟩, Nat.le_refl 1, Nat.le_add_left 1 30⟩

theorem february_end (year : Int) :
    daysFromCivil year (2 + 1) 1 = daysFromCivil year 2 (daysIn year 2) + 1 := by
  have hdays : daysIn year 2 = if leap year = true then 29 else 28 := by
    rw [daysIn_eq]
    by_cases hleap : leap year = true
    · rw [if_pos ⟨rfl, hleap⟩, if_pos hleap]
      rfl
    · rw [if_neg (fun hboth => hleap hboth.2), if_neg hleap]
      rfl
  rw [hdays]
  unfold daysFromCivil leap
  norm_num
  split <;> omega

theorem month_steps : ∀ k : Nat, k < 11 → k = 1 ∨
    ((if k + 1 + 1 ≤ 2 then (1 : Int) else 0) = (if k + 1 ≤ 2 then 1 else 0) ∧
      (153 * (if 2 < ((k + 1 + 1 : Nat) : Int) then ((k + 1 + 1 : Nat) : Int) - 3 else (k + 1 + 1 : Nat) + 9) + 2) / 5 =
        (153 * (if 2 < ((k + 1 : Nat) : Int) then ((k + 1 : Nat) : Int) - 3 else (k + 1 : Nat) + 9) + 2) / 5 +
          ([31, 28, 31, 30, 31, 30, 31, 31, 30, 31, 30, 31].getD k 0 : Nat)) := by
  decide

theorem month_end (year : Int) {month : Nat} (hfirst : 1 ≤ month) (hlast : month < 12) (hfeb : month ≠ 2) :
    daysFromCivil year (month + 1) 1 = daysFromCivil year month (daysIn year month) + 1 := by
  obtain ⟨k, rfl⟩ : ∃ k, month = k + 1 := ⟨month - 1, (Nat.sub_add_cancel hfirst).symm⟩
  obtain hk | ⟨hyear, hsteps⟩ := month_steps k (Nat.lt_of_succ_lt_succ hlast)
  · exact absurd (congrArg Nat.succ hk) hfeb
  · rw [daysIn_eq, if_neg (fun hboth => hfeb (congrArg Nat.succ hboth.1)), Nat.add_zero]
    unfold daysFromCivil
    dsimp only
    rw [hyear, hsteps]
    omega

end CalendarLemmas

/-- The day after a date is the next date. -/
theorem day_after {year : Int} {month day : Nat} (h : IsDate (year, month, day)) :
    daysFromCivil (nextDate (year, month, day)).1 (nextDate (year, month, day)).2.1
      (nextDate (year, month, day)).2.2 = daysFromCivil year month day + 1 := by
  obtain ⟨⟨hfirst, hlast⟩, hday, hin⟩ := h
  unfold nextDate
  dsimp only at *
  by_cases hmore : day < daysIn year month
  · rw [if_pos hmore]
    unfold daysFromCivil
    dsimp only
    omega
  · rw [if_neg hmore]
    obtain rfl : day = daysIn year month := by omega
    clear hmore hin hday
    rcases Nat.lt_or_ge month 12 with hyear | hyear
    · rw [if_pos hyear]
      by_cases hfeb : month = 2
      · subst hfeb
        exact february_end year
      · exact month_end year hfirst hyear hfeb
    · rw [if_neg (Nat.not_lt.mpr hyear)]
      obtain rfl : month = 12 := Nat.le_antisymm hlast hyear
      show daysFromCivil (year + 1) 1 1 = daysFromCivil year 12 31 + 1
      unfold daysFromCivil
      norm_num
      omega

namespace CalendarLemmas

theorem civilFromDays64_some {n : Int} {date : Int × Nat × Nat} (hin : IsI64 n) (h : civilFromDays64 n = some date) :
    date = civilFromDays n ∧ n + 719468 < 2 ^ 63 := by
  by_cases hfit : n + 719468 < 2 ^ 63
  · rw [civilFromDays64_eq hin hfit] at h
    exact ⟨(Option.some.inj h).symm, hfit⟩
  · rw [civilFromDays64_none hfit] at h
    cases h

theorem civil_isDate (n : Int) : IsDate (civilFromDays n) := by
  obtain ⟨hfirst, hlast, hday, hlength, -⟩ := civil_days n
  exact ⟨⟨hfirst, hlast⟩, hday, hlength⟩

/-- The date of the day after a day is the next date. -/
theorem civil_next (n : Int) : civilFromDays (n + 1) = nextDate (civilFromDays n) := by
  obtain ⟨-, -, -, -, hback⟩ := civil_days n
  have hdate := civil_isDate n
  generalize civilFromDays n = date at hback hdate ⊢
  obtain ⟨year, month, day⟩ := date
  have hafter := day_after hdate
  have hnext := nextDate_isDate hdate
  dsimp only at hback
  rw [hback] at hafter
  rw [← hafter]
  exact civil_of_date hnext

end CalendarLemmas

/-- Both conversions are exact wherever they are defined. -/
theorem calendar_exact : Exact where
  days := by
    intro n date hin h
    obtain ⟨rfl, hfit⟩ := civilFromDays64_some hin h
    obtain ⟨hfirst, hlast, -, hlength, hback⟩ := civil_days n
    have hday := Nat.le_trans hlength (daysIn_le _ hlast)
    refine ⟨civil_isDate n, ?_⟩
    rw [daysFromCivil64_eq ⟨hfirst, hlast, hday⟩ (hback.symm ▸ hin) (hback.symm ▸ hfit), hback]
  dates := by
    intro year month day n hdate h
    obtain ⟨rfl, hin, hfit⟩ := daysFromCivil64_some h
    rw [civilFromDays64_eq hin hfit, civil_of_date hdate]
  next := by
    intro n date date' hin hin' h h'
    obtain ⟨rfl, -⟩ := civilFromDays64_some hin h
    obtain ⟨rfl, -⟩ := civilFromDays64_some hin' h'
    exact civil_next n
  defined := by
    intro n hin
    constructor
    · rintro ⟨date, h⟩
      exact (civilFromDays64_some hin h).2
    · intro hfit
      exact ⟨civilFromDays n, civilFromDays64_eq hin hfit⟩

end OmtClient.Common.Calendar
