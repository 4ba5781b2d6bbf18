import Mathlib.Algebra.Order.Group.Int
import Mathlib.Tactic.Linarith

/-!
# The Gregorian calendar

Dates of the proleptic Gregorian calendar: the day after a date, the order of dates, and the
number of a day, counted from 1970-01-01. A function from day numbers to dates is right when one
more day is the next date.

The year that starts in March puts the leap day at its end. `marchDate` is the date of a day of
such a year, in a 400-year era.

* `Date.before_next`, `Date.dayNumber_next` — what the next date is
* `IsCalendar.strictMono`, `IsCalendar.dayNumber_eq` — what follows for a run of dates
* `IsCalendar.eq_of_valid` — no date is left out
* `next_marchDate` — the days of an era follow each other
-/

namespace Infra

/-- A leap year. -/
def isLeap (year : Int) : Bool :=
  decide (year % 4 = 0 ∧ (year % 100 ≠ 0 ∨ year % 400 = 0))

/-- The days of a month. -/
def monthLength (year : Int) (month : Nat) : Nat :=
  if month = 2 then if isLeap year then 29 else 28
  else if month = 4 ∨ month = 6 ∨ month = 9 ∨ month = 11 then 30
  else 31

theorem monthLength_bounds (year : Int) (month : Nat) :
    28 ≤ monthLength year month ∧ monthLength year month ≤ 31 := by
  unfold monthLength
  split
  · split <;> omega
  · split <;> omega

/-- A year, a month and a day. -/
structure Date where
  year : Int
  month : Nat
  day : Nat
  deriving DecidableEq

namespace Date

/-- A date of the calendar. -/
structure Valid (date : Date) : Prop where
  month_pos : 1 ≤ date.month
  month_le : date.month ≤ 12
  day_pos : 1 ≤ date.day
  day_le : date.day ≤ monthLength date.year date.month

/-- The day after. -/
def next (date : Date) : Date :=
  if date.day < monthLength date.year date.month then { date with day := date.day + 1 }
  else if date.month < 12 then ⟨date.year, date.month + 1, 1⟩
  else ⟨date.year + 1, 1, 1⟩

/-- The order of dates: by year, by month and by day. -/
def Before (a b : Date) : Prop :=
  a.year < b.year ∨ a.year = b.year ∧ (a.month < b.month ∨ a.month = b.month ∧ a.day < b.day)

theorem Before.trans {a b c : Date} (hab : Before a b) (hbc : Before b c) : Before a c := by
  unfold Before at *
  omega

/-- The day after comes later. -/
theorem before_next (date : Date) : Before date date.next := by
  unfold Before next
  split
  · exact Or.inr ⟨rfl, Or.inr ⟨rfl, Nat.lt_succ_self _⟩⟩
  · split
    · exact Or.inr ⟨rfl, Or.inl (Nat.lt_succ_self _)⟩
    · exact Or.inl (Int.lt_succ _)

/-! ## Counting days -/

/-- The days before a month, from the start of its year. -/
def daysBeforeMonth (year : Int) (month : Nat) : Nat :=
  ((List.range (month - 1)).map fun m => monthLength year (m + 1)).sum

/-- The days from 0001-01-01 to the start of a year. -/
def daysBeforeYear (year : Int) : Int :=
  365 * (year - 1) + (year - 1) / 4 - (year - 1) / 100 + (year - 1) / 400

/-- The number of a day: 1970-01-01 has the number 0. -/
def dayNumber (date : Date) : Int :=
  daysBeforeYear date.year + daysBeforeMonth date.year date.month + date.day - 719163

theorem daysBeforeMonth_succ (year : Int) {month : Nat} (h : 1 ≤ month) :
    daysBeforeMonth year (month + 1) = daysBeforeMonth year month + monthLength year month := by
  obtain ⟨m, rfl⟩ := Nat.exists_eq_add_of_le' h
  unfold daysBeforeMonth
  rw [Nat.add_sub_cancel, Nat.add_sub_cancel, List.range_succ, List.map_append, List.sum_append]
  rfl

/-- The days of a year. -/
theorem daysBeforeMonth_thirteen (year : Int) :
    daysBeforeMonth year 13 = if isLeap year then 366 else 365 := by
  unfold daysBeforeMonth monthLength
  cases isLeap year <;> rfl

theorem daysBeforeYear_succ (year : Int) :
    daysBeforeYear (year + 1) = daysBeforeYear year + if isLeap year then 366 else 365 := by
  unfold daysBeforeYear isLeap
  split
  · next h => rw [decide_eq_true_eq] at h; omega
  · next h => rw [decide_eq_true_eq] at h; omega

/-- The day after has the next number. -/
theorem dayNumber_next {date : Date} (h : date.Valid) :
    date.next.dayNumber = date.dayNumber + 1 := by
  obtain ⟨year, month, day⟩ := date
  obtain ⟨hmonth, hmonthLe, hday, hdayLe⟩ := h
  unfold next dayNumber
  simp only at *
  split
  · push_cast; omega
  · next hlast =>
    split
    · -- the last day of a month
      have hsucc := daysBeforeMonth_succ year hmonth
      simp only
      omega
    · -- the last day of the year
      next htwelve =>
      have hsucc := daysBeforeMonth_succ year hmonth
      have hthirteen := daysBeforeMonth_thirteen year
      have hyear := daysBeforeYear_succ year
      obtain rfl : month = 12 := by omega
      rw [show 12 + 1 = 13 from rfl] at hsucc
      have hone : daysBeforeMonth (year + 1) 1 = 0 := rfl
      simp only [hone]
      by_cases hleap : isLeap year = true
      · rw [if_pos hleap] at hthirteen hyear
        omega
      · rw [if_neg hleap] at hthirteen hyear
        omega

/-- A later month of a year begins later. -/
theorem daysBeforeMonth_le (year : Int) {m n : Nat} (hm : 1 ≤ m) (h : m ≤ n) :
    daysBeforeMonth year m ≤ daysBeforeMonth year n := by
  induction n, h using Nat.le_induction with
  | base => exact le_rfl
  | succ n hmn ih =>
    have hsucc := daysBeforeMonth_succ year (hm.trans hmn)
    omega

/-- The days of a year, up to and including a date. -/
theorem daysBeforeMonth_add_day_le {date : Date} (h : date.Valid) :
    daysBeforeMonth date.year date.month + date.day
      ≤ if isLeap date.year then 366 else 365 := by
  have hsucc := daysBeforeMonth_succ date.year h.month_pos
  have hle := daysBeforeMonth_le date.year (Nat.le_add_left 1 date.month)
    (Nat.succ_le_succ h.month_le)
  have hday := h.day_le
  rw [daysBeforeMonth_thirteen] at hle
  omega

/-- A later date has a larger number. -/
theorem dayNumber_lt {a b : Date} (ha : a.Valid) (hb : b.Valid) (h : a.Before b) :
    a.dayNumber < b.dayNumber := by
  have hlast := daysBeforeMonth_add_day_le ha
  have hpos := hb.day_pos
  unfold dayNumber
  rcases h with hyear | ⟨hyear, hmonth | ⟨hmonth, hday⟩⟩
  · -- the year of the first date is over
    have hnext := daysBeforeYear_succ a.year
    have hle : daysBeforeYear (a.year + 1) ≤ daysBeforeYear b.year := by
      unfold daysBeforeYear
      omega
    by_cases hleap : isLeap a.year = true
    · rw [if_pos hleap] at hlast hnext
      omega
    · rw [if_neg hleap] at hlast hnext
      omega
  · have hsucc := daysBeforeMonth_succ a.year ha.month_pos
    have hle := daysBeforeMonth_le a.year (Nat.le_add_left 1 a.month) hmonth
    have hday := ha.day_le
    rw [← hyear]
    omega
  · rw [← hyear, ← hmonth]
    omega

/-- Dates with one number are one date. -/
theorem eq_of_dayNumber {a b : Date} (ha : a.Valid) (hb : b.Valid)
    (h : a.dayNumber = b.dayNumber) : a = b := by
  have hab : ¬a.Before b := fun hbefore => (dayNumber_lt ha hb hbefore).ne h
  have hba : ¬b.Before a := fun hbefore => (dayNumber_lt hb ha hbefore).ne h.symm
  obtain ⟨year, month, day⟩ := a
  obtain ⟨year', month', day'⟩ := b
  unfold Before at hab hba
  simp only at hab hba
  rw [Date.mk.injEq]
  omega

end Date

/-! ## A calendar -/

/-- A function from day numbers to dates that goes from each day to the next. -/
structure IsCalendar (f : Int → Date) : Prop where
  zero : f 0 = ⟨1970, 1, 1⟩
  valid : ∀ d, (f d).Valid
  succ : ∀ d, f (d + 1) = (f d).next

namespace IsCalendar

variable {f : Int → Date}

/-- A later day has a later date. -/
theorem strictMono (h : IsCalendar f) {c d : Int} (hcd : c < d) : (f c).Before (f d) := by
  obtain ⟨n, hn⟩ := Int.le.dest (Int.add_one_le_of_lt hcd)
  rw [← hn]
  induction n generalizing d with
  | zero =>
    rw [Int.natCast_zero, Int.add_zero, h.succ]
    exact Date.before_next _
  | succ n ih =>
    have hd : c < c + 1 + n := by omega
    rw [Int.natCast_succ, ← Int.add_assoc, h.succ]
    exact (ih hd rfl).trans (Date.before_next _)

/-- The date of a day has the number of the day. -/
theorem dayNumber_eq (h : IsCalendar f) (d : Int) : (f d).dayNumber = d := by
  have hstep : ∀ d, (f (d + 1)).dayNumber = (f d).dayNumber + 1 := fun d => by
    rw [h.succ, Date.dayNumber_next (h.valid d)]
  induction d with
  | zero => rw [h.zero]; decide
  | succ n ih => rw [hstep, ih]
  | pred n ih =>
    have hn := hstep (-n - 1)
    rw [Int.sub_add_cancel, ih] at hn
    omega

/-- Every date of the calendar is the date of its number. -/
theorem eq_of_valid (h : IsCalendar f) {date : Date} (hdate : date.Valid) :
    f date.dayNumber = date :=
  Date.eq_of_dayNumber (h.valid _) hdate (h.dayNumber_eq _)

end IsCalendar

/-! ## Years that start in March -/

/-- The days of an era before one of its years that start in March. -/
def marchStart (year : Nat) : Nat := 365 * year + year / 4 - year / 100

/-- The days of such a year. Its leap day is the one of the following February. -/
def marchLength (year : Nat) : Nat := if isLeap (year + 1) then 366 else 365

/-- The month of a day of such a year. -/
def marchMonth (dayOfYear : Nat) : Nat :=
  let shifted := (5 * dayOfYear + 2) / 153
  if shifted < 10 then shifted + 3 else shifted - 9

/-- The day of the month. -/
def marchDay (dayOfYear : Nat) : Nat :=
  dayOfYear - (153 * ((5 * dayOfYear + 2) / 153) + 2) / 5 + 1

/-- The date of a day of such a year of an era. -/
def marchDate (era : Int) (year dayOfYear : Nat) : Date where
  year := if marchMonth dayOfYear ≤ 2 then year + era * 400 + 1 else year + era * 400
  month := marchMonth dayOfYear
  day := marchDay dayOfYear

/-- Leap years repeat from era to era. -/
theorem isLeap_add_era (year era : Int) : isLeap (year + era * 400) = isLeap year := by
  unfold isLeap
  rw [decide_eq_decide]
  omega

/-- The February of such a year is the one of the year after. -/
theorem isLeap_february (year : Nat) (era : Int) :
    isLeap ((year : Int) + era * 400 + 1) = isLeap (year + 1) := by
  rw [← isLeap_add_era (year + 1) era, Int.add_right_comm]

theorem marchLength_le (year : Nat) : 365 ≤ marchLength year ∧ marchLength year ≤ 366 := by
  unfold marchLength
  split <;> omega

/-- The years of an era follow each other. -/
theorem marchStart_succ {year : Nat} (h : year < 399) :
    marchStart (year + 1) = marchStart year + marchLength year := by
  unfold marchStart marchLength isLeap
  split
  · next hleap => rw [decide_eq_true_eq] at hleap; omega
  · next hleap => rw [decide_eq_true_eq] at hleap; omega

theorem marchStart_last : marchStart 399 + marchLength 399 = 146097 := by decide

/-- What the months of such a year are, but for the leap day. -/
theorem march_common {n : Nat} (h : n < 365) :
    (1 ≤ marchMonth n ∧ marchMonth n ≤ 12) ∧ 1 ≤ marchDay n ∧
      marchDay n ≤ monthLength 1 (marchMonth n) := by
  have hall : ∀ n < 365, (1 ≤ marchMonth n ∧ marchMonth n ≤ 12) ∧ 1 ≤ marchDay n ∧
      marchDay n ≤ monthLength 1 (marchMonth n) := by
    decide +kernel
  exact hall n h

/-- How a day of such a year follows another, but for the leap day. -/
theorem march_succ {n : Nat} (h : n < 364) :
    (marchDay n < monthLength 1 (marchMonth n) ∧ marchMonth (n + 1) = marchMonth n ∧
      marchDay (n + 1) = marchDay n + 1) ∨
    (marchMonth n ≠ 2 ∧ marchDay n = monthLength 1 (marchMonth n) ∧ marchDay (n + 1) = 1 ∧
      marchMonth (n + 1) = if marchMonth n < 12 then marchMonth n + 1 else 1) := by
  have hall : ∀ n < 364,
      (marchDay n < monthLength 1 (marchMonth n) ∧ marchMonth (n + 1) = marchMonth n ∧
        marchDay (n + 1) = marchDay n + 1) ∨
      (marchMonth n ≠ 2 ∧ marchDay n = monthLength 1 (marchMonth n) ∧ marchDay (n + 1) = 1 ∧
        marchMonth (n + 1) = if marchMonth n < 12 then marchMonth n + 1 else 1) := by
    decide +kernel
  exact hall n h

/-- The year of a date makes no difference to the months but February. -/
theorem monthLength_of_ne {month : Nat} (h : month ≠ 2) (year year' : Int) :
    monthLength year month = monthLength year' month := by
  unfold monthLength
  rw [if_neg h, if_neg h]

theorem monthLength_one_le (year : Int) (month : Nat) :
    monthLength 1 month ≤ monthLength year month := by
  by_cases h : month = 2
  · subst h
    show 28 ≤ if isLeap year then 29 else 28
    split <;> omega
  · exact (monthLength_of_ne h 1 year).le

/-- The leap day is the last day of a long year. -/
theorem isLeap_of_lt_marchLength {year n : Nat} (era : Int) (hn : ¬n < 365)
    (h : n < marchLength year) : n = 365 ∧ isLeap ((year : Int) + era * 400 + 1) = true := by
  unfold marchLength at h
  split at h
  · next hyear => exact ⟨by omega, (isLeap_february year era).trans hyear⟩
  · omega

/-- Every day of such a year is a day of the calendar. -/
theorem valid_marchDate (era : Int) {year n : Nat} (h : n < marchLength year) :
    (marchDate era year n).Valid := by
  by_cases hn : n < 365
  · obtain ⟨⟨hpos, hle⟩, hday, hdayLe⟩ := march_common hn
    exact ⟨hpos, hle, hday, hdayLe.trans (monthLength_one_le _ _)⟩
  · obtain ⟨rfl, hleap⟩ := isLeap_of_lt_marchLength era hn h
    refine ⟨show 1 ≤ marchMonth 365 by decide, show marchMonth 365 ≤ 12 by decide,
      show 1 ≤ marchDay 365 by decide, ?_⟩
    show 29 ≤ if isLeap ((year : Int) + era * 400 + 1) then 29 else 28
    rw [if_pos hleap]

/-- **The next day** of such a year is the next date. -/
theorem next_marchDate (era : Int) {year n : Nat} (h : n + 1 < marchLength year) :
    (marchDate era year n).next = marchDate era year (n + 1) := by
  unfold marchDate Date.next
  simp only
  by_cases hn : n < 364
  · rcases march_succ hn with ⟨hlt, hmonth, hday⟩ | ⟨hne, hlast, hday, hmonth⟩
    · -- within a month
      rw [if_pos (hlt.trans_le (monthLength_one_le _ _)), hmonth, hday]
    · -- the last day of a month other than February
      rw [monthLength_of_ne hne _ 1, hlast, if_neg (lt_irrefl _), hmonth, hday]
      have hpos := (march_common (show n < 365 by omega)).1
      by_cases htwelve : marchMonth n < 12
      · rw [if_pos htwelve, if_pos htwelve]
        by_cases hjanuary : marchMonth n ≤ 2
        · rw [if_pos hjanuary, if_pos (by omega)]
        · rw [if_neg hjanuary, if_neg (by omega)]
      · rw [if_neg htwelve, if_neg htwelve, if_neg (by omega), if_pos (by omega)]
  · -- the day before a leap day
    have hle := (marchLength_le year).2
    obtain rfl : n = 364 := by omega
    obtain ⟨-, hleap⟩ := isLeap_of_lt_marchLength era (by omega) h
    have hfebruary : monthLength ((year : Int) + era * 400 + 1) 2 = 29 := by
      show (if isLeap ((year : Int) + era * 400 + 1) then 29 else 28) = 29
      rw [if_pos hleap]
    rw [show marchMonth 364 = 2 from rfl, show marchDay 364 = 28 from rfl,
      show marchMonth (364 + 1) = 2 from rfl, show marchDay (364 + 1) = 29 from rfl,
      if_pos (le_refl 2), hfebruary, if_pos (by omega)]

/-- The last day of such a year is followed by the first of March. -/
theorem next_marchDate_last (era : Int) (year : Nat) :
    (marchDate era year (marchLength year - 1)).next = marchDate era (year + 1) 0 := by
  have hyear : (year : Int) + era * 400 + 1 = (year + 1 : Nat) + era * 400 := by omega
  have hmarch : ∀ day, monthLength ((year : Int) + era * 400 + 1) 2 = day →
      (⟨(year : Int) + era * 400 + 1, 2, day⟩ : Date).next = marchDate era (year + 1) 0 := by
    rintro day rfl
    unfold Date.next
    rw [if_neg (lt_irrefl _), if_pos (show 2 < 12 by omega), hyear]
    rfl
  unfold marchLength
  by_cases h : isLeap (year + 1) = true
  · rw [if_pos h]
    refine hmarch 29 ?_
    show (if isLeap ((year : Int) + era * 400 + 1) then 29 else 28) = 29
    rw [isLeap_february, if_pos h]
  · rw [if_neg h]
    refine hmarch 28 ?_
    show (if isLeap ((year : Int) + era * 400 + 1) then 29 else 28) = 28
    rw [isLeap_february, if_neg h]

/-- The eras follow each other. -/
theorem marchDate_era (era : Int) : marchDate era 400 0 = marchDate (era + 1) 0 0 := by
  unfold marchDate
  rw [show ((400 : Nat) : Int) + era * 400 = ((0 : Nat) : Int) + (era + 1) * 400 by omega]

/-! ## Finding the year -/

/-- The year of a day of an era, without a search. -/
def yearOfEra (dayOfEra : Nat) : Nat :=
  (dayOfEra - dayOfEra / 1460 + dayOfEra / 36524 - dayOfEra / 146096) / 365

theorem yearOfEra_mono {m n : Nat} (h : m ≤ n) (hn : n ≤ 146096) :
    yearOfEra m ≤ yearOfEra n := by
  have hfour : m - m / 1460 ≤ n - n / 1460 := by omega
  have hcentury : m / 36524 - m / 146096 ≤ n / 36524 - n / 146096 := by omega
  unfold yearOfEra
  refine Nat.div_le_div_right ?_
  omega

/-- It is right on the first and on the last day of each year. -/
theorem yearOfEra_ends {year : Nat} (h : year < 400) :
    yearOfEra (marchStart year) = year ∧
      yearOfEra (marchStart year + (marchLength year - 1)) = year ∧
      marchStart year + (marchLength year - 1) ≤ 146096 := by
  have hall : ∀ year < 400, yearOfEra (marchStart year) = year ∧
      yearOfEra (marchStart year + (marchLength year - 1)) = year ∧
      marchStart year + (marchLength year - 1) ≤ 146096 := by
    decide +kernel
  exact hall year h

/-- So it is right on every day between them. -/
theorem yearOfEra_eq {year n : Nat} (h : year < 400) (hn : n < marchLength year) :
    yearOfEra (marchStart year + n) = year := by
  obtain ⟨hfirst, hlast, hle⟩ := yearOfEra_ends h
  have hend : marchStart year + n ≤ marchStart year + (marchLength year - 1) := by omega
  have hupper := yearOfEra_mono hend hle
  have hlower := yearOfEra_mono (Nat.le_add_right (marchStart year) n) (hend.trans hle)
  omega

/-- Every day of an era is a day of one of its years. -/
theorem exists_march {dayOfEra : Nat} (h : dayOfEra < 146097) :
    ∃ year n, year < 400 ∧ n < marchLength year ∧ dayOfEra = marchStart year + n := by
  induction dayOfEra with
  | zero => exact ⟨0, 0, by decide, by decide, rfl⟩
  | succ dayOfEra ih =>
    obtain ⟨year, n, hyear, hn, rfl⟩ := ih (by omega)
    by_cases hnext : n + 1 < marchLength year
    · exact ⟨year, n + 1, hyear, hnext, rfl⟩
    · -- the day before was the last one of its year
      by_cases hlast : year = 399
      · subst hlast
        have hend := marchStart_last
        omega
      · have hstart := marchStart_succ (show year < 399 by omega)
        have hpos := (marchLength_le (year + 1)).1
        exact ⟨year + 1, 0, by omega, by omega, by omega⟩

/-- The date of a day, counted from 1970-01-01. -/
def civil (day : Int) : Date :=
  let era := (day + 719468) / 146097
  let dayOfEra := ((day + 719468) % 146097).toNat
  marchDate era (yearOfEra dayOfEra) (dayOfEra - marchStart (yearOfEra dayOfEra))

/-- The date of a day by its era, its year and its day of the year. -/
theorem civil_eq (era : Int) {year n : Nat} (h : year < 400) (hn : n < marchLength year) :
    civil (era * 146097 + (marchStart year + n : Nat) - 719468) = marchDate era year n := by
  have hle := (yearOfEra_ends h).2.2
  have hera : (era * 146097 + (marchStart year + n : Nat) - 719468 + 719468) / 146097 = era := by
    omega
  have hday : ((era * 146097 + (marchStart year + n : Nat) - 719468 + 719468) % 146097).toNat
      = marchStart year + n := by omega
  unfold civil
  simp only [hera, hday, yearOfEra_eq h hn, Nat.add_sub_cancel_left]

/-- Every day has an era, a year and a day of the year. -/
theorem exists_era (day : Int) : ∃ (era : Int) (year n : Nat), year < 400 ∧
    n < marchLength year ∧ day = era * 146097 + (marchStart year + n : Nat) - 719468 := by
  have hlt : ((day + 719468) % 146097).toNat < 146097 := by omega
  obtain ⟨year, n, hyear, hn, he⟩ := exists_march hlt
  refine ⟨(day + 719468) / 146097, year, n, hyear, hn, ?_⟩
  rw [← he]
  omega

/-- **The dates follow each other.** -/
theorem isCalendar_civil : IsCalendar civil where
  zero := by decide +kernel
  valid d := by
    obtain ⟨era, year, n, hyear, hn, rfl⟩ := exists_era d
    rw [civil_eq era hyear hn]
    exact valid_marchDate era hn
  succ d := by
    obtain ⟨era, year, n, hyear, hn, rfl⟩ := exists_era d
    rw [civil_eq era hyear hn]
    by_cases hnext : n + 1 < marchLength year
    · rw [next_marchDate era hnext, ← civil_eq era hyear hnext]
      congr 1
      omega
    · obtain rfl : n = marchLength year - 1 := by omega
      have hpos := (marchLength_le (year + 1)).1
      rw [next_marchDate_last]
      by_cases hlast : year = 399
      · -- the last day of an era
        subst hlast
        have hend := marchStart_last
        rw [marchDate_era, ← civil_eq (era + 1) (show 0 < 400 by omega)
          (show 0 < marchLength 0 by decide)]
        congr 1
        have hzero : marchStart 0 = 0 := rfl
        omega
      · have hstart := marchStart_succ (show year < 399 by omega)
        rw [← civil_eq era (show year + 1 < 400 by omega)
          (show 0 < marchLength (year + 1) by omega)]
        congr 1
        omega

end Infra
