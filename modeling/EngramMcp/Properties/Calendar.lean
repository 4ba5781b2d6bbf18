import EngramMcp.Infra.Calendar
import EngramMcp.Infra.FixedWidth
import EngramMcp.Kb.Inbox

/-!
# The calendar of the inbox

`civil_from_days` computes on machine integers. A build that checks every value is never
interrupted on a day number the server can have, and gives the date of the Gregorian calendar; a
build that wraps around gives the same.

* `checkedCivilFromDays_eq` — no value overflows, and the date is the calendar's
* `civilFromDays_eq` — the wrapping computation gives the same date
* `calendar_correct` — the property
-/

namespace EngramMcp

open Infra

/-- `civil_from_days`, interrupted by the first value that does not fit its type. -/
def checkedCivilFromDays (days : Int) : Option Date := do
  let shifted ← i64 (days + 719468)
  let dividend ← (if 0 ≤ shifted then some shifted else i64 (shifted - 146096))
  let era ← i64 (dividend.tdiv 146097)
  let eraDays ← i64 (era * 146097)
  let difference ← i64 (shifted - eraDays)
  let dayOfEra ← u64 difference
  let withoutLeapDays ← u64 (dayOfEra - dayOfEra / 1460)
  let withCenturies ← u64 (withoutLeapDays + dayOfEra / 36524)
  let yearDays ← u64 (withCenturies - dayOfEra / 146096)
  let yearOfEra := yearDays / 365
  let signedYear ← i64 yearOfEra
  let eraYears ← i64 (era * 400)
  let year ← i64 (signedYear + eraYears)
  let commonDays ← u64 (365 * yearOfEra)
  let withLeapDays ← u64 (commonDays + yearOfEra / 4)
  let daysBefore ← u64 (withLeapDays - yearOfEra / 100)
  let dayOfYear ← u64 (dayOfEra - daysBefore)
  let fiveDays ← u64 (5 * dayOfYear)
  let monthDividend ← u64 (fiveDays + 2)
  let shiftedMonth := monthDividend / 153
  let monthDays ← u64 (153 * shiftedMonth)
  let dayDividend ← u64 (monthDays + 2)
  let dayBefore ← u64 (dayOfYear - dayDividend / 5)
  let dayOfMonth ← u64 (dayBefore + 1)
  let day ← u32 dayOfMonth
  let monthOfYear ←
    (if shiftedMonth < 10 then u64 (shiftedMonth + 3) else u64 (shiftedMonth - 9))
  let month ← u32 monthOfYear
  let civilYear ← (if month ≤ 2 then i64 (year + 1) else some year)
  some ⟨civilYear, month.toNat, day.toNat⟩

/-- The date that `civil_from_days` answers. -/
def civilDate (days : Int64) : Date :=
  let (year, month, day) := civilFromDays days
  ⟨year.toInt, month.toNat, day.toNat⟩

/-! ## No value overflows -/

theorem inRange_of_eq {low high x y : Int} (h : x = y) (hle : low ≤ y) (hlt : y < high) :
    inRange low high x = some y := by
  subst h
  exact inRange_eq hle hlt

/-- A division that rounds to zero, with the correction for negative numbers, rounds down. -/
theorem tdiv_era (era : Int) {e : Int} (h0 : 0 ≤ e) (h : e < 146097) :
    (if 0 ≤ era * 146097 + e then era * 146097 + e
      else era * 146097 + e - 146096).tdiv 146097 = era := by
  split
  · next hnonneg =>
    rw [Int.tdiv_eq_ediv_of_nonneg hnonneg]
    omega
  · have hneg : era * 146097 + e - 146096 = -(-(era * 146097 + e - 146096)) := by omega
    rw [hneg, Int.neg_tdiv, Int.tdiv_eq_ediv_of_nonneg (by omega)]
    omega

/-- The months and days of a year that starts in March are small. -/
theorem march_bounds {n : Nat} (h : n < 366) :
    (5 * (n : Int) + 2) / 153 ≤ 11 ∧ (153 * ((5 * (n : Int) + 2) / 153) + 2) / 5 ≤ n ∧
      (marchDay n : Int) = n - (153 * ((5 * (n : Int) + 2) / 153) + 2) / 5 + 1 ∧
      (marchMonth n : Int) = if (5 * (n : Int) + 2) / 153 < 10 then (5 * (n : Int) + 2) / 153 + 3
        else (5 * (n : Int) + 2) / 153 - 9 := by
  have hshifted : (((5 * n + 2) / 153 : Nat) : Int) = (5 * (n : Int) + 2) / 153 := by omega
  refine ⟨by omega, by omega, ?_, ?_⟩
  · unfold marchDay
    omega
  · unfold marchMonth
    simp only
    split <;> split <;> omega

/-- No value overflows, and the date is the calendar's. -/
theorem checkedCivilFromDays_eq {days : Int} (hle : -2 ^ 63 ≤ days)
    (hlt : days < 2 ^ 63 - 719468) :
    checkedCivilFromDays days = some (civil days) := by
  obtain ⟨era, year, n, hyear, hn, rfl⟩ := exists_era days
  rw [civil_eq era hyear hn]
  have hend := (yearOfEra_ends hyear).2.2
  have hn366 : n < 366 := hn.trans_le (marchLength_le year).2
  have hyearOfEra := yearOfEra_eq hyear hn
  obtain ⟨hmonth, hbefore, hday, hmonthOf⟩ := march_bounds hn366
  obtain ⟨e, he⟩ : ∃ e : Nat, e = marchStart year + n := ⟨_, rfl⟩
  rw [← he] at hyearOfEra hle hlt ⊢
  have he0 : 0 ≤ (e : Int) := by omega
  have he1 : (e : Int) < 146097 := by omega
  have hstart : (marchStart year : Int) = 365 * year + (year : Int) / 4 - (year : Int) / 100 := by
    unfold marchStart
    omega
  have hyears : ((e : Int) - e / 1460 + e / 36524 - e / 146096) / 365 = year := by
    unfold yearOfEra at hyearOfEra
    omega
  unfold checkedCivilFromDays
  -- the era: the sign of the shifted day decides how the division rounds
  refine Option.bind_eq_some_iff.mpr ⟨era * 146097 + e,
    inRange_of_eq (by omega) (by omega) (by omega), ?_⟩
  refine Option.bind_eq_some_iff.mpr ⟨if 0 ≤ era * 146097 + e then era * 146097 + e
      else era * 146097 + e - 146096, ?_, ?_⟩
  · split
    · rfl
    · exact inRange_eq (by omega) (by omega)
  rw [tdiv_era era he0 he1]
  refine Option.bind_eq_some_iff.mpr ⟨era, inRange_eq (by omega) (by omega), ?_⟩
  refine Option.bind_eq_some_iff.mpr ⟨era * 146097, inRange_eq (by omega) (by omega), ?_⟩
  -- the day of the era is not negative from here on, and the differences stay so
  refine Option.bind_eq_some_iff.mpr ⟨e, inRange_of_eq (by omega) (by omega) (by omega), ?_⟩
  refine Option.bind_eq_some_iff.mpr ⟨e, inRange_eq (by omega) (by omega), ?_⟩
  refine Option.bind_eq_some_iff.mpr ⟨_, inRange_eq (by omega) (by omega), ?_⟩
  refine Option.bind_eq_some_iff.mpr ⟨_, inRange_eq (by omega) (by omega), ?_⟩
  refine Option.bind_eq_some_iff.mpr ⟨_, inRange_eq (by omega) (by omega), ?_⟩
  -- the year of the era is the one that was looked for
  simp only [hyears]
  refine Option.bind_eq_some_iff.mpr ⟨year, inRange_eq (by omega) (by omega), ?_⟩
  refine Option.bind_eq_some_iff.mpr ⟨era * 400, inRange_eq (by omega) (by omega), ?_⟩
  refine Option.bind_eq_some_iff.mpr ⟨year + era * 400, inRange_eq (by omega) (by omega), ?_⟩
  refine Option.bind_eq_some_iff.mpr ⟨365 * year, inRange_eq (by omega) (by omega), ?_⟩
  refine Option.bind_eq_some_iff.mpr ⟨_, inRange_eq (by omega) (by omega), ?_⟩
  refine Option.bind_eq_some_iff.mpr ⟨marchStart year,
    inRange_of_eq (by omega) (by omega) (by omega), ?_⟩
  refine Option.bind_eq_some_iff.mpr ⟨n, inRange_of_eq (by omega) (by omega) (by omega), ?_⟩
  -- the month and the day of the month
  refine Option.bind_eq_some_iff.mpr ⟨5 * n, inRange_eq (by omega) (by omega), ?_⟩
  refine Option.bind_eq_some_iff.mpr ⟨5 * n + 2, inRange_eq (by omega) (by omega), ?_⟩
  refine Option.bind_eq_some_iff.mpr ⟨_, inRange_eq (by omega) (by omega), ?_⟩
  refine Option.bind_eq_some_iff.mpr ⟨_, inRange_eq (by omega) (by omega), ?_⟩
  refine Option.bind_eq_some_iff.mpr ⟨_, inRange_eq (by omega) (by omega), ?_⟩
  refine Option.bind_eq_some_iff.mpr ⟨marchDay n,
    inRange_of_eq (by omega) (by omega) (by omega), ?_⟩
  refine Option.bind_eq_some_iff.mpr ⟨marchDay n, inRange_eq (by omega) (by omega), ?_⟩
  refine Option.bind_eq_some_iff.mpr ⟨marchMonth n, ?_, ?_⟩
  · rw [hmonthOf]
    split
    · exact inRange_eq (by omega) (by omega)
    · exact inRange_eq (by omega) (by omega)
  refine Option.bind_eq_some_iff.mpr ⟨marchMonth n, inRange_eq (by omega) (by omega), ?_⟩
  -- January and February belong to the next year
  refine Option.bind_eq_some_iff.mpr ⟨(marchDate era year n).year, ?_, ?_⟩
  · unfold marchDate
    simp only
    by_cases htwo : marchMonth n ≤ 2
    · rw [if_pos (by omega), if_pos htwo]
      exact inRange_eq (by omega) (by omega)
    · rw [if_neg (by omega), if_neg htwo]
  · rfl

/-! ## The wrapping computation -/

/-- Where the checks succeed, the computation that wraps around gives the same date. -/
theorem civilDate_of_checked {days : Int64} {date : Date}
    (h : checkedCivilFromDays days.toInt = some date) : civilDate days = date := by
  unfold checkedCivilFromDays at h
  obtain ⟨shifted, hshifted, h⟩ := Option.bind_eq_some_iff.mp h
  obtain ⟨dividend, hdividend, h⟩ := Option.bind_eq_some_iff.mp h
  obtain ⟨era, hera, h⟩ := Option.bind_eq_some_iff.mp h
  obtain ⟨eraDays, heraDays, h⟩ := Option.bind_eq_some_iff.mp h
  obtain ⟨difference, hdifference, h⟩ := Option.bind_eq_some_iff.mp h
  obtain ⟨dayOfEra, hdayOfEra, h⟩ := Option.bind_eq_some_iff.mp h
  obtain ⟨withoutLeapDays, hwithoutLeapDays, h⟩ := Option.bind_eq_some_iff.mp h
  obtain ⟨withCenturies, hwithCenturies, h⟩ := Option.bind_eq_some_iff.mp h
  obtain ⟨yearDays, hyearDays, h⟩ := Option.bind_eq_some_iff.mp h
  obtain ⟨signedYear, hsignedYear, h⟩ := Option.bind_eq_some_iff.mp h
  obtain ⟨eraYears, heraYears, h⟩ := Option.bind_eq_some_iff.mp h
  obtain ⟨year, hyear, h⟩ := Option.bind_eq_some_iff.mp h
  obtain ⟨commonDays, hcommonDays, h⟩ := Option.bind_eq_some_iff.mp h
  obtain ⟨withLeapDays, hwithLeapDays, h⟩ := Option.bind_eq_some_iff.mp h
  obtain ⟨daysBefore, hdaysBefore, h⟩ := Option.bind_eq_some_iff.mp h
  obtain ⟨dayOfYear, hdayOfYear, h⟩ := Option.bind_eq_some_iff.mp h
  obtain ⟨fiveDays, hfiveDays, h⟩ := Option.bind_eq_some_iff.mp h
  obtain ⟨monthDividend, hmonthDividend, h⟩ := Option.bind_eq_some_iff.mp h
  obtain ⟨monthDays, hmonthDays, h⟩ := Option.bind_eq_some_iff.mp h
  obtain ⟨dayDividend, hdayDividend, h⟩ := Option.bind_eq_some_iff.mp h
  obtain ⟨dayBefore, hdayBefore, h⟩ := Option.bind_eq_some_iff.mp h
  obtain ⟨dayOfMonth, hdayOfMonth, h⟩ := Option.bind_eq_some_iff.mp h
  obtain ⟨day, hday, h⟩ := Option.bind_eq_some_iff.mp h
  obtain ⟨monthOfYear, hmonthOfYear, h⟩ := Option.bind_eq_some_iff.mp h
  obtain ⟨month, hmonth, h⟩ := Option.bind_eq_some_iff.mp h
  obtain ⟨civilYear, hcivilYear, h⟩ := Option.bind_eq_some_iff.mp h
  obtain rfl := Option.some.inj h
  unfold civilDate civilFromDays
  simp only
  -- each word is named, and its value is the one that was checked
  generalize hw : days + 719468 = w
  obtain rfl : w.toInt = shifted := hw ▸ toInt_add_of_i64 hshifted
  generalize hw1 : (if 0 ≤ w then w else w - 146096) = w1
  obtain rfl : w1.toInt = dividend := by
    have hsign : 0 ≤ w ↔ 0 ≤ w.toInt := Int64.le_iff_toInt_le
    rw [← hw1]
    exact ite_of_checked Int64.toInt hsign hdividend Option.some.inj
      (fun hminus => toInt_sub_of_i64 hminus)
  generalize hw2 : w1 / 146097 = w2
  obtain rfl : w2.toInt = era := hw2 ▸ toInt_div_of_i64 hera
  generalize hw3 : w2 * 146097 = w3
  obtain rfl : w3.toInt = eraDays := hw3 ▸ toInt_mul_of_i64 heraDays
  generalize hw4 : w - w3 = w4
  obtain rfl : w4.toInt = difference := hw4 ▸ toInt_sub_of_i64 hdifference
  generalize hw5 : w4.toUInt64 = e
  obtain rfl : (e.toNat : Int) = dayOfEra := hw5 ▸ toNat_toUInt64 hdayOfEra
  generalize hw6 : e - e / 1460 = w6
  obtain rfl : (w6.toNat : Int) = withoutLeapDays :=
    hw6 ▸ toNat_sub_of_u64 ((toNat_div_eq e 1460).symm ▸ hwithoutLeapDays)
  generalize hw7 : w6 + e / 36524 = w7
  obtain rfl : (w7.toNat : Int) = withCenturies :=
    hw7 ▸ toNat_add_of_u64 ((toNat_div_eq e 36524).symm ▸ hwithCenturies)
  generalize hw8 : w7 - e / 146096 = w8
  obtain rfl : (w8.toNat : Int) = yearDays :=
    hw8 ▸ toNat_sub_of_u64 ((toNat_div_eq e 146096).symm ▸ hyearDays)
  generalize hy : w8 / 365 = y
  have hyearOfEra : (w8.toNat : Int) / 365 = y.toNat := hy ▸ (toNat_div_eq w8 365).symm
  rw [hyearOfEra] at hsignedYear hcommonDays hwithLeapDays hdaysBefore
  -- the year, signed again
  generalize hw9 : y.toInt64 = w9
  obtain rfl : w9.toInt = signedYear := hw9 ▸ toInt_toInt64 hsignedYear
  generalize hw10 : w2 * 400 = w10
  obtain rfl : w10.toInt = eraYears := hw10 ▸ toInt_mul_of_i64 heraYears
  generalize hw11 : w9 + w10 = w11
  obtain rfl : w11.toInt = year := hw11 ▸ toInt_add_of_i64 hyear
  -- the day of the year
  generalize hw12 : 365 * y = w12
  obtain rfl : (w12.toNat : Int) = commonDays := hw12 ▸ toNat_mul_of_u64 hcommonDays
  generalize hw13 : w12 + y / 4 = w13
  obtain rfl : (w13.toNat : Int) = withLeapDays :=
    hw13 ▸ toNat_add_of_u64 ((toNat_div_eq y 4).symm ▸ hwithLeapDays)
  generalize hw14 : w13 - y / 100 = w14
  obtain rfl : (w14.toNat : Int) = daysBefore :=
    hw14 ▸ toNat_sub_of_u64 ((toNat_div_eq y 100).symm ▸ hdaysBefore)
  generalize hw15 : e - w14 = n
  obtain rfl : (n.toNat : Int) = dayOfYear := hw15 ▸ toNat_sub_of_u64 hdayOfYear
  -- the month and the day
  generalize hw16 : 5 * n = w16
  obtain rfl : (w16.toNat : Int) = fiveDays := hw16 ▸ toNat_mul_of_u64 hfiveDays
  generalize hw17 : w16 + 2 = w17
  obtain rfl : (w17.toNat : Int) = monthDividend := hw17 ▸ toNat_add_of_u64 hmonthDividend
  generalize hm : w17 / 153 = m
  have hshiftedMonth : (w17.toNat : Int) / 153 = m.toNat := hm ▸ (toNat_div_eq w17 153).symm
  rw [hshiftedMonth] at hmonthDays hmonthOfYear
  generalize hw18 : 153 * m = w18
  obtain rfl : (w18.toNat : Int) = monthDays := hw18 ▸ toNat_mul_of_u64 hmonthDays
  generalize hw19 : w18 + 2 = w19
  obtain rfl : (w19.toNat : Int) = dayDividend := hw19 ▸ toNat_add_of_u64 hdayDividend
  generalize hw20 : n - w19 / 5 = w20
  obtain rfl : (w20.toNat : Int) = dayBefore :=
    hw20 ▸ toNat_sub_of_u64 ((toNat_div_eq w19 5).symm ▸ hdayBefore)
  generalize hw21 : w20 + 1 = w21
  obtain rfl : (w21.toNat : Int) = dayOfMonth := hw21 ▸ toNat_add_of_u64 hdayOfMonth
  generalize hw22 : w21.toUInt32 = w22
  obtain rfl : (w22.toNat : Int) = day := hw22 ▸ toNat_toUInt32 hday
  generalize hw23 : (if m < 10 then m + 3 else m - 9) = w23
  obtain rfl : (w23.toNat : Int) = monthOfYear := by
    have hten : m < 10 ↔ (m.toNat : Int) < 10 := by
      rw [UInt64.lt_iff_toNat_lt]
      exact Int.ofNat_lt.symm
    rw [← hw23]
    exact ite_of_checked (fun v : UInt64 => (v.toNat : Int)) hten hmonthOfYear
      (fun hplus => toNat_add_of_u64 hplus) (fun hminus => toNat_sub_of_u64 hminus)
  generalize hw24 : w23.toUInt32 = w24
  obtain rfl : (w24.toNat : Int) = month := hw24 ▸ toNat_toUInt32 hmonth
  have hcivil : (if w24 ≤ 2 then w11 + 1 else w11).toInt = civilYear := by
    have htwo : w24 ≤ 2 ↔ (w24.toNat : Int) ≤ 2 := by
      rw [UInt32.le_iff_toNat_le]
      exact Int.ofNat_le.symm
    exact ite_of_checked Int64.toInt htwo hcivilYear (fun hplus => toInt_add_of_i64 hplus)
      Option.some.inj
  rw [hcivil, Int.toNat_natCast, Int.toNat_natCast]

/-- The wrapping computation gives the date of the calendar. -/
theorem civilDate_eq {days : Int64} (hle : -2 ^ 61 ≤ days.toInt) (hlt : days.toInt ≤ 2 ^ 61) :
    civilDate days = civil days.toInt :=
  civilDate_of_checked (checkedCivilFromDays_eq (by omega) (by omega))

/-! ## The time of day -/

/-- The date part of `utc_parts`. -/
def utcDate (seconds : Int64) : Date :=
  let (year, month, day, _) := utcParts seconds
  ⟨year.toInt, month.toNat, day.toNat⟩

/-- The time part of `utc_parts`: hour, minute and second. -/
def utcTime (seconds : Int64) : Nat × Nat × Nat :=
  let (_, _, _, hour, minute, second) := utcParts seconds
  (hour.toNat, minute.toNat, second.toNat)

theorem toInt_ofInt_small {x : Int} (hle : -2 ^ 60 ≤ x) (hlt : x ≤ 2 ^ 60) :
    (Int64.ofInt x).toInt = x := Int64.toInt_ofInt_of_le (by omega) (by omega)

/-- The day of a second. -/
theorem toInt_day (seconds : Int64) :
    (Int64.ofInt (seconds.toInt / 86400)).toInt = seconds.toInt / 86400 := by
  have hle := Int64.le_toInt seconds
  have hlt := Int64.toInt_lt seconds
  exact toInt_ofInt_small (by omega) (by omega)

theorem utcDate_eq_civil (seconds : Int64) : utcDate seconds = civil (seconds.toInt / 86400) := by
  have hle := Int64.le_toInt seconds
  have hlt := Int64.toInt_lt seconds
  have hday := toInt_day seconds
  show civilDate (Int64.ofInt (seconds.toInt / 86400)) = _
  rw [civilDate_eq (by omega) (by omega), hday]

/-- The time of day, in exact numbers. -/
theorem utcTime_eq (seconds : Int64) :
    utcTime seconds = ((seconds.toInt % 86400 / 3600).toNat,
      (seconds.toInt % 86400 / 60 % 60).toNat, (seconds.toInt % 86400 % 60).toNat) := by
  obtain ⟨time, htime⟩ : ∃ time, time = Int64.ofInt (seconds.toInt % 86400) := ⟨_, rfl⟩
  have hvalue : time.toInt = seconds.toInt % 86400 := by
    rw [htime]
    exact toInt_ofInt_small (by omega) (by omega)
  have h0 : 0 ≤ time.toInt := by omega
  have hhour : (time / 3600).toInt = time.toInt / 3600 := toInt_div_of_nonneg h0 (by decide)
  have hminutes : (time / 60).toInt = time.toInt / 60 := toInt_div_of_nonneg h0 (by decide)
  have hminute : (time / 60 % 60).toInt = time.toInt / 60 % 60 := by
    rw [toInt_mod_of_nonneg (by omega), hminutes]
    rfl
  have hsecond : (time % 60).toInt = time.toInt % 60 := toInt_mod_of_nonneg h0
  have hhour32 := toNat_toUInt32_toInt32 (a := time / 3600) (by omega) (by omega)
  have hminute32 := toNat_toUInt32_toInt32 (a := time / 60 % 60) (by omega) (by omega)
  have hsecond32 := toNat_toUInt32_toInt32 (a := time % 60) (by omega) (by omega)
  show ((_ / 3600 : Int64).toInt32.toUInt32.toNat, (_ / 60 % 60 : Int64).toInt32.toUInt32.toNat,
    (_ % 60 : Int64).toInt32.toUInt32.toNat) = _
  rw [← htime, ← hvalue]
  refine Prod.ext ?_ (Prod.ext ?_ ?_)
  · simp only
    omega
  · simp only
    omega
  · simp only
    omega

/-! ## The property -/

/--
The calendar conversion is right. For every day number up to `2 ^ 60` in size no value overflows,
the date is one of the Gregorian calendar, and the next day has the next date; day 0 is 1970-01-01.
The parts of every second are the date of its day and its time of day, and give the second back.
-/
theorem calendar_correct :
    civilDate 0 = ⟨1970, 1, 1⟩ ∧
    (∀ d : Int64, -2 ^ 60 ≤ d.toInt → d.toInt ≤ 2 ^ 60 →
      checkedCivilFromDays d.toInt = some (civilDate d) ∧ (civilDate d).Valid ∧
      (d + 1).toInt = d.toInt + 1 ∧ civilDate (d + 1) = (civilDate d).next) ∧
    ∀ s : Int64,
      utcDate s = civilDate (Int64.ofInt (s.toInt / 86400)) ∧
      (Int64.ofInt (s.toInt / 86400)).toInt = s.toInt / 86400 ∧
      (utcTime s).1 < 24 ∧ (utcTime s).2.1 < 60 ∧ (utcTime s).2.2 < 60 ∧
      s.toInt = (utcDate s).dayNumber * 86400 + (utcTime s).1 * 3600 + (utcTime s).2.1 * 60
        + (utcTime s).2.2 := by
  refine ⟨by decide +kernel, ?_, ?_⟩
  · intro d hle hlt
    have hnext : (d + 1).toInt = d.toInt + 1 := toInt_add_of_i64 (inRange_eq (by
      show -2 ^ 63 ≤ d.toInt + 1
      omega) (by
      show d.toInt + 1 < 2 ^ 63
      omega))
    have htoday : civilDate d = civil d.toInt := civilDate_eq (by omega) (by omega)
    have htomorrow : civilDate (d + 1) = civil (d + 1).toInt :=
      civilDate_eq (by omega) (by omega)
    rw [htoday, htomorrow, hnext]
    exact ⟨checkedCivilFromDays_eq (by omega) (by omega), isCalendar_civil.valid _, rfl,
      isCalendar_civil.succ _⟩
  · intro s
    refine ⟨rfl, toInt_day s, ?_⟩
    rw [utcDate_eq_civil, isCalendar_civil.dayNumber_eq, utcTime_eq]
    refine ⟨?_, ?_, ?_, ?_⟩
    all_goals
      simp only
      omega

end EngramMcp
