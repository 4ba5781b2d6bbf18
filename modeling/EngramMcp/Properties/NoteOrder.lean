import EngramMcp.Infra.Decimal
import EngramMcp.Properties.Calendar

/-!
# The order of notes

Timestamps and note names begin with the year, the month, the day, the hour, the minute and the
second, each in a fixed width. In the years 0000 to 9999 their bytes therefore come in the order
of time, whatever slug and attempt follow.

* `timeFields_lt` — a later second has later parts
* `notes_sort_in_time_order` — the property
-/

namespace EngramMcp

open Infra

/-- The parts of a second: year, month, day, hour, minute and second. -/
def timeFields (seconds : Int64) : List Nat :=
  [(utcDate seconds).year.toNat, (utcDate seconds).month, (utcDate seconds).day,
    (utcTime seconds).1, (utcTime seconds).2.1, (utcTime seconds).2.2]

/-- A second in the years 0000 to 9999. -/
def InFourDigitYears (seconds : Int64) : Prop :=
  0 ≤ (utcDate seconds).year ∧ (utcDate seconds).year ≤ 9999

/-- A later second has later parts. -/
theorem timeFields_lt {s t : Int64} (hs : InFourDigitYears s) (ht : InFourDigitYears t)
    (h : s < t) : timeFields s < timeFields t := by
  have hlt : s.toInt < t.toInt := Int64.lt_iff_toInt_lt.mp h
  unfold timeFields
  simp only [List.cons_lt_cons_iff, List.lt_irrefl, and_false, or_false]
  by_cases hday : s.toInt / 86400 < t.toInt / 86400
  · -- another day: the dates decide
    have hbefore := isCalendar_civil.strictMono hday
    rw [← utcDate_eq_civil, ← utcDate_eq_civil] at hbefore
    unfold Date.Before at hbefore
    unfold InFourDigitYears at hs ht
    omega
  · have hsame : s.toInt / 86400 = t.toInt / 86400 := by omega
    rw [utcDate_eq_civil, utcDate_eq_civil, utcTime_eq, utcTime_eq, hsame]
    refine Or.inr ⟨rfl, Or.inr ⟨rfl, Or.inr ⟨rfl, ?_⟩⟩⟩
    simp only
    omega

/-! ## Numbers in text -/

/-- A number that fits is written with exactly its width. -/
theorem utf8_zeroPadded {width n : Nat} (h : n < 10 ^ (width + 1)) :
    utf8 (zeroPadded (width + 1) n) = decimal (width + 1) n := by
  rw [← map_ascii_zeroFilled h]
  refine utf8_ofList_ascii fun c hc => ?_
  have hdigit := toNat_of_mem_zeroFilled hc
  omega

/-- A year of four digits. -/
theorem utf8_paddedYear {year : Int64} (h0 : 0 ≤ year.toInt) (h : year.toInt ≤ 9999) :
    utf8 (paddedYear year) = decimal 4 year.toInt.toNat := by
  have hsign : ¬year < 0 := fun hlt => by
    have hneg := Int64.lt_iff_toInt_lt.mp hlt
    rw [show (0 : Int64).toInt = 0 from rfl] at hneg
    omega
  have habs : year.toInt.natAbs = year.toInt.toNat := by omega
  unfold paddedYear
  rw [if_neg hsign, habs, utf8_zeroPadded (by omega)]

/-- A part of two digits. -/
theorem utf8_padded {n : UInt32} (h : n.toNat < 100) : utf8 (padded n) = decimal 2 n.toNat :=
  utf8_zeroPadded h

/-- The parts fit their places. -/
theorem parts_lt {s : Int64} (hs : InFourDigitYears s) :
    (utcDate s).year.toNat < 10 ^ 4 ∧ (utcDate s).month < 100 ∧ (utcDate s).day < 100 ∧
      (utcTime s).1 < 100 ∧ (utcTime s).2.1 < 100 ∧ (utcTime s).2.2 < 100 := by
  have hvalid := isCalendar_civil.valid (s.toInt / 86400)
  rw [← utcDate_eq_civil] at hvalid
  obtain ⟨-, hmonth, -, hday⟩ := hvalid
  have hlength := (monthLength_bounds (utcDate s).year (utcDate s).month).2
  have hyear := hs.2
  rw [utcTime_eq]
  refine ⟨by omega, by omega, by omega, ?_, ?_, ?_⟩
  all_goals
    simp only
    omega

/-- The places of a timestamp, with what stands behind each. -/
def timestampLayout : List (Nat × Bytes) :=
  [(4, utf8 "-"), (2, utf8 "-"), (2, utf8 "T"), (2, utf8 ":"), (2, utf8 ":"), (2, utf8 "Z")]

/-- The places of a note name. -/
def nameLayout : List (Nat × Bytes) :=
  [(4, utf8 "-"), (2, utf8 "-"), (2, utf8 "-"), (2, []), (2, []), (2, utf8 "-")]

theorem fits_timeFields {s : Int64} (hs : InFourDigitYears s) :
    Fits timestampLayout (timeFields s) ∧ Fits nameLayout (timeFields s) := by
  obtain ⟨hyear, hmonth, hday, hhour, hminute, hsecond⟩ := parts_lt hs
  unfold Fits timestampLayout nameLayout timeFields
  simp only [List.forall₂_cons, List.forall₂_nil_left_iff, and_true]
  exact ⟨⟨hyear, hmonth, hday, hhour, hminute, hsecond⟩,
    ⟨hyear, hmonth, hday, hhour, hminute, hsecond⟩⟩

/-- The year, in bytes, and the other parts. -/
theorem utf8_parts {s : Int64} (hs : InFourDigitYears s) {year : Int64}
    {month day hour minute second : UInt32}
    (h : utcParts s = (year, month, day, hour, minute, second)) :
    timeFields s = [year.toInt.toNat, month.toNat, day.toNat, hour.toNat, minute.toNat,
        second.toNat] ∧
      utf8 (paddedYear year) = decimal 4 year.toInt.toNat ∧
      utf8 (padded month) = decimal 2 month.toNat ∧ utf8 (padded day) = decimal 2 day.toNat ∧
      utf8 (padded hour) = decimal 2 hour.toNat ∧ utf8 (padded minute) = decimal 2 minute.toNat ∧
      utf8 (padded second) = decimal 2 second.toNat := by
  have hdate : utcDate s = ⟨year.toInt, month.toNat, day.toNat⟩ := by
    unfold utcDate
    rw [h]
  have htime : utcTime s = (hour.toNat, minute.toNat, second.toNat) := by
    unfold utcTime
    rw [h]
  obtain ⟨-, hmonth, hday, hhour, hminute, hsecond⟩ := parts_lt hs
  obtain ⟨hyear0, hyear⟩ := hs
  rw [hdate] at hmonth hday hyear0 hyear
  rw [htime] at hhour hminute hsecond
  refine ⟨?_, utf8_paddedYear hyear0 hyear, utf8_padded hmonth, utf8_padded hday,
    utf8_padded hhour, utf8_padded hminute, utf8_padded hsecond⟩
  unfold timeFields
  rw [hdate, htime]

/-- A timestamp, in bytes. -/
theorem utf8_rfc3339Utc {s : Int64} (hs : InFourDigitYears s) :
    utf8 (rfc3339Utc s) = layout timestampLayout (timeFields s) [] := by
  rcases hparts : utcParts s with ⟨year, month, day, hour, minute, second⟩
  obtain ⟨hfields, hy, hmo, hd, hh, hmi, hsec⟩ := utf8_parts hs hparts
  unfold rfc3339Utc
  rw [hparts, hfields]
  simp only [utf8_append, hy, hmo, hd, hh, hmi, hsec, timestampLayout, layout, List.append_assoc,
    List.append_nil]

/-- A note name, in bytes: behind the parts come the slug and the attempt. -/
theorem utf8_noteFileName {s : Int64} (hs : InFourDigitYears s) (slug : String) (attempt : Nat) :
    ∃ rest, utf8 (noteFileName s slug attempt) = layout nameLayout (timeFields s) rest := by
  rcases hparts : utcParts s with ⟨year, month, day, hour, minute, second⟩
  obtain ⟨hfields, hy, hmo, hd, hh, hmi, hsec⟩ := utf8_parts hs hparts
  unfold noteFileName
  rw [hparts, hfields]
  simp only [utf8_append, hy, hmo, hd, hh, hmi, hsec, nameLayout, layout, List.append_assoc,
    List.nil_append]
  exact ⟨_, rfl⟩

/-! ## The property -/

/--
Timestamps and note names sort in time order: of two seconds in the years 0000 to 9999, the
earlier has the timestamp and the names that come first, byte by byte, whatever slugs and attempts
the names have. So equal timestamps are of one second.
-/
theorem notes_sort_in_time_order {s t : Int64} (hs : InFourDigitYears s)
    (ht : InFourDigitYears t) :
    (s < t → utf8 (rfc3339Utc s) < utf8 (rfc3339Utc t) ∧
      ∀ (slug slug' : String) (attempt attempt' : Nat),
        utf8 (noteFileName s slug attempt) < utf8 (noteFileName t slug' attempt')) ∧
    (rfc3339Utc s = rfc3339Utc t → s = t) := by
  have horder : ∀ {s t : Int64}, InFourDigitYears s → InFourDigitYears t → s < t →
      utf8 (rfc3339Utc s) < utf8 (rfc3339Utc t) := by
    intro s t hs ht h
    rw [utf8_rfc3339Utc hs, utf8_rfc3339Utc ht]
    exact layout_lt (fits_timeFields hs).1 (fits_timeFields ht).1 (timeFields_lt hs ht h) _ _
  refine ⟨fun h => ⟨horder hs ht h, ?_⟩, ?_⟩
  · intro slug slug' attempt attempt'
    obtain ⟨rest, hname⟩ := utf8_noteFileName hs slug attempt
    obtain ⟨rest', hname'⟩ := utf8_noteFileName ht slug' attempt'
    rw [hname, hname']
    exact layout_lt (fits_timeFields hs).2 (fits_timeFields ht).2 (timeFields_lt hs ht h) _ _
  · intro h
    -- one of two different seconds has the timestamp that comes first
    rcases Int.lt_trichotomy s.toInt t.toInt with hlt | heq | hlt
    · have hless := horder hs ht (Int64.lt_iff_toInt_lt.mpr hlt)
      rw [h] at hless
      exact absurd hless (List.lt_irrefl _)
    · exact Int64.toInt_inj.mp heq
    · have hless := horder ht hs (Int64.lt_iff_toInt_lt.mpr hlt)
      rw [h] at hless
      exact absurd hless (List.lt_irrefl _)

/-- The last second of a leap year and the first of the next. -/
theorem notes_sort_in_time_order_new_year :
    utf8 (rfc3339Utc 978307199) < utf8 (rfc3339Utc 978307200) ∧
      ∀ (slug slug' : String) (attempt attempt' : Nat),
        utf8 (noteFileName 978307199 slug attempt)
          < utf8 (noteFileName 978307200 slug' attempt') := by
  have hs : InFourDigitYears 978307199 := by
    unfold InFourDigitYears
    decide +kernel
  have ht : InFourDigitYears 978307200 := by
    unfold InFourDigitYears
    decide +kernel
  exact (notes_sort_in_time_order hs ht).1 (by decide)

end EngramMcp
