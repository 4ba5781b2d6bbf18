import EngramMcp.Infra.Utf8Prefix
import EngramMcp.Kb.Config
import EngramMcp.Properties.NoteOrder

/-!
# The day a note is about

`validate_occurred` takes ten bytes of the form `YYYY-MM-DD` and compares the month with 12 and the
day with 31, in every month of every year. So it takes every date of the calendar, and besides the
days from the end of a shorter month up to the 31st.

* `checkedValidateOccurred_eq` — no index and no slice is out of place
* `validateOccurred_eq_ok_iff` — what is accepted
* `isCalendarDay_iff` — what the calendar of the inbox writes
* `occurred_iff` — for which texts both agree
-/

namespace EngramMcp

open Infra

/-! ## The steps that could go wrong -/

/-- `&value[start..stop]`; nothing, where the source would panic. -/
def slice (value : String) (start stop : Nat) : Option String :=
  if start ≤ stop ∧ isCharBoundary (utf8 value) start ∧ isCharBoundary (utf8 value) stop then
    fromUtf8 (((utf8 value).take stop).drop start)
  else none

/-- The form that `validate_occurred` asks for, interrupted by an index that is out of place. -/
def checkedWellFormed (bytes : Bytes) : Option Bool := do
  if bytes.length ≠ 10 then return false
  let fourth ← bytes[4]?
  if fourth ≠ ascii '-' then return false
  let seventh ← bytes[7]?
  if seventh ≠ ascii '-' then return false
  [0, 1, 2, 3, 5, 6, 8, 9].allM fun i => bytes[i]?.map isAsciiDigit

/-- `validate_occurred`, interrupted by an index or a slice that is out of place. -/
def checkedValidateOccurred (value : String) : Option (Except InboxError String) := do
  let wellFormed ← checkedWellFormed (utf8 value)
  if !wellFormed then return .error .invalidOccurred
  let month ← slice value 5 7
  let month := (parseUnsigned (2 ^ 32) month).getD 0
  let day ← slice value 8 10
  let day := (parseUnsigned (2 ^ 32) day).getD 0
  if ¬(1 ≤ month ∧ month ≤ 12) ∨ ¬(1 ≤ day ∧ day ≤ 31) then return .error .invalidOccurred
  return .ok value

/-! ## The form of a date -/

/-- The bytes of a year, a month and a day. -/
def dateBytes (year month day : Nat) : Bytes :=
  decimal 4 year ++ (ascii '-' :: (decimal 2 month ++ (ascii '-' :: decimal 2 day)))

/-- The text of a year, a month and a day. -/
def dateText (year month day : Nat) : String :=
  zeroPadded 4 year ++ "-" ++ zeroPadded 2 month ++ "-" ++ zeroPadded 2 day

theorem utf8_dateText {year month day : Nat} (hyear : year < 10 ^ 4) (hmonth : month < 10 ^ 2)
    (hday : day < 10 ^ 2) : utf8 (dateText year month day) = dateBytes year month day := by
  have hdash : utf8 "-" = [ascii '-'] := by decide
  have hy : utf8 (zeroPadded 4 year) = decimal 4 year := utf8_zeroPadded hyear
  have hm : utf8 (zeroPadded 2 month) = decimal 2 month := utf8_zeroPadded hmonth
  have hd : utf8 (zeroPadded 2 day) = decimal 2 day := utf8_zeroPadded hday
  unfold dateText dateBytes
  simp only [utf8_append, hy, hm, hd, hdash, List.append_assoc, List.cons_append,
    List.nil_append]

/-- Ten bytes of the form `YYYY-MM-DD`. -/
def HasForm (bytes : Bytes) : Prop :=
  ∃ year month day, year < 10 ^ 4 ∧ month < 10 ^ 2 ∧ day < 10 ^ 2 ∧
    bytes = dateBytes year month day

theorem exists_digit {b : UInt8} (h : isAsciiDigit b = true) : ∃ d < 10, b = digitByte d := by
  unfold isAsciiDigit at h
  rw [Bool.and_eq_true, decide_eq_true_eq, decide_eq_true_eq, UInt8.le_iff_toNat_le,
    UInt8.le_iff_toNat_le] at h
  have hlow : 48 ≤ b.toNat := h.1
  have hhigh : b.toNat ≤ 57 := h.2
  refine ⟨b.toNat - 48, by omega, UInt8.toNat_inj.mp ?_⟩
  rw [toNat_digitByte (by omega)]
  omega

theorem isAsciiDigit_digitByte {d : Nat} (h : d < 10) : isAsciiDigit (digitByte d) = true := by
  unfold isAsciiDigit
  rw [Bool.and_eq_true, decide_eq_true_eq, decide_eq_true_eq, UInt8.le_iff_toNat_le,
    UInt8.le_iff_toNat_le, toNat_digitByte h]
  show 48 ≤ 48 + d ∧ 48 + d ≤ 57
  omega

theorem decimal_two (n : Nat) : decimal 2 n = [digitByte (n / 10 % 10), digitByte (n % 10)] := rfl

theorem decimal_four (n : Nat) : decimal 4 n = [digitByte (n / 1000 % 10),
    digitByte (n / 100 % 10), digitByte (n / 10 % 10), digitByte (n % 10)] := by
  have hhundred : n / 10 / 10 = n / 100 := by omega
  have hthousand : n / 10 / 10 / 10 = n / 1000 := by omega
  rw [← hthousand, ← hhundred]
  rfl

/-- Two digits, from the number that they write. -/
theorem decimal_digits {a b : Nat} (ha : a < 10) (hb : b < 10) :
    decimal 2 (10 * a + b) = [digitByte a, digitByte b] := by
  rw [decimal_two, show (10 * a + b) / 10 % 10 = a by omega, show (10 * a + b) % 10 = b by omega]

/-- Eight digits and two dashes. -/
theorem hasForm_of_digits {y0 y1 y2 y3 m0 m1 d0 d1 : UInt8}
    (h : [y0, y1, y2, y3, m0, m1, d0, d1].all isAsciiDigit = true) :
    HasForm [y0, y1, y2, y3, ascii '-', m0, m1, ascii '-', d0, d1] := by
  simp only [List.all_cons, List.all_nil, Bool.and_true, Bool.and_eq_true] at h
  obtain ⟨h0, h1, h2, h3, h4, h5, h6, h7⟩ := h
  obtain ⟨y0, hy0, rfl⟩ := exists_digit h0
  obtain ⟨y1, hy1, rfl⟩ := exists_digit h1
  obtain ⟨y2, hy2, rfl⟩ := exists_digit h2
  obtain ⟨y3, hy3, rfl⟩ := exists_digit h3
  obtain ⟨m0, hm0, rfl⟩ := exists_digit h4
  obtain ⟨m1, hm1, rfl⟩ := exists_digit h5
  obtain ⟨d0, hd0, rfl⟩ := exists_digit h6
  obtain ⟨d1, hd1, rfl⟩ := exists_digit h7
  refine ⟨1000 * y0 + 100 * y1 + 10 * y2 + y3, 10 * m0 + m1, 10 * d0 + d1, by omega, by omega,
    by omega, ?_⟩
  have hyear : decimal 4 (1000 * y0 + 100 * y1 + 10 * y2 + y3)
      = [digitByte y0, digitByte y1, digitByte y2, digitByte y3] := by
    rw [decimal_four, show (1000 * y0 + 100 * y1 + 10 * y2 + y3) / 1000 % 10 = y0 by omega,
      show (1000 * y0 + 100 * y1 + 10 * y2 + y3) / 100 % 10 = y1 by omega,
      show (1000 * y0 + 100 * y1 + 10 * y2 + y3) / 10 % 10 = y2 by omega,
      show (1000 * y0 + 100 * y1 + 10 * y2 + y3) % 10 = y3 by omega]
  rw [dateBytes, hyear, decimal_digits hm0 hm1, decimal_digits hd0 hd1]
  rfl

/-- The bytes of the form, one by one. -/
theorem dateBytes_eq (year month day : Nat) : dateBytes year month day =
    [digitByte (year / 1000 % 10), digitByte (year / 100 % 10), digitByte (year / 10 % 10),
      digitByte (year % 10), ascii '-', digitByte (month / 10 % 10), digitByte (month % 10),
      ascii '-', digitByte (day / 10 % 10), digitByte (day % 10)] := by
  rw [dateBytes, decimal_four, decimal_two, decimal_two]
  rfl

/-- A test of bytes that are there. -/
theorem allM_getElem? {bytes : Bytes} (p : UInt8 → Bool) {places : List Nat} (found : Bytes)
    (h : places.map (fun i => bytes[i]?) = found.map some) :
    places.allM (fun i => bytes[i]?.map p) = some (found.all p) := by
  induction places generalizing found with
  | nil =>
    rw [List.map_nil, eq_comm, List.map_eq_nil_iff] at h
    subst h
    rfl
  | cons i places ih =>
    cases found with
    | nil => exact nomatch h
    | cons b found =>
      have hi : bytes[i]? = some b := (List.cons.inj h).1
      have hrest := ih found (List.cons.inj h).2
      rw [List.allM, hi, Option.map_some, List.all_cons, hrest]
      cases p b <;> rfl

/-- Bytes of the form are found to have it. -/
theorem checkedWellFormed_dateBytes (year month day : Nat) :
    checkedWellFormed (dateBytes year month day) = some true := by
  have hdigit : ∀ n, isAsciiDigit (digitByte (n % 10)) = true := fun n =>
    isAsciiDigit_digitByte (Nat.mod_lt n (by decide))
  rw [dateBytes_eq]
  refine (allM_getElem? isAsciiDigit [_, _, _, _, _, _, _, _] rfl).trans ?_
  simp only [List.all_cons, List.all_nil, hdigit, Bool.and_self]

/-- All other bytes are found not to have it, and no index is out of place. -/
theorem checkedWellFormed_of_not {bytes : Bytes} (h : ¬HasForm bytes) :
    checkedWellFormed bytes = some false := by
  unfold checkedWellFormed
  by_cases hlen : bytes.length = 10
  · match bytes, hlen with
    | [y0, y1, y2, y3, h0, m0, m1, h1, d0, d1], _ =>
      by_cases hh0 : h0 = ascii '-'
      · by_cases hh1 : h1 = ascii '-'
        · subst hh0 hh1
          have hall : [y0, y1, y2, y3, m0, m1, d0, d1].all isAsciiDigit = false := by
            rw [← Bool.not_eq_true]
            exact fun hall => h (hasForm_of_digits hall)
          rw [← hall]
          exact allM_getElem? isAsciiDigit _ rfl
        · simp [hh0, hh1]
      · simp [hh0]
  · simp [hlen]

/-! ## What is accepted -/

theorem isContinuation_digitByte {d : Nat} (h : d < 10) : isContinuation (digitByte d) = false := by
  rw [← Bool.not_eq_true, isContinuation_iff, toNat_digitByte h]
  omega

/-- Two digits are text. -/
theorem fromUtf8_digits {a b : Nat} (ha : a < 10) (hb : b < 10) :
    fromUtf8 [digitByte a, digitByte b] = some (String.ofList [a.digitChar, b.digitChar]) := by
  refine fromUtf8_eq_some_iff.mpr ?_
  rw [utf8_ofList_ascii, List.map_cons, List.map_singleton, ascii_digitChar ha,
    ascii_digitChar hb]
  intro c hc
  have hdigit : ∀ d < 10, (Nat.digitChar d).toNat < 128 := by decide
  rcases List.mem_cons.mp hc with rfl | hc
  · exact hdigit a ha
  · rw [List.mem_singleton.mp hc]
    exact hdigit b hb

/-- They are the number that they write. -/
theorem parseUnsigned_digits {a b : Nat} (ha : a < 10) (hb : b < 10) :
    parseUnsigned (2 ^ 32) (String.ofList [a.digitChar, b.digitChar]) = some (10 * a + b) := by
  have hall : ∀ a < 10, ∀ b < 10,
      parseUnsigned (2 ^ 32) (String.ofList [Nat.digitChar a, Nat.digitChar b])
        = some (10 * a + b) := by decide +kernel
  exact hall a ha b hb

/-- Neither slice of a text of the form is out of place. -/
theorem slice_dateBytes {value : String} {year month day : Nat}
    (h : utf8 value = dateBytes year month day) :
    slice value 5 7 = some (String.ofList [(month / 10 % 10).digitChar, (month % 10).digitChar]) ∧
    slice value 8 10 = some (String.ofList [(day / 10 % 10).digitChar, (day % 10).digitChar]) := by
  have hlow : ∀ n, n % 10 < 10 := fun n => Nat.mod_lt n (by decide)
  have hboundary : ∀ n, (!isContinuation (digitByte (n % 10))) = true := by
    intro n
    rw [isContinuation_digitByte (hlow n)]
    rfl
  unfold slice
  rw [h, dateBytes_eq]
  constructor
  · rw [if_pos ⟨by decide, hboundary (month / 10), rfl⟩]
    exact fromUtf8_digits (hlow _) (hlow _)
  · rw [if_pos ⟨by decide, hboundary (day / 10), rfl⟩]
    exact fromUtf8_digits (hlow _) (hlow _)

/-- The month and the day of a text of the form are compared with fixed bounds. -/
theorem validateOccurred_dateBytes {value : String} {year month day : Nat}
    (hmonth : month < 10 ^ 2) (hday : day < 10 ^ 2) (h : utf8 value = dateBytes year month day) :
    validateOccurred value = if (1 ≤ month ∧ month ≤ 12) ∧ (1 ≤ day ∧ day ≤ 31) then .ok value
      else .error .invalidOccurred := by
  have hdigit : ∀ n, isAsciiDigit (digitByte (n % 10)) = true := fun n =>
    isAsciiDigit_digitByte (Nat.mod_lt n (by decide))
  have htwo : ∀ n < 10 ^ 2, twoDigits (digitByte (n / 10 % 10)) (digitByte (n % 10)) = n := by
    intro n hn
    unfold twoDigits
    rw [toNat_digitByte (by omega), toNat_digitByte (by omega)]
    show 10 * (48 + _ - 48) + (48 + _ - 48) = n
    omega
  unfold validateOccurred
  rw [h, dateBytes_eq]
  simp only [List.all_cons, List.all_nil, hdigit, Bool.and_self, and_self, if_true,
    htwo month hmonth, htwo day hday]

/-- All other texts are refused. -/
theorem validateOccurred_of_not {value : String} (h : ¬HasForm (utf8 value)) :
    validateOccurred value = .error .invalidOccurred := by
  unfold validateOccurred
  split
  · next y0 y1 y2 y3 h0 m0 m1 h1 d0 d1 hbytes =>
    refine if_neg ?_
    rintro ⟨rfl, rfl, hall⟩
    rw [hbytes] at h
    exact h (hasForm_of_digits hall)
  · rfl

/-- No index and no slice is out of place, whatever the text. -/
theorem checkedValidateOccurred_eq (value : String) :
    checkedValidateOccurred value = some (validateOccurred value) := by
  unfold checkedValidateOccurred
  by_cases hform : HasForm (utf8 value)
  · obtain ⟨year, month, day, -, hmonth, hday, h⟩ := hform
    obtain ⟨hmonthText, hdayText⟩ := slice_dateBytes h
    have hm : 10 * (month / 10 % 10) + month % 10 = month := by omega
    have hd : 10 * (day / 10 % 10) + day % 10 = day := by omega
    rw [validateOccurred_dateBytes hmonth hday h, h, checkedWellFormed_dateBytes, hmonthText,
      hdayText]
    simp only [Option.bind_eq_bind, Option.bind_some,
      parseUnsigned_digits (Nat.mod_lt _ (by decide : 0 < 10)) (Nat.mod_lt _ (by decide : 0 < 10)),
      hm, hd, Option.getD_some]
    rw [if_neg (by decide : ¬(!true) = true)]
    by_cases hdate : (1 ≤ month ∧ month ≤ 12) ∧ (1 ≤ day ∧ day ≤ 31)
    · have hnot : ¬(¬(1 ≤ month ∧ month ≤ 12) ∨ ¬(1 ≤ day ∧ day ≤ 31)) := by omega
      rw [if_pos hdate, if_neg hnot]
      rfl
    · have hbad : ¬(1 ≤ month ∧ month ≤ 12) ∨ ¬(1 ≤ day ∧ day ≤ 31) := by omega
      rw [if_neg hdate, if_pos hbad]
      rfl
  · rw [validateOccurred_of_not hform, checkedWellFormed_of_not hform]
    rfl

/-- What is accepted: a month up to 12 and a day up to 31. -/
theorem validateOccurred_eq_ok_iff {value : String} : validateOccurred value = .ok value ↔
    ∃ year month day, year < 10 ^ 4 ∧ (1 ≤ month ∧ month ≤ 12) ∧ (1 ≤ day ∧ day ≤ 31) ∧
      value = dateText year month day := by
  constructor
  · intro h
    by_cases hform : HasForm (utf8 value)
    · obtain ⟨year, month, day, hyear, hmonth, hday, hvalue⟩ := hform
      rw [validateOccurred_dateBytes hmonth hday hvalue] at h
      split at h
      · next hdate =>
        rw [← utf8_dateText hyear hmonth hday, utf8_inj] at hvalue
        exact ⟨year, month, day, hyear, hdate.1, hdate.2, hvalue⟩
      · exact nomatch h
    · rw [validateOccurred_of_not hform] at h
      exact nomatch h
  · rintro ⟨year, month, day, hyear, hmonth, hday, rfl⟩
    rw [validateOccurred_dateBytes (by omega) (by omega)
      (utf8_dateText hyear (by omega) (by omega))]
    exact if_pos ⟨hmonth, hday⟩

/-- A text of the form tells its year, its month and its day. -/
theorem dateText_inj {year month day year' month' day' : Nat} (hyear : year < 10 ^ 4)
    (hmonth : month < 10 ^ 2) (hday : day < 10 ^ 2) (hyear' : year' < 10 ^ 4)
    (hmonth' : month' < 10 ^ 2) (hday' : day' < 10 ^ 2)
    (h : dateText year month day = dateText year' month' day') :
    year = year' ∧ month = month' ∧ day = day' := by
  have hbytes := congrArg utf8 h
  rw [utf8_dateText hyear hmonth hday, utf8_dateText hyear' hmonth' hday'] at hbytes
  unfold dateBytes at hbytes
  obtain ⟨hy, hbytes⟩ := List.append_inj hbytes (by rw [length_decimal, length_decimal])
  obtain ⟨hm, hbytes⟩ := List.append_inj (List.cons.inj hbytes).2
    (by rw [length_decimal, length_decimal])
  exact ⟨decimal_inj hyear hyear' hy, decimal_inj hmonth hmonth' hm,
    decimal_inj hday hday' (List.cons.inj hbytes).2⟩

/-! ## What the calendar writes -/

/-- The date of a day number, in the padding of `rfc3339_utc`. -/
def dayText (days : Int64) : String :=
  let (year, month, day) := civilFromDays days
  paddedYear year ++ "-" ++ padded month ++ "-" ++ padded day

/-- The text is the date of a day number, in the years 0000 to 9999. -/
def IsCalendarDay (value : String) : Prop :=
  ∃ days : Int64, checkedCivilFromDays days.toInt = some (civilDate days) ∧
    (0 ≤ (civilDate days).year ∧ (civilDate days).year ≤ 9999) ∧ dayText days = value

/-- A date of the calendar is written with its year, its month and its day. -/
theorem dayText_eq {days : Int64} (hvalid : (civilDate days).Valid)
    (hfrom : 0 ≤ (civilDate days).year) (hto : (civilDate days).year ≤ 9999) :
    dayText days = dateText (civilDate days).year.toNat (civilDate days).month
      (civilDate days).day := by
  have hmonth : (civilDate days).month < 10 ^ 2 := by
    have hle := hvalid.month_le
    omega
  have hday : (civilDate days).day < 10 ^ 2 := by
    have hle := hvalid.day_le
    have hlength := (monthLength_bounds (civilDate days).year (civilDate days).month).2
    omega
  have hdash : utf8 "-" = [ascii '-'] := by decide
  refine utf8_injective ?_
  rw [utf8_dateText (by omega) hmonth hday]
  have hy : utf8 (paddedYear (civilFromDays days).1)
      = decimal 4 (civilDate days).year.toNat := utf8_paddedYear hfrom hto
  have hm : utf8 (padded (civilFromDays days).2.1) = decimal 2 (civilDate days).month :=
    utf8_padded hmonth
  have hd : utf8 (padded (civilFromDays days).2.2) = decimal 2 (civilDate days).day :=
    utf8_padded hday
  unfold dayText dateBytes
  simp only [utf8_append, hy, hm, hd, hdash, List.append_assoc, List.cons_append,
    List.nil_append]

/-- A computation that was not interrupted gives a date of the calendar. -/
theorem valid_of_checked {days : Int64}
    (h : checkedCivilFromDays days.toInt = some (civilDate days)) : (civilDate days).Valid := by
  have hle := Int64.le_toInt days
  have hlt : days.toInt + 719468 < 2 ^ 63 := by
    unfold checkedCivilFromDays at h
    obtain ⟨shifted, hshifted, -⟩ := Option.bind_eq_some_iff.mp h
    obtain ⟨rfl, -, hlt⟩ := inRange_eq_some hshifted
    exact hlt
  rw [checkedCivilFromDays_eq (by omega) (by omega), Option.some.injEq] at h
  rw [← h]
  exact isCalendar_civil.valid _

/-- The texts that the calendar writes are the dates of the years 0000 to 9999. -/
theorem isCalendarDay_iff {value : String} : IsCalendarDay value ↔
    ∃ year month day : Nat, year < 10 ^ 4 ∧ (1 ≤ month ∧ month ≤ 12) ∧
      (1 ≤ day ∧ day ≤ monthLength year month) ∧ value = dateText year month day := by
  constructor
  · rintro ⟨days, hchecked, ⟨hfrom, hto⟩, rfl⟩
    have hvalid := valid_of_checked hchecked
    have hcast : ((civilDate days).year.toNat : Int) = (civilDate days).year := by omega
    refine ⟨_, _, _, ?_, ⟨hvalid.month_pos, hvalid.month_le⟩, ⟨hvalid.day_pos, ?_⟩,
      dayText_eq hvalid hfrom hto⟩
    · omega
    · rw [hcast]
      exact hvalid.day_le
  · rintro ⟨year, month, day, hyear, hmonth, hday, rfl⟩
    have hvalid : Date.Valid ⟨year, month, day⟩ := ⟨hmonth.1, hmonth.2, hday.1, hday.2⟩
    -- the day number of the date
    obtain ⟨number, hnumber⟩ : ∃ number, number = Date.dayNumber ⟨year, month, day⟩ := ⟨_, rfl⟩
    have hbounds : -2 ^ 60 ≤ number ∧ number ≤ 2 ^ 60 := by
      have hle := Date.daysBeforeMonth_add_day_le hvalid
      have hyearLength : (if isLeap (year : Int) then 366 else 365) ≤ 366 := by split <;> omega
      rw [hnumber]
      unfold Date.dayNumber Date.daysBeforeYear
      simp only at hle ⊢
      omega
    have hdays : (Int64.ofInt number).toInt = number := toInt_ofInt_small hbounds.1 hbounds.2
    have hcivil : civilDate (Int64.ofInt number) = ⟨year, month, day⟩ := by
      rw [civilDate_eq (by omega) (by omega), hdays, hnumber]
      exact isCalendar_civil.eq_of_valid hvalid
    refine ⟨Int64.ofInt number, ?_, ?_, ?_⟩
    · rw [civilDate_eq (by omega) (by omega)]
      exact checkedCivilFromDays_eq (by omega) (by omega)
    · rw [hcivil]
      exact ⟨Int.natCast_nonneg _, by simp only; omega⟩
    · rw [dayText_eq (by rw [hcivil]; exact hvalid) (by rw [hcivil]; exact Int.natCast_nonneg _)
        (by rw [hcivil]; simp only; omega), hcivil]
      rfl

/-! ## The property -/

/-- A day up to the 31st that its month does not have. -/
def NoSuchDay (value : String) : Prop :=
  ∃ year month day : Nat, year < 10 ^ 4 ∧ (1 ≤ month ∧ month ≤ 12) ∧
    (monthLength year month < day ∧ day ≤ 31) ∧ value = dateText year month day

theorem not_isCalendarDay {value : String} (h : NoSuchDay value) : ¬IsCalendarDay value := by
  obtain ⟨year, month, day, hyear, hmonth, hday, hvalue⟩ := h
  rw [isCalendarDay_iff]
  rintro ⟨year', month', day', hyear', hmonth', hday', hvalue'⟩
  have hle := (monthLength_bounds year' month').2
  obtain ⟨rfl, rfl, rfl⟩ := dateText_inj hyear (by omega) (by omega) hyear' (by omega)
    (by omega) (hvalue.symm.trans hvalue')
  omega

/-- Such a day is accepted. -/
theorem validateOccurred_of_noSuchDay {value : String} (h : NoSuchDay value) :
    validateOccurred value = .ok value := by
  obtain ⟨year, month, day, hyear, hmonth, hday, hvalue⟩ := h
  have hpos := (monthLength_bounds year month).1
  exact validateOccurred_eq_ok_iff.mpr
    ⟨year, month, day, hyear, hmonth, ⟨by omega, hday.2⟩, hvalue⟩

/--
No slice is out of place, and what is accepted is what the calendar of the inbox writes, for every
text but the days that a month does not have.
-/
theorem occurred_iff (value : String) :
    (checkedValidateOccurred value = some (validateOccurred value) ∧
      (validateOccurred value = .ok value ↔ IsCalendarDay value)) ↔ ¬NoSuchDay value := by
  rw [and_iff_right (checkedValidateOccurred_eq value)]
  constructor
  · intro h hno
    exact not_isCalendarDay hno (h.mp (validateOccurred_of_noSuchDay hno))
  · intro h
    rw [validateOccurred_eq_ok_iff, isCalendarDay_iff]
    constructor
    · rintro ⟨year, month, day, hyear, hmonth, hday, hvalue⟩
      refine ⟨year, month, day, hyear, hmonth, ⟨hday.1, ?_⟩, hvalue⟩
      by_contra hlong
      exact h ⟨year, month, day, hyear, hmonth, ⟨Nat.lt_of_not_le hlong, hday.2⟩, hvalue⟩
    · rintro ⟨year, month, day, hyear, hmonth, hday, hvalue⟩
      have hle := (monthLength_bounds year month).2
      exact ⟨year, month, day, hyear, hmonth, ⟨hday.1, hday.2.trans hle⟩, hvalue⟩

/-- The thirtieth of February is accepted. -/
theorem occurred_thirtieth_of_february :
    ¬∀ value, checkedValidateOccurred value = some (validateOccurred value) ∧
      (validateOccurred value = .ok value ↔ IsCalendarDay value) := by
  intro h
  have hno : NoSuchDay "2026-02-30" :=
    ⟨2026, 2, 30, by decide, by decide, by decide, by decide⟩
  exact not_isCalendarDay hno ((h _).2.mp (validateOccurred_of_noSuchDay hno))

end EngramMcp
