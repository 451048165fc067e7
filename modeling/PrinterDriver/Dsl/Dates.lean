import PrinterDriver.Lib.Calendar

/-! # Dates and times

The calendar arithmetic of the date formatter. Years are counted from March, in eras of four hundred, so
that a leap day is the last day of its year; a day number is turned into a date and back by divisions
alone. The fields of a date are of the type `int`, and what does not fit into it wraps. -/

namespace PrinterDriver.Dsl.Dates

open PrinterDriver.Lib.Calendar

/-- A value of the type `int`. -/
abbrev IsInt (n : ℤ) : Prop := -2 ^ 31 ≤ n ∧ n < 2 ^ 31

/-- What is left of a number in an `int`. -/
def toInt (n : ℤ) : ℤ := (n + 2 ^ 31) % 2 ^ 32 - 2 ^ 31

theorem toInt_of_isInt {n : ℤ} (h : IsInt n) : toInt n = n := by
  unfold toInt
  omega

/-! ### Day numbers -/

def daysFromCivil (year month day : ℤ) : ℤ :=
  let y := if month ≤ 2 then year - 1 else year
  let era := (if 0 ≤ y then y else y - 399).tdiv 400
  let yoe := y - era * 400
  let doy := (153 * (month + (if 2 < month then -3 else 9)) + 2).tdiv 5 + day - 1
  let doe := yoe * 365 + yoe / 4 - yoe / 100 + doy
  era * 146097 + doe - 719468

/-- The year of a day of an era. -/
def yearOfEra (doe : ℤ) : ℤ := (doe - doe / 1460 + doe / 36524 - doe / 146096) / 365

/-- Year, month and day. -/
def civilFromDays (days : ℤ) : ℤ × ℤ × ℤ :=
  let days := days + 719468
  let era := (if 0 ≤ days then days else days - 146096).tdiv 146097
  let doe := days - era * 146097
  let yoe := yearOfEra doe
  let y := yoe + era * 400
  let doy := doe - (365 * yoe + yoe / 4 - yoe / 100)
  let mp := (5 * doy + 2) / 153
  let d := doy - (153 * mp + 2) / 5 + 1
  let m := mp + (if mp < 10 then 3 else -9)
  (toInt (y + if m ≤ 2 then 1 else 0), toInt m, toInt d)

/-! ### Eras -/

/-- The quotient is rounded down. -/
theorem tdiv_floor {k : ℤ} (hk : 0 < k) (n : ℤ) :
    (if 0 ≤ n then n else n - (k - 1)).tdiv k = n / k := by
  split_ifs with h
  · exact Int.tdiv_eq_ediv_of_nonneg h
  · have hneg : (n - (k - 1)).tdiv k = -(-(n - (k - 1)) / k) := by
      rw [← Int.tdiv_eq_ediv_of_nonneg (by omega), Int.neg_tdiv, Int.neg_neg]
    have hquot := Int.mul_ediv_add_emod n k
    have hlo := Int.emod_nonneg n (Int.ne_of_gt hk)
    have hhi := Int.emod_lt_of_pos n hk
    have hdiv : -(n - (k - 1)) / k = -(n / k) := by
      rw [Int.ediv_eq_iff_of_pos hk, Int.neg_mul, Int.mul_comm]
      omega
    rw [hneg, hdiv, Int.neg_neg]

/-- The days of an era before a year of it, which begins in March. -/
def yearStart (yoe : ℤ) : ℤ := 365 * yoe + yoe / 4 - yoe / 100 + yoe / 400

/-- The days of an era, without the leap days among them as `yearOfEra` counts them. -/
def commonDays (doe : ℤ) : ℤ := doe - doe / 1460 + doe / 36524 - doe / 146096

theorem monotone_commonDays : Monotone commonDays := by
  refine monotone_int_of_le_succ fun doe => ?_
  unfold commonDays
  omega

theorem commonDays_ends : ∀ yoe : Fin 400, 365 * (yoe : ℤ) ≤ commonDays (yearStart yoe) ∧
    commonDays (yearStart (yoe + 1) - 1) < 365 * ((yoe : ℤ) + 1) := by
  decide +kernel

/-- The year of an era is found from any day of it. -/
theorem yearOfEra_eq {yoe doe : ℤ} (hyoe : 0 ≤ yoe ∧ yoe < 400) (hlo : yearStart yoe ≤ doe)
    (hhi : doe < yearStart (yoe + 1)) : yearOfEra doe = yoe := by
  have hends := commonDays_ends ⟨yoe.toNat, by omega⟩
  have hcast : ((yoe.toNat : ℕ) : ℤ) = yoe := by omega
  dsimp only at hends
  rw [hcast] at hends
  have hge : commonDays (yearStart yoe) ≤ commonDays doe := monotone_commonDays hlo
  have hle : commonDays doe ≤ commonDays (yearStart (yoe + 1) - 1) :=
    monotone_commonDays (by omega)
  show commonDays doe / 365 = yoe
  omega

/-! ### Dates and day numbers -/

/-- The month counted from March. -/
def fromMarch (month : ℤ) : ℤ := month + (if 2 < month then -3 else 9)

/-- The year that begins in March. -/
def yearFromMarch (year month : ℤ) : ℤ := if month ≤ 2 then year - 1 else year

theorem era_days (y : ℤ) :
    y / 400 * 146097 + yearStart (y % 400) = 365 * y + y / 4 - y / 100 + y / 400 := by
  unfold yearStart
  omega

theorem daysFromCivil_eq {year month day : ℤ} (hm : 1 ≤ month ∧ month ≤ 12) :
    daysFromCivil year month day =
      yearFromMarch year month / 400 * 146097 + yearStart (yearFromMarch year month % 400) +
        ((153 * fromMarch month + 2) / 5 + day - 1) - 719468 := by
  have hera := tdiv_floor (show (0 : ℤ) < 400 by decide) (yearFromMarch year month)
  have hmonth : (153 * fromMarch month + 2).tdiv 5 = (153 * fromMarch month + 2) / 5 := by
    refine Int.tdiv_eq_ediv_of_nonneg ?_
    unfold fromMarch
    split_ifs <;> omega
  have hyoe : yearFromMarch year month - yearFromMarch year month / 400 * 400 =
      yearFromMarch year month % 400 := by
    omega
  have hunfold : daysFromCivil year month day =
      (let era := (if 0 ≤ yearFromMarch year month then yearFromMarch year month
        else yearFromMarch year month - (400 - 1)).tdiv 400
      let yoe := yearFromMarch year month - era * 400
      era * 146097 + (yoe * 365 + yoe / 4 - yoe / 100 +
        ((153 * fromMarch month + 2).tdiv 5 + day - 1)) - 719468) := rfl
  rw [hunfold]
  dsimp only
  rw [hera, hmonth, hyoe]
  unfold yearStart
  omega

/-- **The day number is that of the calendar.** -/
theorem daysFromCivil_eq_number (d : Date) : daysFromCivil d.year d.month d.day = d.number := by
  obtain ⟨⟨hlo, hhi⟩, -⟩ := d.valid
  rw [daysFromCivil_eq d.valid.1, era_days]
  unfold Date.number dayNumber
  rw [daysOfMonths_eq _ (by omega)]
  have hback : ((d.month - 1).toNat : ℤ) = d.month - 1 := by omega
  rw [hback]
  have hbase : daysBeforeYear 1970 = 719162 := rfl
  rw [hbase]
  generalize d.month = month at *
  unfold yearFromMarch fromMarch daysBeforeYear IsLeap
  by_cases hfirst : month ≤ 2
  · rw [if_pos hfirst, if_neg (by omega), if_pos (by omega)]
    obtain rfl | rfl : month = 1 ∨ month = 2 := by omega
    · omega
    · omega
  · rw [if_neg hfirst, if_pos (by omega), if_neg (by omega)]
    have hmonth : (153 * (month + -3) + 2) / 5 = (367 * (month - 1 + 1) - 362) / 12 - 61 := by
      omega
    rw [hmonth]
    split_ifs <;> omega

/-- The day of the year that begins in March. -/
def dayOfYear (month day : ℤ) : ℤ := (153 * fromMarch month + 2) / 5 + day - 1

theorem yearStart_succ (y : ℤ) :
    yearStart (y % 400 + 1) = yearStart (y % 400) + if IsLeap (y + 1) then 366 else 365 := by
  unfold yearStart
  split_ifs with h <;> unfold IsLeap at h <;> omega

/-- A date is a day of its year. -/
theorem dayOfYear_lt (d : Date) : 0 ≤ dayOfYear d.month d.day ∧ dayOfYear d.month d.day <
    if IsLeap (yearFromMarch d.year d.month + 1) then 366 else 365 := by
  obtain ⟨⟨hlo, hhi⟩, hday, hlen⟩ := d.valid
  have h31 := daysInMonth_le d.year d.month
  unfold dayOfYear fromMarch yearFromMarch
  by_cases hfebruary : d.month = 2
  · rw [hfebruary] at hlen ⊢
    have hyear : (if (2 : ℤ) ≤ 2 then d.year - 1 else d.year) + 1 = d.year :=
      Int.sub_add_cancel d.year 1
    have hmonth : (153 * ((2 : ℤ) + (if (2 : ℤ) < 2 then -3 else 9)) + 2) / 5 = 337 := rfl
    rw [hyear, hmonth]
    unfold daysInMonth at hlen
    rw [if_pos rfl] at hlen
    split_ifs at hlen ⊢ <;> omega
  · have hmonth : 0 ≤ (153 * (d.month + if 2 < d.month then -3 else 9) + 2) / 5 ∧
        (153 * (d.month + if 2 < d.month then -3 else 9) + 2) / 5 ≤ 306 := by
      split_ifs <;> omega
    split_ifs <;> omega

/-- Five months of any year that begins in March have 153 days; the last month is short. -/
theorem daysInMonth_le_fromMarch {year month : ℤ} (hm : 1 ≤ month ∧ month ≤ 12) :
    daysInMonth year month ≤
      (153 * (fromMarch month + 1) + 2) / 5 - (153 * fromMarch month + 2) / 5 := by
  obtain ⟨hlo, hhi⟩ := hm
  obtain rfl | rfl | rfl | rfl | rfl | rfl | rfl | rfl | rfl | rfl | rfl | rfl :
      month = 2 ∨ month = 1 ∨ month = 3 ∨ month = 4 ∨ month = 5 ∨ month = 6 ∨ month = 7 ∨ month = 8 ∨
        month = 9 ∨ month = 10 ∨ month = 11 ∨ month = 12 := by
    omega
  · have hlen : daysInMonth year 2 = if IsLeap year then 29 else 28 := if_pos rfl
    rw [hlen]
    show _ ≤ (30 : ℤ)
    split_ifs <;> omega
  all_goals exact Int.le_refl _

/-- The month is found from the day of the year. -/
theorem month_of_dayOfYear (d : Date) :
    (5 * dayOfYear d.month d.day + 2) / 153 = fromMarch d.month := by
  obtain ⟨hmonth, hday, hlen⟩ := d.valid
  have hle := @daysInMonth_le_fromMarch d.year _ hmonth
  unfold dayOfYear
  omega

theorem civilFromDays_number (d : Date) :
    civilFromDays d.number = (toInt d.year, d.month, d.day) := by
  obtain ⟨hmonth, hday, hlen⟩ := d.valid
  obtain ⟨hge, hlt⟩ := dayOfYear_lt d
  have hsucc := yearStart_succ (yearFromMarch d.year d.month)
  have hmp := month_of_dayOfYear d
  have h31 := daysInMonth_le d.year d.month
  have hnumber : d.number = yearFromMarch d.year d.month / 400 * 146097 +
      yearStart (yearFromMarch d.year d.month % 400) + dayOfYear d.month d.day - 719468 := by
    rw [← daysFromCivil_eq_number, daysFromCivil_eq hmonth]
    rfl
  generalize hY : yearFromMarch d.year d.month = y at *
  have hyoe : 0 ≤ y % 400 ∧ y % 400 < 400 := by omega
  have hdoe : yearOfEra (yearStart (y % 400) + dayOfYear d.month d.day) = y % 400 := by
    refine yearOfEra_eq hyoe (by omega) ?_
    rw [hsucc]
    omega
  have hbounds : 0 ≤ yearStart (y % 400) + dayOfYear d.month d.day ∧
      yearStart (y % 400) + dayOfYear d.month d.day < 146097 := by
    unfold yearStart at hsucc ⊢
    split_ifs at hsucc hlt <;> omega
  have hera : (d.number + 719468) / 146097 = y / 400 := by
    rw [hnumber]
    omega
  unfold civilFromDays
  dsimp only
  rw [show (146096 : ℤ) = 146097 - 1 from rfl, tdiv_floor (by decide), hera]
  have hrest : d.number + 719468 - y / 400 * 146097 =
      yearStart (y % 400) + dayOfYear d.month d.day := by
    rw [hnumber]
    omega
  rw [hrest, hdoe]
  have hdoy : yearStart (y % 400) + dayOfYear d.month d.day -
      (365 * (y % 400) + y % 400 / 4 - y % 400 / 100) = dayOfYear d.month d.day := by
    unfold yearStart
    omega
  rw [hdoy, hmp]
  have hm : fromMarch d.month + (if fromMarch d.month < 10 then 3 else -9) = d.month := by
    unfold fromMarch
    split_ifs <;> omega
  rw [hm]
  have hyear : y % 400 + y / 400 * 400 + (if d.month ≤ 2 then 1 else 0) = d.year := by
    rw [← hY]
    unfold yearFromMarch
    split_ifs <;> omega
  have hday' : dayOfYear d.month d.day - (153 * fromMarch d.month + 2) / 5 + 1 = d.day := by
    unfold dayOfYear
    omega
  rw [hyear, hday', toInt_of_isInt (n := d.month) (by omega), toInt_of_isInt (n := d.day) (by omega)]

/-! ### Times -/

structure DateTime where
  year : ℤ := 1970
  month : ℤ := 1
  day : ℤ := 1
  hour : ℤ := 0
  minute : ℤ := 0
  second : ℤ := 0
  millisecond : ℤ := 0
  hasTime : Bool := false
  hasOffset : Bool := false
  offsetMinutes : ℤ := 0
  deriving DecidableEq, Repr

/-- 0 is Sunday. -/
def DateTime.weekday (v : DateTime) : ℤ :=
  let weekday := (daysFromCivil v.year v.month v.day + 4).tmod 7
  if weekday < 0 then weekday + 7 else weekday

/-- Days are borrowed. -/
def borrowDays (minutes dayShift : ℤ) : ℤ × ℤ :=
  if minutes < 0 then borrowDays (minutes + 24 * 60) (dayShift - 1) else (minutes, dayShift)
termination_by (-minutes).toNat

/-- Days are carried. -/
def carryDays (minutes dayShift : ℤ) : ℤ × ℤ :=
  if 24 * 60 ≤ minutes then carryDays (minutes - 24 * 60) (dayShift + 1) else (minutes, dayShift)
termination_by minutes.toNat

/-- A date without a time does not move. -/
def shiftToOffset (v : DateTime) (targetOffsetMinutes : ℤ) : DateTime :=
  if !v.hasTime then v
  else
    let delta := toInt (targetOffsetMinutes - if v.hasOffset then v.offsetMinutes else 0)
    let borrowed := borrowDays (v.hour * 60 + v.minute + delta) 0
    let carried := carryDays borrowed.1 borrowed.2
    let date :=
      if carried.2 ≠ 0 then civilFromDays (daysFromCivil v.year v.month v.day + carried.2)
      else (v.year, v.month, v.day)
    { v with
      year := date.1
      month := date.2.1
      day := date.2.2
      hour := carried.1 / 60
      minute := carried.1 % 60
      hasOffset := true
      offsetMinutes := targetOffsetMinutes }

/-- The days of the week follow each other from a Thursday on, the first of 1970. -/
theorem weekday_eq {v : DateTime} (h : IsDate v.year v.month v.day) :
    v.weekday = (dayNumber v.year v.month v.day + 4) % 7 := by
  have hnumber : daysFromCivil v.year v.month v.day = dayNumber v.year v.month v.day :=
    daysFromCivil_eq_number ⟨v.year, v.month, v.day, h⟩
  unfold DateTime.weekday
  rw [hnumber]
  dsimp only
  have htmod := Int.tmod_eq_emod (a := dayNumber v.year v.month v.day + 4) (b := 7)
  split_ifs at htmod ⊢ <;> omega

theorem borrowDays_spec (minutes dayShift : ℤ) : 0 ≤ (borrowDays minutes dayShift).1 ∧
    (borrowDays minutes dayShift).1 + 1440 * (borrowDays minutes dayShift).2 =
      minutes + 1440 * dayShift := by
  induction minutes, dayShift using borrowDays.induct with
  | case1 minutes dayShift hneg ih =>
    rw [borrowDays, if_pos hneg]
    omega
  | case2 minutes dayShift hpos =>
    rw [borrowDays, if_neg hpos]
    omega

theorem carryDays_spec (minutes dayShift : ℤ) (h : 0 ≤ minutes) :
    (0 ≤ (carryDays minutes dayShift).1 ∧ (carryDays minutes dayShift).1 < 1440) ∧
      (carryDays minutes dayShift).1 + 1440 * (carryDays minutes dayShift).2 =
        minutes + 1440 * dayShift := by
  induction minutes, dayShift using carryDays.induct with
  | case1 minutes dayShift hlong ih =>
    have := ih (by omega)
    rw [carryDays, if_pos hlong]
    omega
  | case2 minutes dayShift hshort =>
    rw [carryDays, if_neg hshort]
    omega

/-! ### The same instant -/

/-- A time of a day of the calendar, with an offset; a minute may have a leap second. -/
structure DateTime.IsValid (v : DateTime) : Prop where
  date : IsDate v.year v.month v.day
  year : IsInt v.year
  hour : 0 ≤ v.hour ∧ v.hour ≤ 23
  minute : 0 ≤ v.minute ∧ v.minute ≤ 59
  second : 0 ≤ v.second ∧ v.second ≤ 60
  millisecond : 0 ≤ v.millisecond ∧ v.millisecond ≤ 999
  time : v.hasTime = true
  offset : v.hasOffset = true ∧ IsInt v.offsetMinutes

/-- The minutes since the beginning of 1970 in UTC. -/
def DateTime.utcMinutes (v : DateTime) : ℤ :=
  dayNumber v.year v.month v.day * 1440 + v.hour * 60 + v.minute - v.offsetMinutes

/-- The instant, in milliseconds. -/
def DateTime.instant (v : DateTime) : ℤ := (v.utcMinutes * 60 + v.second) * 1000 + v.millisecond

/-- The first and the last day whose year is of the type `int`. -/
def firstDay : ℤ := dayNumber (-2 ^ 31) 1 1

def lastDay : ℤ := dayNumber (2 ^ 31 - 1) 12 31

theorem isInt_year (d : Date) : IsInt d.year ↔ firstDay ≤ d.number ∧ d.number ≤ lastDay := by
  have hfirst : firstDay = daysBeforeYear (-2 ^ 31) - daysBeforeYear 1970 := by decide
  have hlast : lastDay = daysBeforeYear (2 ^ 31) - 1 - daysBeforeYear 1970 := by decide
  have h := year_bounds d (-2 ^ 31) (2 ^ 31)
  unfold IsInt
  rw [h, hfirst, hlast]
  omega

/-- The day of a number between these. -/
theorem exists_civil {n : ℤ} (hfirst : firstDay ≤ n) (hlast : n ≤ lastDay) :
    ∃ d : Date, d.number = n ∧ IsInt d.year ∧ civilFromDays n = (d.year, d.month, d.day) := by
  obtain ⟨d, rfl⟩ := exists_date n
  have hyear := (isInt_year d).mpr ⟨hfirst, hlast⟩
  exact ⟨d, rfl, hyear, by rw [civilFromDays_number, toInt_of_isInt hyear]⟩

section Shift
variable {v : DateTime} {target : ℤ}

/-- The number of the day on which an instant falls for an offset. -/
def DateTime.localDay (v : DateTime) (target : ℤ) : ℤ := (v.utcMinutes + target) / 1440

theorem shiftToOffset_spec (hv : v.IsValid) (htarget : IsInt target)
    (hdelta : IsInt (target - v.offsetMinutes)) (hfirst : firstDay ≤ v.localDay target)
    (hlast : v.localDay target ≤ lastDay) : (shiftToOffset v target).IsValid ∧
      (shiftToOffset v target).instant = v.instant ∧
      (shiftToOffset v target).offsetMinutes = target := by
  obtain ⟨hdate, hyear, hhour, hminute, hsecond, hmillisecond, htime, hoffset, -⟩ := hv
  have hnumber : daysFromCivil v.year v.month v.day = dayNumber v.year v.month v.day :=
    daysFromCivil_eq_number ⟨v.year, v.month, v.day, hdate⟩
  have hborrow := borrowDays_spec (v.hour * 60 + v.minute + (target - v.offsetMinutes)) 0
  have hcarry := carryDays_spec _ (borrowDays (v.hour * 60 + v.minute + (target - v.offsetMinutes)) 0).2
    hborrow.1
  unfold shiftToOffset
  rw [htime, hoffset, if_pos rfl, toInt_of_isInt hdelta]
  simp only [Bool.not_true, Bool.false_eq_true, if_false]
  generalize borrowDays _ 0 = borrowed at *
  generalize carryDays _ _ = carried at *
  obtain ⟨minutes, dayShift⟩ := carried
  dsimp only at *
  -- the day the carried minutes fall on
  have hday : v.localDay target = dayNumber v.year v.month v.day + dayShift := by
    unfold DateTime.localDay DateTime.utcMinutes
    omega
  obtain ⟨d, hd, hdyear, hcivil⟩ : ∃ d : Date, d.number = v.localDay target ∧ IsInt d.year ∧
      (if dayShift ≠ 0 then civilFromDays (daysFromCivil v.year v.month v.day + dayShift)
        else (v.year, v.month, v.day)) = (d.year, d.month, d.day) := by
    by_cases hsame : dayShift = 0
    · refine ⟨⟨v.year, v.month, v.day, hdate⟩, ?_, hyear, by rw [if_neg (not_not.mpr hsame)]⟩
      rw [hday, hsame, Int.add_zero]
      rfl
    · obtain ⟨d, hd, hdyear, hcivil⟩ := exists_civil hfirst hlast
      refine ⟨d, hd, hdyear, ?_⟩
      rw [if_pos hsame, hnumber, ← hday, hcivil]
  rw [hcivil]
  refine ⟨⟨d.valid, hdyear, ?_, ?_, hsecond, hmillisecond, rfl, rfl, htarget⟩, ?_, trivial⟩
  · show 0 ≤ minutes / 60 ∧ minutes / 60 ≤ 23
    omega
  · show 0 ≤ minutes % 60 ∧ minutes % 60 ≤ 59
    omega
  · have hnum : dayNumber d.year d.month d.day = dayNumber v.year v.month v.day + dayShift :=
      hd.trans hday
    unfold DateTime.instant DateTime.utcMinutes
    dsimp only
    rw [hnum]
    omega

end Shift

/-- **Calendar arithmetic.** Dates and day numbers are turned into each other, and a shift keeps the
instant, as long as the years and the difference of the offsets are of the type `int`. -/
theorem calendar_exact :
    (∀ d : Date, IsInt d.year →
      civilFromDays (daysFromCivil d.year d.month d.day) = (d.year, d.month, d.day)) ∧
    (∀ n, firstDay ≤ n → n ≤ lastDay → ∃ year month day, civilFromDays n = (year, month, day) ∧
      IsDate year month day ∧ daysFromCivil year month day = n) ∧
    ∀ (v : DateTime) (target : ℤ), v.IsValid → IsInt target → IsInt (target - v.offsetMinutes) →
      firstDay ≤ v.localDay target → v.localDay target ≤ lastDay →
        (shiftToOffset v target).IsValid ∧ (shiftToOffset v target).instant = v.instant ∧
          (shiftToOffset v target).offsetMinutes = target := by
  refine ⟨fun d hyear => ?_, fun n hfirst hlast => ?_, fun v target hv ht hd hfirst hlast =>
    shiftToOffset_spec hv ht hd hfirst hlast⟩
  · rw [daysFromCivil_eq_number, civilFromDays_number, toInt_of_isInt hyear]
  · obtain ⟨d, hd, -, hcivil⟩ := exists_civil hfirst hlast
    exact ⟨d.year, d.month, d.day, hcivil, d.valid, by rw [daysFromCivil_eq_number, hd]⟩

/-- One minute before the year 2000 in Greenwich, in Prague. -/
def millennium : DateTime where
  year := 1999
  month := 12
  day := 31
  hour := 23
  minute := 59
  hasTime := true
  hasOffset := true

theorem millennium_shifts : (shiftToOffset millennium 60).IsValid ∧
    (shiftToOffset millennium 60).instant = millennium.instant ∧
    (shiftToOffset millennium 60).offsetMinutes = 60 :=
  calendar_exact.2.2 millennium 60
    ⟨by decide, by decide, by decide, by decide, by decide, by decide, rfl, rfl, by decide⟩
    (by decide) (by decide) (by decide) (by decide)

/-- The last minute of the last year of the type `int`. -/
def lastMinute : DateTime := { millennium with year := 2 ^ 31 - 1 }

/-- One minute on is another year, which is none of the type. -/
theorem lastMinute_wraps : lastMinute.IsValid ∧
    ¬(shiftToOffset lastMinute 1).instant = lastMinute.instant ∧
    ¬daysFromCivil (civilFromDays (lastDay + 1)).1 (civilFromDays (lastDay + 1)).2.1
      (civilFromDays (lastDay + 1)).2.2 = lastDay + 1 := by
  refine ⟨⟨by decide, by decide, by decide, by decide, by decide, by decide, rfl, rfl, by decide⟩,
    ?_, by decide⟩
  have hborrow : borrowDays (lastMinute.hour * 60 + lastMinute.minute +
      toInt (1 - if lastMinute.hasOffset then lastMinute.offsetMinutes else 0)) 0 = (1440, 0) := by
    rw [borrowDays, if_neg (by decide)]
    rfl
  have hcarry : carryDays 1440 0 = (0, 1) := by
    rw [carryDays, if_pos (by decide), carryDays, if_neg (by decide)]
    rfl
  have hshift : shiftToOffset lastMinute 1 =
      { lastMinute with
        year := -2 ^ 31, month := 1, day := 1, hour := 0, minute := 0, offsetMinutes := 1 } := by
    unfold shiftToOffset
    rw [if_neg (by decide)]
    dsimp only
    rw [hborrow, hcarry]
    decide
  rw [hshift]
  decide

end PrinterDriver.Dsl.Dates
