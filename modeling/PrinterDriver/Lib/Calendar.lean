import Mathlib.Data.Int.Notation
import Mathlib.Algebra.BigOperators.Group.List.Basic
import Mathlib.Data.Int.Order.Basic
import Mathlib.Order.Monotone.Basic
import Mathlib.Algebra.Order.SuccPred
import Mathlib.Algebra.Order.Ring.Int
import Mathlib.Tactic.SplitIfs
import Mathlib.Data.Int.ConditionallyCompleteOrder

/-! # The Gregorian calendar

Dates before and after 1970, and the number of days between the first of 1970 and each. Counting is right
because the number of the next day is the next number (`number_next`); every number is that of a
date (`exists_date`). -/

namespace PrinterDriver.Lib.Calendar

/-- Every fourth year is a leap year, of the centuries only every fourth. -/
abbrev IsLeap (year : ℤ) : Prop := year % 4 = 0 ∧ (year % 100 ≠ 0 ∨ year % 400 = 0)

def daysInMonth (year month : ℤ) : ℤ :=
  if month = 2 then if IsLeap year then 29 else 28
  else if month = 4 ∨ month = 6 ∨ month = 9 ∨ month = 11 then 30
  else 31

abbrev IsDate (year month day : ℤ) : Prop :=
  (1 ≤ month ∧ month ≤ 12) ∧ 1 ≤ day ∧ day ≤ daysInMonth year month

@[ext]
structure Date where
  year : ℤ
  month : ℤ
  day : ℤ
  valid : IsDate year month day

/-- The days of the years before a year, since the year one. -/
def daysBeforeYear (year : ℤ) : ℤ :=
  365 * (year - 1) + (year - 1) / 4 - (year - 1) / 100 + (year - 1) / 400

/-- The days of the first months of a year. -/
def daysOfMonths (year : ℤ) (months : ℕ) : ℤ :=
  ((List.range months).map fun k : ℕ => daysInMonth year (k + 1)).sum

/-- The days since the first of 1970. -/
def dayNumber (year month day : ℤ) : ℤ :=
  daysBeforeYear year + daysOfMonths year (month - 1).toNat + day - 1 - daysBeforeYear 1970

def Date.number (d : Date) : ℤ := dayNumber d.year d.month d.day

theorem one_le_daysInMonth (year month : ℤ) : 28 ≤ daysInMonth year month := by
  unfold daysInMonth
  split_ifs <;> omega

theorem daysInMonth_le (year month : ℤ) : daysInMonth year month ≤ 31 := by
  unfold daysInMonth
  split_ifs <;> omega

/-! ### The next day -/

/-- The day after a date. -/
def next (d : Date) : Date :=
  if hday : d.day < daysInMonth d.year d.month then
    ⟨d.year, d.month, d.day + 1, d.valid.1, by have := d.valid.2; omega⟩
  else if hmonth : d.month < 12 then
    ⟨d.year, d.month + 1, 1, by have := d.valid.1; omega, by
      have := one_le_daysInMonth d.year (d.month + 1)
      omega⟩
  else ⟨d.year + 1, 1, 1, by omega, by have := one_le_daysInMonth (d.year + 1) 1; omega⟩

theorem daysOfMonths_succ (year : ℤ) (months : ℕ) :
    daysOfMonths year (months + 1) = daysOfMonths year months + daysInMonth year (months + 1) := by
  unfold daysOfMonths
  rw [List.range_succ, List.map_append, List.sum_append, List.map_singleton, List.sum_singleton]

/-- The months before each one, in days. -/
theorem daysOfMonths_eq (year : ℤ) {months : ℕ} (h : months < 12) :
    daysOfMonths year months = (367 * (months + 1) - 362) / 12 -
      (if months ≤ 1 then 0 else if IsLeap year then 1 else 2) := by
  induction months with
  | zero => rfl
  | succ n ih =>
    rw [daysOfMonths_succ, ih (by omega)]
    by_cases hn : n = 1
    · have hfebruary : daysInMonth year ((1 : ℕ) + 1) = if IsLeap year then 29 else 28 := if_pos rfl
      rw [hn, hfebruary]
      by_cases hl : IsLeap year
      · rw [if_pos hl, if_pos hl]
        rfl
      · rw [if_neg hl, if_neg hl]
        rfl
    · have hother : n = 0 ∨ n = 2 ∨ n = 3 ∨ n = 4 ∨ n = 5 ∨ n = 6 ∨ n = 7 ∨ n = 8 ∨ n = 9 ∨
          n = 10 := by
        omega
      by_cases hl : IsLeap year
      · simp only [if_pos hl]
        rcases hother with rfl | rfl | rfl | rfl | rfl | rfl | rfl | rfl | rfl | rfl <;> rfl
      · simp only [if_neg hl]
        rcases hother with rfl | rfl | rfl | rfl | rfl | rfl | rfl | rfl | rfl | rfl <;> rfl

theorem daysBeforeYear_succ (year : ℤ) :
    daysBeforeYear (year + 1) = daysBeforeYear year + if IsLeap year then 366 else 365 := by
  unfold daysBeforeYear
  split_ifs with h <;> unfold IsLeap at h <;> omega

/-- **The next day has the next number.** -/
theorem number_next (d : Date) : (next d).number = d.number + 1 := by
  have hmonth := d.valid.1
  have hday := d.valid.2
  unfold next
  split_ifs with hin hyear
  · show daysBeforeYear d.year + daysOfMonths d.year (d.month - 1).toNat + (d.day + 1) - 1 - _ = _
    unfold Date.number dayNumber
    omega
  · have hsucc : (d.month + 1 - 1).toNat = (d.month - 1).toNat + 1 := by omega
    have hback : ((d.month - 1).toNat : ℤ) + 1 = d.month := by omega
    show daysBeforeYear d.year + daysOfMonths d.year (d.month + 1 - 1).toNat + 1 - 1 - _ = _
    rw [hsucc, daysOfMonths_succ, hback]
    unfold Date.number dayNumber
    omega
  · have hdecember : d.month = 12 := by omega
    have hlast : d.day = 31 := by
      have hlen : daysInMonth d.year 12 = 31 := rfl
      rw [hdecember, hlen] at hday hin
      omega
    show daysBeforeYear (d.year + 1) + daysOfMonths (d.year + 1) 0 + 1 - 1 - _ = _
    unfold Date.number dayNumber
    rw [daysBeforeYear_succ, hdecember, hlast, daysOfMonths_eq _ (by decide),
      show ((12 : ℤ) - 1).toNat = 11 from rfl, daysOfMonths_eq _ (by decide)]
    split_ifs <;> omega

/-! ### Every number is that of a date -/

/-- The same day, some four hundred years on. -/
def shift (d : Date) (k : ℤ) : Date where
  year := d.year + 400 * k
  month := d.month
  day := d.day
  valid := by
    have hlen : daysInMonth (d.year + 400 * k) d.month = daysInMonth d.year d.month := by
      have hleap : IsLeap (d.year + 400 * k) ↔ IsLeap d.year := by
        unfold IsLeap
        omega
      unfold daysInMonth
      simp only [hleap]
    unfold IsDate
    rw [hlen]
    exact d.valid

theorem number_shift (d : Date) (k : ℤ) : (shift d k).number = d.number + 146097 * k := by
  have hmonths : daysOfMonths (d.year + 400 * k) (d.month - 1).toNat =
      daysOfMonths d.year (d.month - 1).toNat := by
    have hleap : IsLeap (d.year + 400 * k) ↔ IsLeap d.year := by
      unfold IsLeap
      omega
    have hmonth := d.valid.1
    rw [daysOfMonths_eq _ (by omega), daysOfMonths_eq _ (by omega)]
    simp only [hleap]
  show daysBeforeYear (d.year + 400 * k) + daysOfMonths (d.year + 400 * k) (d.month - 1).toNat +
    d.day - 1 - _ = _
  rw [hmonths]
  unfold Date.number dayNumber daysBeforeYear
  omega

theorem exists_date (n : ℤ) : ∃ d : Date, d.number = n := by
  have hnat : ∀ m : ℕ, ∃ d : Date, d.number = m := by
    intro m
    induction m with
    | zero => exact ⟨⟨1970, 1, 1, by decide⟩, by decide⟩
    | succ m ih =>
      obtain ⟨d, hd⟩ := ih
      exact ⟨next d, by rw [number_next, hd]; rfl⟩
  obtain ⟨d, hd⟩ := hnat (n % 146097).toNat
  refine ⟨shift d (n / 146097), ?_⟩
  rw [number_shift, hd]
  omega

/-! ### The days of a year -/

theorem daysBeforeYear_mono : Monotone daysBeforeYear := by
  refine monotone_int_of_le_succ fun year => ?_
  rw [daysBeforeYear_succ]
  split_ifs <;> omega

theorem number_bounds (d : Date) : daysBeforeYear d.year ≤ d.number + daysBeforeYear 1970 ∧
    d.number + daysBeforeYear 1970 < daysBeforeYear (d.year + 1) := by
  obtain ⟨⟨hlo, hhi⟩, hday, hlen⟩ := d.valid
  have hsucc := daysBeforeYear_succ d.year
  have hmonths := daysOfMonths_eq d.year (show (d.month - 1).toNat < 12 by omega)
  have h31 := daysInMonth_le d.year d.month
  have hback : ((d.month - 1).toNat : ℤ) = d.month - 1 := by omega
  rw [hback] at hmonths
  unfold Date.number dayNumber
  by_cases hl : IsLeap d.year
  · rw [if_pos hl] at hsucc
    rw [if_pos hl] at hmonths
    split_ifs at hmonths <;> omega
  · rw [if_neg hl] at hsucc
    rw [if_neg hl] at hmonths
    have hfebruary : d.month = 2 → d.day ≤ 28 := by
      intro h2
      rw [h2] at hlen
      unfold daysInMonth at hlen
      rw [if_pos rfl, if_neg hl] at hlen
      exact hlen
    split_ifs at hmonths <;> omega

/-- The years of a stretch of days. -/
theorem year_bounds (d : Date) (first last : ℤ) : first ≤ d.year ∧ d.year < last ↔
    daysBeforeYear first ≤ d.number + daysBeforeYear 1970 ∧
      d.number + daysBeforeYear 1970 < daysBeforeYear last := by
  obtain ⟨hge, hlt⟩ := number_bounds d
  constructor
  · rintro ⟨hfirst, hlast⟩
    exact ⟨Int.le_trans (daysBeforeYear_mono hfirst) hge,
      Int.lt_of_lt_of_le hlt (daysBeforeYear_mono hlast)⟩
  · rintro ⟨hfirst, hlast⟩
    constructor
    · by_contra hlow
      have := daysBeforeYear_mono (show d.year + 1 ≤ first by omega)
      omega
    · by_contra hhigh
      have := daysBeforeYear_mono (show last ≤ d.year by omega)
      omega

end PrinterDriver.Lib.Calendar
