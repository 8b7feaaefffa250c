import Mathlib.Tactic.IntervalCases

/-!
# Datamancer.Lib.Calendar

The proleptic Gregorian calendar from the year zero on, by counting: a date's number is the
days of the years, of the months and of the month before it. The years before have a closed
form (`daysBeforeYear_eq`), and with the year begun in March so has the date (`dayNumber_eq`).
-/

namespace Datamancer

namespace Calendar

/-- Every fourth year, but of the full centuries every fourth. -/
def isLeap (y : Nat) : Bool := y % 4 = 0 && (y % 100 ≠ 0 || y % 400 = 0)

def daysInYear (y : Nat) : Nat := if isLeap y then 366 else 365

/-- The days of a month, counted from January as 1. -/
def daysInMonth (leap : Bool) : Nat → Nat
  | 1 | 3 | 5 | 7 | 8 | 10 | 12 => 31
  | 4 | 6 | 9 | 11 => 30
  | 2 => if leap then 29 else 28
  | _ => 0

/-- The days from the first day of the year zero to the first of the year. -/
def daysBeforeYear : Nat → Nat
  | 0 => 0
  | y + 1 => daysBeforeYear y + daysInYear y

/-- The days of a year before the first of the month. -/
def daysBeforeMonth (leap : Bool) : Nat → Nat
  | 0 => 0
  | m + 1 => daysBeforeMonth leap m + daysInMonth leap m

/-- The days from the first of January 1970 to the date. -/
def dayNumber (year month day : Nat) : Int :=
  (daysBeforeYear year + daysBeforeMonth (isLeap year) month + day : Nat)
    - (daysBeforeYear 1970 + 1 : Nat)

/-- A day of a month of a year. -/
structure IsDate (year m d : Nat) : Prop where
  month : 1 ≤ m ∧ m ≤ 12
  day : 1 ≤ d ∧ d ≤ daysInMonth (isLeap year) m

theorem isLeap_iff {y : Nat} : isLeap y = true ↔ y % 4 = 0 ∧ (y % 100 ≠ 0 ∨ y % 400 = 0) := by
  simp [isLeap]

theorem not_isLeap_iff {y : Nat} :
    ¬ isLeap y = true ↔ y % 4 ≠ 0 ∨ (y % 100 = 0 ∧ y % 400 ≠ 0) := by
  rw [isLeap_iff, not_and_or, not_or, not_not]

/-- The leap years before a year are the fourths, but for the hundredths, and the four
hundredths. -/
theorem daysBeforeYear_eq (y : Nat) :
    (daysBeforeYear y : Int)
      = 365 * y + (y + 3 : Int) / 4 - (y + 99 : Int) / 100 + (y + 399 : Int) / 400 := by
  induction y with
  | zero => rfl
  | succ y ih =>
      rw [daysBeforeYear, daysInYear]
      split_ifs with h
      · rw [isLeap_iff] at h
        push_cast
        omega
      · rcases not_isLeap_iff.mp h with h | ⟨hcentury, h⟩ <;> push_cast <;> omega

/-- From March on the months go by five of 153 days. -/
theorem daysBeforeMonth_eq (leap : Bool) {m : Nat} (h : 1 ≤ m ∧ m ≤ 12) :
    (daysBeforeMonth leap m : Int)
      = (153 * ((m + 9) % 12 : Int) + 2) / 5
        + if m ≤ 2 then -306 else if leap then 60 else 59 := by
  obtain ⟨hlo, hhi⟩ := h
  cases leap <;> interval_cases m <;> rfl

/-- The days before the first of March. -/
theorem daysBeforeMarch_eq (y : Nat) :
    (daysBeforeYear y : Int) + (if isLeap y then 60 else 59)
      = 365 * (y : Int) + (y : Int) / 4 - (y : Int) / 100 + (y : Int) / 400 + 60 := by
  have hyear := daysBeforeYear_eq y
  split_ifs with h
  · rw [isLeap_iff] at h
    omega
  · rcases not_isLeap_iff.mp h with h | ⟨hcentury, h⟩ <;> omega

/-- The eras of four hundred years are all of one length. -/
theorem days_of_era (y : Int) :
    y / 400 * 146097 + (y % 400 * 365 + y % 400 / 4 - y % 400 / 100)
      = 365 * y + y / 4 - y / 100 + y / 400 := by
  omega

/-- With the year begun in March: the days of the eras of four hundred years, of the years of
the era, and of the months. -/
theorem dayNumber_eq {year month day : Nat} (h : IsDate year month day) {y : Int}
    (hy : y = if month ≤ 2 then (year : Int) - 1 else year) :
    dayNumber year month day
      = y / 400 * 146097
        + (y % 400 * 365 + y % 400 / 4 - y % 400 / 100
          + ((153 * ((month + 9) % 12 : Int) + 2) / 5 + day - 1))
        - 719468 := by
  have hepoch : (daysBeforeYear 1970 : Int) = 719528 := by rw [daysBeforeYear_eq]; norm_num
  have hera := days_of_era y
  have hmonth := daysBeforeMonth_eq (isLeap year) h.month
  have hday := h.day.1
  rw [dayNumber]
  generalize (153 * ((month + 9) % 12 : Int) + 2) / 5 = sinceMarch at hmonth ⊢
  push_cast
  by_cases hjan : month ≤ 2
  · rw [if_pos hjan] at hy hmonth
    have hyear := daysBeforeYear_eq year
    omega
  · rw [if_neg hjan] at hy hmonth
    have hmarch := daysBeforeMarch_eq year
    rw [← hy] at hmarch
    omega

end Calendar

end Datamancer
