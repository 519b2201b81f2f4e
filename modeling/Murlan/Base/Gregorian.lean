import Mathlib.Algebra.Order.Ring.Int
import Mathlib.Data.Int.Basic
import Mathlib.Data.List.Basic

/-!
# The Gregorian calendar

Days are numbered from 1 January 1970, a Thursday, on; the calendar goes on backwards before its
time. `yearOf` is the year of a day, `civil` its date, and `makeDay` the day of a date, also of
one whose day of the month lies outside of the month.

* `yearOf_spec`: a day lies between the starts of its year and of the next one.
* `makeDay_civil`: the date of a day is the date of that day.
-/

namespace Murlan.Gregorian

/-- The first day of a year. -/
def yearStart (y : ℤ) : ℤ := 365 * (y - 1970) + (y - 1969) / 4 - (y - 1901) / 100 + (y - 1601) / 400

/-- The year of a day: the mean year gives it, or one next to it. -/
def yearOf (d : ℤ) : ℤ :=
  let y := 1970 + 400 * d / 146097
  if d < yearStart y then y - 1 else if yearStart (y + 1) ≤ d then y + 1 else y

/-- Leap years, by the calendar's rule. -/
def leapYear (y : ℤ) : Bool := y % 4 = 0 && (y % 100 ≠ 0 || y % 400 = 0)

/-- The lengths of a year's months. -/
def monthLengths (leap : Bool) : List ℕ := [31, if leap then 29 else 28, 31, 30, 31, 30, 31, 31, 30, 31, 30, 31]

/-- How many months a number of days fills, and the days left. -/
def splitMonths : List ℕ → ℕ → ℕ × ℕ
  | [], d => (0, d)
  | m :: ms, d => if d < m then (0, d) else ((splitMonths ms (d - m)).1 + 1, (splitMonths ms (d - m)).2)

/-- Year, month from 0 on and day of the month from 1 on. -/
def civil (d : ℤ) : ℤ × ℕ × ℤ :=
  let split := splitMonths (monthLengths (leapYear (yearOf d))) (d - yearStart (yearOf d)).toNat
  (yearOf d, split.1, split.2 + 1)

/-- The day number of a date, counted from 1970. -/
def makeDay (y : ℤ) (month : ℕ) (date : ℤ) : ℤ :=
  yearStart y + ((monthLengths (leapYear y)).take month).sum + date - 1

/-- The number of the week of a day, Monday to Sunday. -/
def weekNumber (d : ℤ) : ℤ := (d + 3) / 7

variable {d e y : ℤ}

theorem yearStart_succ (y : ℤ) : yearStart (y + 1) = yearStart y + if leapYear y then 366 else 365 := by
  unfold yearStart leapYear
  simp only [Bool.and_eq_true, Bool.or_eq_true, decide_eq_true_eq]
  split
  · omega
  · omega

theorem yearStart_mono {y z : ℤ} (h : y ≤ z) : yearStart y ≤ yearStart z := by
  unfold yearStart
  omega

/-- The mean year is wrong by one year at most. -/
theorem mean_year (h : 146097 * (y - 1970) ≤ 400 * d) (h' : 400 * d < 146097 * (y - 1969)) :
    yearStart (y - 1) ≤ d ∧ d < yearStart (y + 2) := by
  unfold yearStart
  constructor
  · omega
  · omega

/-- **A day lies in its year.** -/
theorem yearOf_spec (d : ℤ) : yearStart (yearOf d) ≤ d ∧ d < yearStart (yearOf d + 1) := by
  obtain ⟨hlow, hhigh⟩ := mean_year (d := d) (y := 1970 + 400 * d / 146097) (by omega) (by omega)
  unfold yearOf
  simp only
  split
  · rename_i h
    rw [sub_add_cancel]
    exact ⟨hlow, h⟩
  · rename_i h
    split
    · rename_i h'
      rw [show (2 : ℤ) = 1 + 1 from rfl, ← add_assoc] at hhigh
      exact ⟨h', hhigh⟩
    · exact ⟨by omega, by omega⟩

/-- The year is the one whose first day is behind and whose last is not. -/
theorem yearOf_eq (h : yearStart y ≤ d) (h' : d < yearStart (y + 1)) : yearOf d = y := by
  obtain ⟨hs, hs'⟩ := yearOf_spec d
  rcases lt_trichotomy (yearOf d) y with hlt | heq | hgt
  · have := yearStart_mono (show yearOf d + 1 ≤ y by omega)
    omega
  · exact heq
  · have := yearStart_mono (show y + 1 ≤ yearOf d by omega)
    omega

/-- A day is in a year or a later one exactly if the year has begun. -/
theorem le_yearOf : y ≤ yearOf d ↔ yearStart y ≤ d := by
  have hspec := yearOf_spec d
  constructor
  · intro h
    have := yearStart_mono h
    omega
  · intro h
    by_contra hlt
    have := yearStart_mono (show yearOf d + 1 ≤ y by omega)
    omega

/-- The months that a number of days fills and the days left make up the number. -/
theorem splitMonths_sum (ms : List ℕ) : ∀ d, d < ms.sum →
    (ms.take (splitMonths ms d).1).sum + (splitMonths ms d).2 = d := by
  induction ms with
  | nil =>
    intro d h
    simp at h
  | cons m ms ih =>
    intro d h
    rw [List.sum_cons] at h
    unfold splitMonths
    split
    · simp
    · rename_i hm
      have := ih (d - m) (by omega)
      simp only [List.take_succ_cons, List.sum_cons]
      omega

theorem monthLengths_sum (leap : Bool) : (monthLengths leap).sum = if leap then 366 else 365 := by
  cases leap <;> rfl

/-- The date of a day, put into a year with as many days. -/
theorem makeDay_civil_year (hleap : leapYear y = leapYear (yearOf d)) :
    makeDay y (civil d).2.1 (civil d).2.2 = d - yearStart (yearOf d) + yearStart y := by
  obtain ⟨hs, hs'⟩ := yearOf_spec d
  rw [yearStart_succ] at hs'
  have hlt : (d - yearStart (yearOf d)).toNat < (monthLengths (leapYear (yearOf d))).sum := by
    rw [monthLengths_sum]
    split at hs'
    · rename_i hl
      rw [if_pos hl]
      omega
    · rename_i hl
      rw [if_neg hl]
      omega
  have hsum := splitMonths_sum _ _ hlt
  unfold makeDay civil
  simp only [hleap]
  omega

/-- **The date of a day is the date of that day.** -/
theorem makeDay_civil (d : ℤ) : makeDay (civil d).1 (civil d).2.1 (civil d).2.2 = d := by
  have := makeDay_civil_year (y := yearOf d) (d := d) rfl
  rw [show (civil d).1 = yearOf d from rfl, this]
  omega

/-- A day of the month that is shifted shifts the day. -/
theorem makeDay_add (y : ℤ) (month : ℕ) (date k : ℤ) : makeDay y month (date + k) = makeDay y month date + k := by
  unfold makeDay
  omega

end Murlan.Gregorian
