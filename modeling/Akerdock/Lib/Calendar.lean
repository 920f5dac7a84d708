import Mathlib

/-!
# The Gregorian calendar

Days are numbered from 1970-01-01, in the proleptic Gregorian calendar.  Months
are counted through: month `m` of year `y` is the month `12 * y + (m - 1)`, so a
month after December belongs to the next year without a case of its own.

* `monthStart` is the first day of a month.
* `monthOf` is the month of a day: `monthOf_eq_iff` says that it is the one
  whose days include it.
-/

namespace Calendar

/-- The first day of a year. -/
def yearStart (y : Int) : Int :=
  365 * (y - 1) + (y - 1) / 4 - (y - 1) / 100 + (y - 1) / 400 - 719162

/-- The year of a day.  The estimate by the mean length of a year is off by one
at most. -/
def year (n : Int) : Int :=
  let y := 400 * (n + 719162) / 146097 + 1
  if n < yearStart y then y - 1
  else if yearStart (y + 1) ≤ n then y + 1
  else y

/-- The extra day of a leap year. -/
def leapDay (y : Int) : Int :=
  if y % 4 = 0 ∧ (y % 100 ≠ 0 ∨ y % 400 = 0) then 1 else 0

/-- The days of the year before its month `m`, from 0 to 12. -/
def daysBefore (y m : Int) : Int :=
  if m ≤ 1 then 31 * m else (153 * (m - 2) + 2) / 5 + 59 + leapDay y

def monthStart (k : Int) : Int :=
  yearStart (k / 12) + daysBefore (k / 12) (k % 12)

def monthOf (n : Int) : Int :=
  let d := n - yearStart (year n)
  let m := if d < 59 + leapDay (year n) then d / 31
    else (5 * (d - 59 - leapDay (year n)) + 2) / 153 + 2
  12 * year n + m

/-- The month of the year, from 1 to 12. -/
def month (n : Int) : Int :=
  monthOf n % 12 + 1

def day (n : Int) : Int :=
  n - monthStart (monthOf n) + 1

def weekday (n : Int) : Int :=
  (n + 4) % 7

/-- The day of a date.  A month or a day that is out of range is counted on
from there. -/
def dayNumber (y m d : Int) : Int :=
  monthStart (12 * y + (m - 1)) + (d - 1)

theorem leapDay_bounds (y : Int) : 0 ≤ leapDay y ∧ leapDay y ≤ 1 := by
  unfold leapDay
  split <;> omega

theorem yearStart_succ (y : Int) : yearStart (y + 1) = yearStart y + 365 + leapDay y := by
  unfold yearStart leapDay
  split <;> omega

theorem yearStart_strictMono : StrictMono yearStart := by
  refine strictMono_int_of_lt_succ fun y => ?_
  have hleap := leapDay_bounds y
  rw [yearStart_succ]
  omega

theorem year_bounds (n : Int) : yearStart (year n) ≤ n ∧ n < yearStart (year n + 1) := by
  unfold year
  dsimp only
  split
  · next h =>
    unfold yearStart at h ⊢
    omega
  · split
    · unfold yearStart at *
      omega
    · omega

/-- A month and what it ends with, within its year. -/
theorem monthStart_year (y : Int) (h : 0 ≤ m) (h' : m < 12) :
    monthStart (12 * y + m) = yearStart y + daysBefore y m ∧
      monthStart (12 * y + m + 1) = yearStart y + daysBefore y (m + 1) := by
  have hyear := yearStart_succ y
  unfold monthStart
  rw [show (12 * y + m) / 12 = y by omega, show (12 * y + m) % 12 = m by omega]
  refine ⟨rfl, ?_⟩
  by_cases hm : m = 11
  · rw [show (12 * y + m + 1) / 12 = y + 1 by omega,
      show (12 * y + m + 1) % 12 = 0 by omega, hyear, hm]
    simp only [daysBefore]
    omega
  · rw [show (12 * y + m + 1) / 12 = y by omega, show (12 * y + m + 1) % 12 = m + 1 by omega]

/-- A month has 28 days at least, and 31 at most. -/
theorem monthStart_bounds (k : Int) : monthStart k + 28 ≤ monthStart (k + 1) ∧
    monthStart (k + 1) ≤ monthStart k + 31 := by
  have hleap := leapDay_bounds (k / 12)
  have hmonth := monthStart_year (k / 12) (m := k % 12) (by omega) (by omega)
  rw [show 12 * (k / 12) + k % 12 = k by omega] at hmonth
  rw [hmonth.1, hmonth.2]
  unfold daysBefore
  split <;> split <;> omega

theorem monthStart_succ (k : Int) : monthStart k < monthStart (k + 1) := by
  have hbounds := monthStart_bounds k
  omega

theorem monthStart_strictMono : StrictMono monthStart :=
  strictMono_int_of_lt_succ monthStart_succ

theorem year_month (n : Int) : 12 * year n + (month n - 1) = monthOf n := by
  have hleap := leapDay_bounds (year n)
  have hyear := year_bounds n
  rw [yearStart_succ] at hyear
  unfold month monthOf
  dsimp only
  split <;> omega

theorem monthOf_bounds (n : Int) : monthStart (monthOf n) ≤ n ∧ n < monthStart (monthOf n + 1) := by
  have hleap := leapDay_bounds (year n)
  have hyear := year_bounds n
  rw [yearStart_succ] at hyear
  unfold monthOf
  dsimp only
  split
  · next h =>
    have hmonth := monthStart_year (year n) (m := (n - yearStart (year n)) / 31)
      (by omega) (by omega)
    rw [hmonth.1, hmonth.2]
    unfold daysBefore
    split <;> split <;> omega
  · next h =>
    have hmonth := monthStart_year (year n)
      (m := (5 * (n - yearStart (year n) - 59 - leapDay (year n)) + 2) / 153 + 2)
      (by omega) (by omega)
    rw [hmonth.1, hmonth.2]
    unfold daysBefore
    split <;> split <;> omega

/-- The month of a day is the one that the day lies in. -/
theorem monthOf_eq_iff : monthOf n = k ↔ monthStart k ≤ n ∧ n < monthStart (k + 1) := by
  constructor
  · intro h
    rw [← h]
    exact monthOf_bounds n
  · intro h
    have hn := monthOf_bounds n
    have hle : monthOf n < k + 1 :=
      monthStart_strictMono.lt_iff_lt.1 (hn.1.trans_lt h.2)
    have hge : k < monthOf n + 1 :=
      monthStart_strictMono.lt_iff_lt.1 (h.1.trans_lt hn.2)
    omega

theorem dayNumber_day (n : Int) : dayNumber (year n) (month n) (day n) = n := by
  unfold dayNumber day
  rw [year_month]
  omega

theorem day_bounds (n : Int) : 1 ≤ day n ∧ day n ≤ 31 := by
  have hbounds := monthOf_bounds n
  have hmonth := monthStart_bounds (monthOf n)
  unfold day
  omega

theorem date_dayNumber (hm : 1 ≤ m) (hm' : m ≤ 12) (hd : 1 ≤ d)
    (hd' : dayNumber y m d < monthStart (12 * y + (m - 1) + 1)) :
    year (dayNumber y m d) = y ∧ month (dayNumber y m d) = m ∧ day (dayNumber y m d) = d := by
  have hmonth : monthOf (dayNumber y m d) = 12 * y + (m - 1) := by
    refine monthOf_eq_iff.2 ⟨?_, hd'⟩
    unfold dayNumber
    omega
  have hyear := year_month (dayNumber y m d)
  have hm'' : month (dayNumber y m d) = m := by
    unfold month
    omega
  refine ⟨by omega, hm'', ?_⟩
  rw [day, hmonth]
  unfold dayNumber
  omega

theorem month_bounds (n : Int) : 1 ≤ month n ∧ month n ≤ 12 := by
  unfold month
  omega

/-- Every date but the 29th of February is one of every year. -/
theorem exists_date (n : Int) (h : ¬(month n = 2 ∧ day n = 29)) (y : Int) :
    ∃ n', year n' = y ∧ month n' = month n ∧ day n' = day n := by
  have hmonth := month_bounds n
  have hday := day_bounds n
  have hbounds := monthOf_bounds n
  have hthis := monthStart_year (year n) (m := month n - 1) (by omega) (by omega)
  have hthat := monthStart_year y (m := month n - 1) (by omega) (by omega)
  have hleap := leapDay_bounds (year n)
  have hleap' := leapDay_bounds y
  rw [← year_month n] at hbounds
  refine ⟨_, date_dayNumber hmonth.1 hmonth.2 hday.1 ?_⟩
  have hn := dayNumber_day n
  unfold dayNumber at hn ⊢
  unfold daysBefore at *
  split_ifs at * <;> omega

/-- Every day of the week is in every month. -/
theorem exists_weekday (hm : 1 ≤ m) (hm' : m ≤ 12) (hw : 0 ≤ w) (hw' : w ≤ 6) (y : Int) :
    ∃ n, year n = y ∧ month n = m ∧ weekday n = w := by
  have hbounds := monthStart_bounds (12 * y + (m - 1))
  let d := (w - 4 - monthStart (12 * y + (m - 1))) % 7 + 1
  have hdate := date_dayNumber (y := y) (d := d) hm hm' (by omega) (by unfold dayNumber; omega)
  refine ⟨_, hdate.1, hdate.2.1, ?_⟩
  unfold weekday dayNumber
  omega

/-! ## The 29th of February -/

theorem dayNumber_leap (y : Int) : dayNumber y 2 29 = yearStart y + 59 := by
  unfold dayNumber
  rw [(monthStart_year y (m := 2 - 1) (by decide) (by decide)).1]
  unfold daysBefore
  norm_num
  omega

theorem leap_date (h : leapDay y = 1) : year (dayNumber y 2 29) = y ∧
    month (dayNumber y 2 29) = 2 ∧ day (dayNumber y 2 29) = 29 := by
  refine date_dayNumber (by decide) (by decide) (by decide) ?_
  rw [dayNumber_leap, (monthStart_year y (m := 2 - 1) (by decide) (by decide)).2]
  unfold daysBefore
  rw [h]
  norm_num

theorem eq_leap_date (hm : month n = 2) (hd : day n = 29) :
    leapDay (year n) = 1 ∧ n = dayNumber (year n) 2 29 := by
  have hn : dayNumber (year n) 2 29 = n := by rw [← hm, ← hd, dayNumber_day]
  have hmonth := (monthStart_year (year n) (m := 2 - 1) (by decide) (by decide)).2
  have hbounds := monthOf_bounds n
  have hleap := leapDay_bounds (year n)
  rw [← year_month n, hm, hmonth] at hbounds
  rw [dayNumber_leap] at hn
  unfold daysBefore at hbounds
  norm_num at hbounds
  exact ⟨by omega, by rw [dayNumber_leap]; omega⟩

end Calendar
