import Mathlib.Tactic.Common
import Mathlib.Tactic.IntervalCases

/-!
# The Gregorian calendar

Dates of the proleptic Gregorian calendar, counted in days from the first of
January of the year 0, and the date of a day counted from the first of March,
where the leap day is the last day of a year.

* `DateTime` — a valid date with its time of day.
* `daysToYear`, `daysToMonth`, `DateTime.unix` — the count.
* `yearOfEra`, `yearOfEra_spec` — the year of a day within 400 years.
* `dayNumber_civil` — the date of a day is counted to that day.
-/

namespace Gregorian

/-! ## Years and months -/

def isLeap (y : Nat) : Bool := y % 4 = 0 && (y % 100 ≠ 0 || y % 400 = 0)

def daysInYear (y : Nat) : Nat := if isLeap y then 366 else 365

def daysInMonth (y : Nat) : Nat → Nat
  | 2 => if isLeap y then 29 else 28
  | 4 => 30
  | 6 => 30
  | 9 => 30
  | 11 => 30
  | _ => 31

/-- The days before a year, from the year 0 on. -/
def daysToYear : Nat → Nat
  | 0 => 0
  | y + 1 => daysToYear y + daysInYear y

/-- The days of a year before a month. -/
def daysToMonth (y : Nat) : Nat → Nat
  | 0 => 0
  | 1 => 0
  | m + 2 => daysToMonth y (m + 1) + daysInMonth y (m + 1)

theorem isLeap_iff {y : Nat} : isLeap y = true ↔ y % 4 = 0 ∧ (y % 100 ≠ 0 ∨ y % 400 = 0) := by
  simp [isLeap]

/-- A leap year every four years, but for three centuries out of four. -/
theorem leap_count (y : Nat) : (if isLeap y then 1 else 0) + (if y % 100 = 0 then 1 else 0) =
    (if y % 4 = 0 then 1 else 0) + if y % 400 = 0 then 1 else 0 := by
  by_cases h : isLeap y = true
  · have hyes := isLeap_iff.1 h
    rw [if_pos h]
    split <;> split <;> split <;> omega
  · have hno : ¬ (y % 4 = 0 ∧ (y % 100 ≠ 0 ∨ y % 400 = 0)) := fun h' => h (isLeap_iff.2 h')
    rw [if_neg h]
    split <;> split <;> split <;> omega

theorem daysToYear_succ (y : Nat) :
    daysToYear (y + 1) = daysToYear y + 365 + if isLeap y then 1 else 0 := by
  rw [daysToYear, daysInYear]
  split <;> rfl

/-- The days before the leap day of a year. -/
theorem daysToYear_add_leap (y : Nat) : daysToYear y + (if isLeap y then 1 else 0) + y / 100 =
    365 * y + y / 4 + y / 400 + 1 := by
  induction y with
  | zero => decide
  | succ y ih =>
    have hcount := leap_count (y + 1)
    have h4 : (y + 1) / 4 = y / 4 + if (y + 1) % 4 = 0 then 1 else 0 := by split <;> omega
    have h100 : (y + 1) / 100 = y / 100 + if (y + 1) % 100 = 0 then 1 else 0 := by split <;> omega
    have h400 : (y + 1) / 400 = y / 400 + if (y + 1) % 400 = 0 then 1 else 0 := by split <;> omega
    rw [daysToYear_succ, h4, h100, h400]
    omega

/-! ## Dates -/

/-- A date with its time of day. -/
structure DateTime where
  year : Nat
  month : Nat
  day : Nat
  hour : Nat
  minute : Nat
  second : Nat
  month_pos : 1 ≤ month
  month_le : month ≤ 12
  day_pos : 1 ≤ day
  day_le : day ≤ daysInMonth year month
  hour_lt : hour < 24
  minute_lt : minute < 60
  second_lt : second < 60

/-- The days before a date. -/
def dayNumber (y m d : Nat) : Nat := daysToYear y + daysToMonth y m + (d - 1)

/-- The first of January 1970. -/
def unixEpoch : Nat := 719528

example : dayNumber 1970 1 1 = unixEpoch := by decide +kernel

/-- The seconds from the first of January 1970 on. -/
def DateTime.unix (t : DateTime) : Int :=
  ((dayNumber t.year t.month t.day : Int) - unixEpoch) * 86400 +
    (t.hour * 3600 + t.minute * 60 + t.second : Nat)

theorem daysToYear_mono {y y' : Nat} (h : y ≤ y') : daysToYear y ≤ daysToYear y' := by
  induction h with
  | refl => exact Nat.le_refl _
  | step _ ih => exact Nat.le_trans ih (Nat.le_add_right _ _)

/-- A month lies within its year. -/
theorem daysToMonth_le {y m : Nat} (h₁ : 1 ≤ m) (h₁₂ : m ≤ 12) :
    daysToMonth y m + daysInMonth y m ≤ daysInYear y := by
  unfold daysInYear
  interval_cases m <;> simp only [daysToMonth, daysInMonth] <;> split <;> decide

/-- A date lies within its year. -/
theorem DateTime.dayNumber_lt (t : DateTime) :
    dayNumber t.year t.month t.day < daysToYear (t.year + 1) := by
  have hmonth := daysToMonth_le (y := t.year) t.month_pos t.month_le
  have hday := t.day_le
  have hpos := t.day_pos
  rw [dayNumber, daysToYear]
  omega

/-- A date is before a year exactly when its year is. -/
theorem DateTime.year_lt_iff (t : DateTime) (y : Nat) :
    t.year < y ↔ dayNumber t.year t.month t.day < daysToYear y := by
  constructor
  · exact fun h => Nat.lt_of_lt_of_le t.dayNumber_lt (daysToYear_mono h)
  · intro h
    by_contra hle
    have hmono := daysToYear_mono (Nat.le_of_not_lt hle)
    unfold dayNumber at h
    omega

theorem daysInMonth_le (y m : Nat) : daysInMonth y m ≤ 31 := by
  unfold daysInMonth
  repeat' split
  all_goals omega

theorem DateTime.day_lt (t : DateTime) : t.day < 100 :=
  Nat.lt_of_le_of_lt (Nat.le_trans t.day_le (daysInMonth_le _ _)) (by omega)

/-! ## Days from the first of March -/

/-- The year of a day within its 400 years. -/
def yearOfEra (doe : Nat) : Nat := (doe - doe / 1460 + doe / 36524 - doe / 146096) / 365

/-- The days of 400 years before one of them; a leap day ends the year. -/
def daysToYearOfEra (yoe : Nat) : Nat := 365 * yoe + yoe / 4 - yoe / 100

/-- The month of a day within its year, from March on. -/
def monthOfYear (doy : Nat) : Nat := (5 * doy + 2) / 153

/-- The days of a year before one of its months, from March on. -/
def daysToMonthOfYear (mp : Nat) : Nat := (153 * mp + 2) / 5

/-- The year of a day begins no later than the day, and ends after it. -/
theorem yearOfEra_spec {doe : Nat} (h : doe < 146097) : yearOfEra doe ≤ 399 ∧
    daysToYearOfEra (yearOfEra doe) ≤ doe ∧
    (doe < daysToYearOfEra (yearOfEra doe + 1) ∨ yearOfEra doe = 399) := by
  by_cases hlast : doe = 146096
  · subst hlast
    decide
  -- within a century the days are counted from its start
  obtain ⟨c, hc⟩ : ∃ c, c = doe / 36524 := ⟨_, rfl⟩
  obtain ⟨r, hr⟩ : ∃ r, doe = 36524 * c + r := ⟨doe - 36524 * c, by omega⟩
  have hcentury : c ≤ 3 ∧ r < 36524 := by omega
  obtain ⟨g, hg⟩ : ∃ g, g = (24 * c + r) / 1460 := ⟨_, rfl⟩
  obtain ⟨y, hy⟩ : ∃ y, y = (r - g) / 365 := ⟨_, rfl⟩
  have hyoe : yearOfEra doe = 100 * c + y := by
    have hquarter : doe / 1460 = 25 * c + g := by omega
    have hera : doe / 146096 = 0 := by omega
    rw [yearOfEra, hquarter, hera, ← hc]
    omega
  have hleaps : g = y / 4 ∨ g = y / 4 + 1 ∧ y % 4 = 3 := by omega
  have hy99 : y ≤ 99 := by omega
  have h4 : (100 * c + y) / 4 = 25 * c + y / 4 := by omega
  have h100 : (100 * c + y) / 100 = c := by omega
  have h4' : (100 * c + y + 1) / 4 = 25 * c + (y + 1) / 4 := by omega
  have h100' : (100 * c + y + 1) / 100 = if y = 99 then c + 1 else c := by split <;> omega
  rw [hyoe, daysToYearOfEra, daysToYearOfEra, h4, h100, h4', h100']
  refine ⟨by omega, ?_, .inl ?_⟩
  · rcases hleaps with hleaps | hleaps <;> omega
  · split <;> rcases hleaps with hleaps | hleaps <;> omega

/-- Every year of 400 but the last has a leap day at its end exactly when the
next one, by the calendar, is a leap year. -/
theorem yearOfEra_length {doe : Nat} (h : doe < 146097) (era : Nat) :
    doe - daysToYearOfEra (yearOfEra doe) < 366 ∧
      (doe - daysToYearOfEra (yearOfEra doe) = 365 →
        isLeap (yearOfEra doe + era * 400 + 1) = true) := by
  have hspec := yearOfEra_spec h
  generalize yearOfEra doe = yoe at hspec
  have h4 : (yoe + 1) / 4 = yoe / 4 + if (yoe + 1) % 4 = 0 then 1 else 0 := by split <;> omega
  have h100 : (yoe + 1) / 100 = yoe / 100 + if (yoe + 1) % 100 = 0 then 1 else 0 := by
    split <;> omega
  have h4' : (yoe + era * 400 + 1) % 4 = (yoe + 1) % 4 := by omega
  have h100' : (yoe + era * 400 + 1) % 100 = (yoe + 1) % 100 := by omega
  have h400' : (yoe + era * 400 + 1) % 400 = (yoe + 1) % 400 := by omega
  rw [isLeap_iff, h4', h100', h400']
  rw [daysToYearOfEra, daysToYearOfEra, h4, h100] at hspec
  rw [daysToYearOfEra]
  clear h4' h100' h400' h4 h100
  split at hspec <;> split at hspec <;> omega

/-- The date of a day of a year that begins in March. -/
def civilOfYear (y doy : Nat) : Nat × Nat × Nat :=
  let mp := monthOfYear doy
  let m := if mp < 10 then mp + 3 else mp - 9
  (if m ≤ 2 then y + 1 else y, m, doy - daysToMonthOfYear mp + 1)

/-- The date of a day counted from the first of March of the year 0. -/
def civil (z : Nat) : Nat × Nat × Nat :=
  let era := z / 146097
  let doe := z % 146097
  let yoe := yearOfEra doe
  civilOfYear (yoe + era * 400) (doe - daysToYearOfEra yoe)

/-- The days of the months from March on, in a year that begins there. -/
theorem daysToMonth_of_march {y mp : Nat} (h : mp < 10) :
    daysToMonth y (mp + 3) = daysToMonthOfYear mp + 59 + (if isLeap y then 1 else 0) := by
  interval_cases mp <;> simp only [daysToMonth, daysInMonth, daysToMonthOfYear] <;> split <;> rfl

theorem daysInMonth_of_march {y mp : Nat} (h : mp < 10) :
    daysInMonth y (mp + 3) = daysToMonthOfYear (mp + 1) - daysToMonthOfYear mp := by
  interval_cases mp <;> rfl

/-- A day falls in the month that is found for it. -/
theorem monthOfYear_spec {doy : Nat} (h : doy < 366) : monthOfYear doy ≤ 11 ∧
    daysToMonthOfYear (monthOfYear doy) ≤ doy ∧ doy < daysToMonthOfYear (monthOfYear doy + 1) := by
  unfold monthOfYear daysToMonthOfYear
  omega

/-- A valid date, counted to a day. -/
def IsDateOf (date : Nat × Nat × Nat) (n : Nat) : Prop :=
  (1 ≤ date.2.1 ∧ date.2.1 ≤ 12) ∧ (1 ≤ date.2.2 ∧ date.2.2 ≤ daysInMonth date.1 date.2.1) ∧
    dayNumber date.1 date.2.1 date.2.2 = n

theorem civilOfYear_spec {y doy n : Nat} (h : doy < 366) (hlast : doy = 365 → isLeap (y + 1) = true)
    (hn : n + y / 100 = 365 * y + y / 4 + y / 400 + 60 + doy) : IsDateOf (civilOfYear y doy) n := by
  obtain ⟨hmp, hstart, hend⟩ := monthOfYear_spec h
  have hyear := daysToYear_add_leap y
  unfold civilOfYear IsDateOf
  generalize monthOfYear doy = mp at *
  dsimp only
  by_cases hmarch : mp < 10
  · have hnot : ¬ mp + 3 ≤ 2 := by omega
    have hdays := daysInMonth_of_march (y := y) hmarch
    rw [if_pos hmarch, if_neg hnot, hdays, dayNumber, daysToMonth_of_march hmarch]
    omega
  · have hjan : mp - 9 ≤ 2 := by omega
    have hnext := daysToYear_succ y
    rw [if_neg hmarch, if_pos hjan]
    obtain rfl | rfl : mp = 10 ∨ mp = 11 := by omega
    · have h10 : daysToMonthOfYear 10 = 306 := rfl
      have h11 : daysToMonthOfYear (10 + 1) = 337 := rfl
      have hjanuary : daysInMonth (y + 1) (10 - 9) = 31 := rfl
      have hbefore : daysToMonth (y + 1) (10 - 9) = 0 := rfl
      rw [hjanuary, dayNumber, hbefore]
      omega
    · have h11 : daysToMonthOfYear 11 = 337 := rfl
      have hfebruary : daysInMonth (y + 1) (11 - 9) = if isLeap (y + 1) then 29 else 28 := rfl
      have hbefore : daysToMonth (y + 1) (11 - 9) = 31 := rfl
      rw [hfebruary, dayNumber, hbefore]
      by_cases hleap : isLeap (y + 1) = true
      · rw [if_pos hleap]
        omega
      · rw [if_neg hleap]
        have : doy ≠ 365 := fun h365 => hleap (hlast h365)
        omega

/-- **The date of a day is a date, and is counted to that day.** -/
theorem civil_spec (z : Nat) : IsDateOf (civil z) (z + 60) := by
  have hdoe : z % 146097 < 146097 := Nat.mod_lt _ (by decide)
  obtain ⟨hlen, hlast⟩ := yearOfEra_length hdoe (z / 146097)
  obtain ⟨h399, hstart, -⟩ := yearOfEra_spec hdoe
  refine civilOfYear_spec hlen hlast ?_
  generalize yearOfEra (z % 146097) = yoe at *
  have h4 : (yoe + z / 146097 * 400) / 4 = 100 * (z / 146097) + yoe / 4 := by omega
  have h100 : (yoe + z / 146097 * 400) / 100 = 4 * (z / 146097) + yoe / 100 := by omega
  have h400 : (yoe + z / 146097 * 400) / 400 = z / 146097 := by omega
  rw [h4, h100, h400]
  unfold daysToYearOfEra at *
  omega

end Gregorian
