import ClusterNats.Codec.Dates
import ClusterNats.Num.Checked

/-!
# The calendar is exact

The code takes a second apart with divisions and subtractions in `u32`, `i32`
and `i64`.  Here every one of them is followed in exact arithmetic: none leaves
its type, and the date that comes out is the one the second is counted to.

* `ymdhmsExact` — the steps of `epoch_to_ymdhms`, each within its type.
* `ymdhmsExact_eq` — no step leaves its type.
* `DateTime.Before`, `before_of_unix_lt` — dates are ordered as their seconds.
* `epochToYmdhms_exact` — the code computes the Gregorian calendar.
-/

namespace Gregorian

/-! ## The order of dates -/

/-- Dates in the order of their fields. -/
def DateTime.Before (t t' : DateTime) : Prop :=
  t.year < t'.year ∨ t.year = t'.year ∧ (t.month < t'.month ∨ t.month = t'.month ∧
    (t.day < t'.day ∨ t.day = t'.day ∧ (t.hour < t'.hour ∨ t.hour = t'.hour ∧
      (t.minute < t'.minute ∨ t.minute = t'.minute ∧ t.second < t'.second))))

/-- The months of a year follow each other. -/
theorem daysToMonth_add {y m m' : Nat} (hm : 1 ≤ m) (h : m < m') :
    daysToMonth y m + daysInMonth y m ≤ daysToMonth y m' := by
  induction h with
  | refl =>
    cases m with
    | zero => exact absurd hm (by decide)
    | succ m => exact Nat.le_refl _
  | @step m' hlt ih =>
    cases m' with
    | zero => exact absurd hlt (by simp)
    | succ m' => exact Nat.le_trans ih (Nat.le_add_right _ _)

/-- A later date of the same year is a later day. -/
theorem DateTime.dayNumber_lt_of_month {t t' : DateTime} (hyear : t.year = t'.year)
    (h : t.month < t'.month) :
    dayNumber t.year t.month t.day < dayNumber t'.year t'.month t'.day := by
  have hmonths := daysToMonth_add (y := t.year) t.month_pos h
  have hday := t.day_le
  have hpos := t.day_pos
  unfold dayNumber
  rw [← hyear]
  omega

theorem DateTime.dayNumber_lt_of_year {t t' : DateTime} (h : t.year < t'.year) :
    dayNumber t.year t.month t.day < dayNumber t'.year t'.month t'.day := by
  have hbefore := (t.year_lt_iff t'.year).1 h
  have hstart : daysToYear t'.year ≤ dayNumber t'.year t'.month t'.day := by
    unfold dayNumber
    omega
  omega

theorem DateTime.clock_lt (t : DateTime) : t.hour * 3600 + t.minute * 60 + t.second < 86400 := by
  have hhour := t.hour_lt
  have hminute := t.minute_lt
  have hsecond := t.second_lt
  omega

/-- A later day is a later second. -/
theorem DateTime.unix_lt_of_day {t t' : DateTime}
    (h : dayNumber t.year t.month t.day < dayNumber t'.year t'.month t'.day) : t.unix < t'.unix := by
  have hclock := t.clock_lt
  unfold DateTime.unix
  omega

/-- **An earlier second has an earlier date.** -/
theorem before_of_unix_lt {t t' : DateTime} (h : t.unix < t'.unix) : t.Before t' := by
  by_cases hyear : t.year = t'.year
  · by_cases hmonth : t.month = t'.month
    · refine .inr ⟨hyear, .inr ⟨hmonth, ?_⟩⟩
      have hday := t.day_pos
      have hday' := t'.day_pos
      have hhour := t.hour_lt
      have hminute := t.minute_lt
      have hsecond := t.second_lt
      have hhour' := t'.hour_lt
      have hminute' := t'.minute_lt
      have hsecond' := t'.second_lt
      unfold DateTime.unix dayNumber at h
      rw [hyear, hmonth] at h
      omega
    · rcases Nat.lt_or_gt_of_ne hmonth with hlt | hgt
      · exact .inr ⟨hyear, .inl hlt⟩
      · have hback := DateTime.unix_lt_of_day (DateTime.dayNumber_lt_of_month hyear.symm hgt)
        omega
  · rcases Nat.lt_or_gt_of_ne hyear with hlt | hgt
    · exact .inl hlt
    · have hback := DateTime.unix_lt_of_day (DateTime.dayNumber_lt_of_year hgt)
      omega

end Gregorian

namespace ClusterNats

open Gregorian Checked

/-! ## Every step within its type -/

/-- The year of a day within its 400 years. -/
def yearOfEraExact (doe : Int) : Option Int := do
  let a ← u32.fit (doe - doe / 1460)
  let b ← u32.fit (a + doe / 36524)
  let c ← u32.fit (b - doe / 146096)
  return c / 365

/-- The day within its year. -/
def dayOfYearExact (doe yoe : Int) : Option Int := do
  let a ← u32.fit (365 * yoe)
  let b ← u32.fit (a + yoe / 4)
  let c ← u32.fit (b - yoe / 100)
  u32.fit (doe - c)

/-- The month of a day within its year, from March on. -/
def monthOfYearExact (doy : Int) : Option Int := do
  let a ← u32.fit (5 * doy)
  let b ← u32.fit (a + 2)
  return b / 153

/-- The day within its month. -/
def dayOfMonthExact (doy mp : Int) : Option Int := do
  let a ← u32.fit (153 * mp)
  let b ← u32.fit (a + 2)
  let c ← u32.fit (doy - b / 5)
  u32.fit (c + 1)

/-- The month from January on. -/
def monthExact (mp : Int) : Option Int := if mp < 10 then u32.fit (mp + 3) else u32.fit (mp - 9)

/-- The year that began in January. -/
def yearExact (y m : Int) : Option Int := if m ≤ 2 then i32.fit (y + 1) else some y

/-- `epoch_to_ymdhms` in exact arithmetic: `none` where an operation leaves its
type or a cast changes the value. -/
def ymdhmsExact (secs : Int) : Option (Int × Int × Int × Int × Int × Int) := do
  let secsToday ← u32.fit (secs % 86400)
  let z ← i64.fit (secs / 86400 + 719468)
  let eraDays ← i64.fit (z / 146097 * 146097)
  let doe ← u32.fit (← i64.fit (z - eraDays))
  let yoe ← yearOfEraExact doe
  let eraYears ← i32.fit ((← i32.fit (z / 146097)) * 400)
  let y ← i32.fit ((← i32.fit yoe) + eraYears)
  let doy ← dayOfYearExact doe yoe
  let mp ← monthOfYearExact doy
  let d ← dayOfMonthExact doy mp
  let m ← monthExact mp
  let year ← yearExact y m
  return (year, m, d, secsToday / 3600, secsToday % 3600 / 60, secsToday % 60)

theorem has_u32 {x : Int} (h : 0 ≤ x) (h' : x < 4294967296) : u32.Has x := ⟨h, by simp only [u32]; omega⟩

theorem has_i32 {x : Int} (h : 0 ≤ x) (h' : x < 2147483648) : i32.Has x :=
  ⟨by simp only [i32]; omega, by simp only [i32]; omega⟩

theorem has_i64 {x : Int} (h : 0 ≤ x) (h' : x < 9223372036854775808) : i64.Has x :=
  ⟨by simp only [i64]; omega, by simp only [i64]; omega⟩

theorem yearOfEraExact_eq {doe : Nat} (h : doe < 146097) :
    yearOfEraExact doe = some (yearOfEra doe : Int) := by
  unfold yearOfEraExact yearOfEra
  rw [fit_bind (has_u32 (by omega) (by omega)), fit_bind (has_u32 (by omega) (by omega)),
    fit_bind (has_u32 (by omega) (by omega))]
  refine congrArg some ?_
  omega

theorem dayOfYearExact_eq {doe : Nat} (h : doe < 146097) :
    dayOfYearExact doe (yearOfEra doe) = some ((doe - daysToYearOfEra (yearOfEra doe) : Nat) : Int) := by
  obtain ⟨h399, hstart, -⟩ := yearOfEra_spec h
  generalize yearOfEra doe = yoe at *
  unfold dayOfYearExact
  unfold daysToYearOfEra at *
  rw [fit_bind (has_u32 (by omega) (by omega)), fit_bind (has_u32 (by omega) (by omega)),
    fit_bind (has_u32 (by omega) (by omega)), fit_of_has (has_u32 (by omega) (by omega))]
  refine congrArg some ?_
  omega

theorem monthOfYearExact_eq {doy : Nat} (h : doy < 366) :
    monthOfYearExact doy = some (monthOfYear doy : Int) := by
  unfold monthOfYearExact monthOfYear
  rw [fit_bind (has_u32 (by omega) (by omega)), fit_bind (has_u32 (by omega) (by omega))]
  refine congrArg some ?_
  omega

theorem dayOfMonthExact_eq {doy : Nat} (h : doy < 366) :
    dayOfMonthExact doy (monthOfYear doy) =
      some ((doy - daysToMonthOfYear (monthOfYear doy) + 1 : Nat) : Int) := by
  obtain ⟨hmp, hstart, -⟩ := monthOfYear_spec h
  generalize monthOfYear doy = mp at *
  unfold dayOfMonthExact
  unfold daysToMonthOfYear at *
  rw [fit_bind (has_u32 (by omega) (by omega)), fit_bind (has_u32 (by omega) (by omega)),
    fit_bind (has_u32 (by omega) (by omega)), fit_of_has (has_u32 (by omega) (by omega))]
  refine congrArg some ?_
  omega

theorem monthExact_eq {mp : Nat} (h : mp ≤ 11) :
    monthExact mp = some ((if mp < 10 then mp + 3 else mp - 9 : Nat) : Int) := by
  unfold monthExact
  by_cases hmarch : mp < 10
  · rw [if_pos (by omega), if_pos hmarch, fit_of_has (has_u32 (by omega) (by omega))]
    rfl
  · rw [if_neg (by omega), if_neg hmarch, fit_of_has (has_u32 (by omega) (by omega))]
    refine congrArg some ?_
    omega

theorem yearExact_eq {y : Nat} (h : y < 2147483647) (m : Nat) :
    yearExact y m = some ((if m ≤ 2 then y + 1 else y : Nat) : Int) := by
  unfold yearExact
  by_cases hjan : m ≤ 2
  · rw [if_pos (by omega), if_pos hjan, fit_of_has (has_i32 (by omega) (by omega))]
    rfl
  · rw [if_neg (by omega), if_neg hjan]

/-- **No step leaves its type.**  Before `2^55` seconds the exact result is the
date of the second. -/
theorem ymdhmsExact_eq {n : Nat} (h : n < 2 ^ 55) : ymdhmsExact n = some (((ymdhms n).1 : Int),
    ((ymdhms n).2.1 : Int), ((ymdhms n).2.2.1 : Int), ((ymdhms n).2.2.2.1 : Int),
    ((ymdhms n).2.2.2.2.1 : Int), ((ymdhms n).2.2.2.2.2 : Int)) := by
  have hdoe : (n / 86400 + 719468) % 146097 < 146097 := Nat.mod_lt _ (by decide)
  obtain ⟨h399, -, -⟩ := yearOfEra_spec hdoe
  obtain ⟨h366, -⟩ := yearOfEra_length hdoe 0
  have hmp := (monthOfYear_spec h366).1
  have hz : ((n : Int) / 86400 + 719468) = ((n / 86400 + 719468 : Nat) : Int) := by omega
  unfold ymdhmsExact
  rw [fit_bind (has_u32 (by omega) (by omega)), fit_bind (has_i64 (by omega) (by omega)), hz]
  simp only [ymdhms, civil]
  have hera : (n / 86400 + 719468) / 146097 < 2855000 := by omega
  generalize n / 86400 + 719468 = z at *
  have hrest : (z : Int) - z / 146097 * 146097 = ((z % 146097 : Nat) : Int) := by omega
  rw [fit_bind (has_i64 (by omega) (by omega)), hrest, fit_bind (has_i64 (by omega) (by omega)),
    fit_bind (has_u32 (by omega) (by omega)), yearOfEraExact_eq hdoe, some_bind]
  rw [dayOfYearExact_eq hdoe]
  generalize yearOfEra (z % 146097) = yoe at *
  have hyears : (yoe : Int) + z / 146097 * 400 = ((yoe + z / 146097 * 400 : Nat) : Int) := by omega
  have hyear : yoe + z / 146097 * 400 < 2147483647 := by omega
  rw [fit_bind (has_i32 (by omega) (by omega)), fit_bind (has_i32 (by omega) (by omega)),
    fit_bind (has_i32 (by omega) (by omega)), fit_bind (has_i32 (by omega) (by omega)), hyears,
    some_bind, monthOfYearExact_eq h366, some_bind, dayOfMonthExact_eq h366, some_bind,
    monthExact_eq hmp, some_bind, yearExact_eq hyear, some_bind]
  rfl

/-! ## The date the code computes -/

/-- Year, month, day, hour, minute and second in lexicographic order. -/
def DateLt : Int32 × UInt32 × UInt32 × UInt32 × UInt32 × UInt32 →
    Int32 × UInt32 × UInt32 × UInt32 × UInt32 × UInt32 → Prop :=
  Prod.Lex (· < ·) (Prod.Lex (· < ·) (Prod.Lex (· < ·) (Prod.Lex (· < ·) (Prod.Lex (· < ·) (· < ·)))))

/-- The fields of a date in the code's types. -/
def fieldsOf (t : DateTime) : Int32 × UInt32 × UInt32 × UInt32 × UInt32 × UInt32 :=
  (Int32.ofNat t.year, UInt32.ofNat t.month, UInt32.ofNat t.day, UInt32.ofNat t.hour,
    UInt32.ofNat t.minute, UInt32.ofNat t.second)

theorem epochToYmdhms_fields {n : Nat} (h : n < 2 ^ 62) :
    epochToYmdhms (Int64.ofNat n) = fieldsOf (dateOf n) := epochToYmdhms_eq h

theorem year_lt_of_seconds {n : Nat} (h : n < 2 ^ 55) : (dateOf n).year < 2147483648 :=
  (dateOf_year_lt rfl).2 (by unfold undatable; omega)

theorem int32_ofNat_lt {a b : Nat} (ha : a < 2147483648) (hb : b < 2147483648) (h : a < b) :
    Int32.ofNat a < Int32.ofNat b := by
  rw [Int32.lt_iff_toInt_lt, Int32.toInt_ofNat_of_lt ha, Int32.toInt_ofNat_of_lt hb]
  omega

/-- An earlier date has earlier fields. -/
theorem dateLt_of_before {t t' : DateTime} (ht : t.year < 2147483648) (ht' : t'.year < 2147483648)
    (h : t.Before t') : DateLt (fieldsOf t) (fieldsOf t') := by
  have hday := t.day_lt
  have hday' := t'.day_lt
  have hmonth := t.month_le
  have hmonth' := t'.month_le
  have hhour := t.hour_lt
  have hhour' := t'.hour_lt
  have hminute := t.minute_lt
  have hminute' := t'.minute_lt
  have hsecond := t.second_lt
  have hsecond' := t'.second_lt
  simp only [DateLt, fieldsOf, Prod.lex_def]
  rcases h with h | ⟨hy, h | ⟨hm, h | ⟨hd, h | ⟨hh, h | ⟨hmi, h⟩⟩⟩⟩⟩
  · exact .inl (int32_ofNat_lt ht ht' h)
  · exact .inr ⟨congrArg _ hy, .inl ((ofNat_lt_iff (by omega) (by omega)).2 h)⟩
  · exact .inr ⟨congrArg _ hy, .inr ⟨congrArg _ hm, .inl ((ofNat_lt_iff (by omega) (by omega)).2 h)⟩⟩
  · exact .inr ⟨congrArg _ hy, .inr ⟨congrArg _ hm, .inr ⟨congrArg _ hd,
      .inl ((ofNat_lt_iff (by omega) (by omega)).2 h)⟩⟩⟩
  · exact .inr ⟨congrArg _ hy, .inr ⟨congrArg _ hm, .inr ⟨congrArg _ hd, .inr ⟨congrArg _ hh,
      .inl ((ofNat_lt_iff (by omega) (by omega)).2 h)⟩⟩⟩⟩
  · exact .inr ⟨congrArg _ hy, .inr ⟨congrArg _ hm, .inr ⟨congrArg _ hd, .inr ⟨congrArg _ hh,
      .inr ⟨congrArg _ hmi, (ofNat_lt_iff (by omega) (by omega)).2 h⟩⟩⟩⟩⟩

/-- Later seconds have later fields. -/
theorem epochToYmdhms_lt {n n' : Nat} (h : n < n') (hn' : n' < 2 ^ 55) :
    DateLt (epochToYmdhms (Int64.ofNat n)) (epochToYmdhms (Int64.ofNat n')) := by
  rw [epochToYmdhms_fields (by omega), epochToYmdhms_fields (by omega)]
  refine dateLt_of_before (year_lt_of_seconds (by omega)) (year_lt_of_seconds hn')
    (before_of_unix_lt ?_)
  rw [dateOf_unix, dateOf_unix]
  omega

theorem not_dateLt_self (x : Int32 × UInt32 × UInt32 × UInt32 × UInt32 × UInt32) : ¬ DateLt x x := by
  simp [DateLt, Prod.lex_def]

/-- A second that is not negative. -/
theorem exists_seconds {secs : Int64} (h₀ : 0 ≤ secs.toInt) (h : secs.toInt < 2 ^ 55) :
    ∃ n : Nat, n < 2 ^ 55 ∧ secs = Int64.ofNat n ∧ secs.toInt = n := by
  refine ⟨secs.toInt.toNat, by omega, ?_, by omega⟩
  rw [← Int64.ofInt_eq_ofNat, Int.toNat_of_nonneg h₀, Int64.ofInt_toInt]

/-- **`epoch_to_ymdhms` computes the Gregorian calendar.**  Of every second from
0 to `2^55` it gives the valid date and time that are counted to that second,
without leaving a type on the way; and later seconds have later dates. -/
theorem epochToYmdhms_exact (secs : Int64) (h₀ : 0 ≤ secs.toInt) (h : secs.toInt < 2 ^ 55) :
    (∃ t : DateTime, t.unix = secs.toInt ∧ epochToYmdhms secs = fieldsOf t ∧
      ymdhmsExact secs.toInt = some ((t.year : Int), (t.month : Int), (t.day : Int), (t.hour : Int),
        (t.minute : Int), (t.second : Int)) ∧ t.year < 2147483648) ∧
    ∀ secs' : Int64, 0 ≤ secs'.toInt → secs'.toInt < 2 ^ 55 →
      (secs < secs' → DateLt (epochToYmdhms secs) (epochToYmdhms secs')) ∧
      (epochToYmdhms secs = epochToYmdhms secs' → secs = secs') := by
  obtain ⟨n, hn, rfl, hint⟩ := exists_seconds h₀ h
  refine ⟨⟨dateOf n, by rw [dateOf_unix, hint], epochToYmdhms_fields (by omega), ?_,
    year_lt_of_seconds hn⟩, fun secs' h₀' h' => ?_⟩
  · rw [hint]
    exact ymdhmsExact_eq hn
  obtain ⟨n', hn', rfl, hint'⟩ := exists_seconds h₀' h'
  have hlt : Int64.ofNat n < Int64.ofNat n' ↔ n < n' := by
    rw [Int64.lt_iff_toInt_lt, hint, hint']
    omega
  refine ⟨fun hless => epochToYmdhms_lt (hlt.1 hless) hn', fun heq => ?_⟩
  rcases Nat.lt_trichotomy n n' with hless | rfl | hmore
  · have hdates := epochToYmdhms_lt hless hn'
    rw [heq] at hdates
    exact absurd hdates (not_dateLt_self _)
  · rfl
  · have hdates := epochToYmdhms_lt hmore hn
    rw [heq] at hdates
    exact absurd hdates (not_dateLt_self _)

/-- The last second of February 2024 and the first of March. -/
theorem epochToYmdhms_exact_leap :
    DateLt (epochToYmdhms 1709251199) (epochToYmdhms 1709251200) ∧ ymdhmsExact 1709251199 =
      some (2024, 2, 29, 23, 59, 59) :=
  ⟨((epochToYmdhms_exact 1709251199 (by decide) (by decide)).2 1709251200 (by decide)
    (by decide)).1 (by decide), by decide +kernel⟩

end ClusterNats
