import ClusterNats.Codec.Calendar
import ClusterNats.Codec.Gregorian
import Mathlib.Data.String.Lemmas

/-!
# Times as dates

The code's calendar is the Gregorian one, and a time's text is that of one
second only.

* `epochToYmdhms_eq` — the machine arithmetic computes `Gregorian.civil`.
* `dateOf`, `epochToYmdhms_dateOf` — the date of a second, counted to it.
* `DateTime.text`, `rfc3339_eq_text` — the text of a date.
* `Denotes`, `denotes_rfc3339`, `denotes_undatable` — a text stands for one
  second, or its year does not fit.
-/

namespace ClusterNats

open Gregorian

/-! ## Machine integers -/

section Machine

theorem toInt_ofNat {n : Nat} (h : n < 2 ^ 63) : (Int64.ofNat n).toInt = n :=
  Int64.toInt_ofNat_of_lt h

theorem divEuclid_ofNat {n : Nat} (h : n < 2 ^ 63) (b : Nat) :
    divEuclid (Int64.ofNat n) b = Int64.ofNat (n / b) := by
  rw [divEuclid, toInt_ofNat h, ← Int.natCast_ediv, Int64.ofInt_eq_ofNat]

theorem remEuclid_ofNat {n : Nat} (h : n < 2 ^ 63) (b : Nat) :
    remEuclid (Int64.ofNat n) b = Int64.ofNat (n % b) := by
  rw [remEuclid, toInt_ofNat h, ← Int.natCast_emod, Int64.ofInt_eq_ofNat]

theorem asU32_ofNat (n : Nat) : asU32 (Int64.ofNat n) = UInt32.ofNat n :=
  UInt64.toUInt32_ofNat' n

theorem sub_mul_ofNat {z era b : Nat} (h : era * b ≤ z) :
    Int64.ofNat z - Int64.ofNat era * Int64.ofNat b = Int64.ofNat (z - era * b) := by
  rw [← Int64.ofInt_eq_ofNat, ← Int64.ofInt_eq_ofNat, ← Int64.ofInt_eq_ofNat, ← Int64.ofInt_eq_ofNat,
    ← Int64.ofInt_mul, ← Int64.ofInt_sub, Int.ofNat_sub h, Int.natCast_mul]

/-- The year of a day, as the code computes it. -/
theorem yearOfEra_ofNat {doe : Nat} (h : doe < 146097) :
    (UInt32.ofNat doe - UInt32.ofNat doe / 1460 + UInt32.ofNat doe / 36524 -
      UInt32.ofNat doe / 146096) / 365 = UInt32.ofNat (yearOfEra doe) := by
  unfold yearOfEra
  simp (disch := omega) only [UInt32.ofNat_div, UInt32.ofNat_sub, UInt32.ofNat_add]
  rfl

theorem daysToYearOfEra_ofNat {yoe : Nat} (h : yoe ≤ 399) :
    365 * UInt32.ofNat yoe + UInt32.ofNat yoe / 4 - UInt32.ofNat yoe / 100 =
      UInt32.ofNat (daysToYearOfEra yoe) := by
  unfold daysToYearOfEra
  simp (disch := omega) only [UInt32.ofNat_div, UInt32.ofNat_sub, UInt32.ofNat_add, UInt32.ofNat_mul]
  rfl

theorem monthOfYear_ofNat {doy : Nat} (h : doy < 366) :
    (5 * UInt32.ofNat doy + 2) / 153 = UInt32.ofNat (monthOfYear doy) := by
  unfold monthOfYear
  simp (disch := omega) only [UInt32.ofNat_div, UInt32.ofNat_add, UInt32.ofNat_mul]
  rfl

theorem daysToMonthOfYear_ofNat {mp : Nat} (h : mp ≤ 11) :
    (153 * UInt32.ofNat mp + 2) / 5 = UInt32.ofNat (daysToMonthOfYear mp) := by
  unfold daysToMonthOfYear
  simp (disch := omega) only [UInt32.ofNat_div, UInt32.ofNat_add, UInt32.ofNat_mul]
  rfl

theorem ofNat_lt_iff {a b : Nat} (ha : a < 2 ^ 32) (hb : b < 2 ^ 32) :
    UInt32.ofNat a < UInt32.ofNat b ↔ a < b := by
  rw [UInt32.lt_iff_toNat_lt, UInt32.toNat_ofNat_of_lt' ha, UInt32.toNat_ofNat_of_lt' hb]

theorem ofNat_le_iff {a b : Nat} (ha : a < 2 ^ 32) (hb : b < 2 ^ 32) :
    UInt32.ofNat a ≤ UInt32.ofNat b ↔ a ≤ b := by
  rw [UInt32.le_iff_toNat_le, UInt32.toNat_ofNat_of_lt' ha, UInt32.toNat_ofNat_of_lt' hb]

end Machine

/-- The month and the year of a day of a year that begins in March, as the code
computes them. -/
theorem civilOfYear_ofNat {y doy : Nat} (h : doy < 366) :
    let mp := UInt32.ofNat (monthOfYear doy)
    let m := if mp < 10 then mp + 3 else mp - 9
    let year := if m ≤ 2 then Int32.ofNat y + 1 else Int32.ofNat y
    (year, m, UInt32.ofNat doy - UInt32.ofNat (daysToMonthOfYear (monthOfYear doy)) + 1) =
      (Int32.ofNat (civilOfYear y doy).1, UInt32.ofNat (civilOfYear y doy).2.1,
        UInt32.ofNat (civilOfYear y doy).2.2) := by
  obtain ⟨hmp, hstart, -⟩ := monthOfYear_spec h
  unfold civilOfYear
  generalize monthOfYear doy = mp at *
  dsimp only
  have hday : UInt32.ofNat doy - UInt32.ofNat (daysToMonthOfYear mp) + 1 =
      UInt32.ofNat (doy - daysToMonthOfYear mp + 1) := by
    rw [UInt32.ofNat_add, UInt32.ofNat_sub hstart]
    rfl
  have hlt : UInt32.ofNat mp < 10 ↔ mp < 10 := ofNat_lt_iff (by omega) (by decide)
  have hmonth : (if UInt32.ofNat mp < 10 then UInt32.ofNat mp + 3 else UInt32.ofNat mp - 9) =
      UInt32.ofNat (if mp < 10 then mp + 3 else mp - 9) := by
    by_cases hmarch : mp < 10
    · rw [if_pos (hlt.2 hmarch), if_pos hmarch, UInt32.ofNat_add]
      rfl
    · rw [if_neg (fun h' => hmarch (hlt.1 h')), if_neg hmarch, UInt32.ofNat_sub (by omega)]
      rfl
  have hm : (if mp < 10 then mp + 3 else mp - 9) < 2 ^ 32 := by split <;> omega
  rw [hmonth, hday]
  generalize (if mp < 10 then mp + 3 else mp - 9) = m at hm
  have hle : UInt32.ofNat m ≤ 2 ↔ m ≤ 2 := ofNat_le_iff hm (by decide)
  by_cases hjan : m ≤ 2
  · rw [if_pos (hle.2 hjan), if_pos hjan, Int32.ofNat_add]
    rfl
  · rw [if_neg (fun h' => hjan (hle.1 h')), if_neg hjan]

/-- The date and the time of day of a second. -/
def ymdhms (n : Nat) : Nat × Nat × Nat × Nat × Nat × Nat :=
  let date := civil (n / 86400 + 719468)
  let today := n % 86400
  (date.1, date.2.1, date.2.2, today / 3600, today % 3600 / 60, today % 60)

/-- **The machine arithmetic computes the calendar.** -/
theorem epochToYmdhms_eq {n : Nat} (h : n < 2 ^ 62) :
    epochToYmdhms (Int64.ofNat n) = (Int32.ofNat (ymdhms n).1, UInt32.ofNat (ymdhms n).2.1,
      UInt32.ofNat (ymdhms n).2.2.1, UInt32.ofNat (ymdhms n).2.2.2.1,
      UInt32.ofNat (ymdhms n).2.2.2.2.1, UInt32.ofNat (ymdhms n).2.2.2.2.2) := by
  have hz : n / 86400 + 719468 < 2 ^ 63 := by omega
  have hdays : divEuclid (Int64.ofNat n) 86400 + 719468 = Int64.ofNat (n / 86400 + 719468) := by
    rw [show (86400 : Int) = (86400 : Nat) from rfl, divEuclid_ofNat (by omega), Int64.ofNat_add]
    rfl
  have htoday : asU32 (remEuclid (Int64.ofNat n) 86400) = UInt32.ofNat (n % 86400) := by
    rw [show (86400 : Int) = (86400 : Nat) from rfl, remEuclid_ofNat (by omega), asU32_ofNat]
  have hminutes : n % 86400 % 3600 < 2 ^ 32 := by omega
  have hsecs : n % 86400 < 2 ^ 32 := by omega
  have hhour : UInt32.ofNat (n % 86400) / 3600 = UInt32.ofNat (n % 86400 / 3600) :=
    (UInt32.ofNat_div hsecs (by decide)).symm
  have hmin : UInt32.ofNat (n % 86400) % 3600 / 60 = UInt32.ofNat (n % 86400 % 3600 / 60) := by
    rw [UInt32.ofNat_div hminutes (by decide), UInt32.ofNat_mod hsecs (by decide)]
    rfl
  have hsec : UInt32.ofNat (n % 86400) % 60 = UInt32.ofNat (n % 86400 % 60) :=
    (UInt32.ofNat_mod hsecs (by decide)).symm
  simp only [epochToYmdhms, ymdhms, civil, hdays, htoday]
  generalize n / 86400 + 719468 = z at *
  have hera : divEuclid (Int64.ofNat z) 146097 = Int64.ofNat (z / 146097) :=
    divEuclid_ofNat hz 146097
  have hdoe : asU32 (Int64.ofNat z - Int64.ofNat (z / 146097) * 146097) =
      UInt32.ofNat (z % 146097) := by
    have hsub := sub_mul_ofNat (z := z) (b := 146097) (Nat.div_mul_le_self z 146097)
    rw [Nat.sub_eq_of_eq_add (Nat.mod_add_div' z 146097).symm] at hsub
    rw [← asU32_ofNat, ← hsub]
    rfl
  have hlt : z % 146097 < 146097 := Nat.mod_lt _ (by decide)
  obtain ⟨h399, hstart, -⟩ := yearOfEra_spec hlt
  obtain ⟨h366, -⟩ := yearOfEra_length hlt 0
  have hyear : (UInt32.ofNat (yearOfEra (z % 146097))).toInt32 + (Int64.ofNat (z / 146097)).toInt32 * 400 =
      Int32.ofNat (yearOfEra (z % 146097) + z / 146097 * 400) := by
    rw [UInt32.toInt32_ofNat', Int64.toInt32_ofNat', Int32.ofNat_add, Int32.ofNat_mul]
    congr 1
  have hcivil := civilOfYear_ofNat (y := yearOfEra (z % 146097) + z / 146097 * 400) h366
  have hmp := monthOfYear_spec h366
  simp only [hera, hdoe, yearOfEra_ofNat hlt, daysToYearOfEra_ofNat h399, ← UInt32.ofNat_sub hstart,
    monthOfYear_ofNat h366, daysToMonthOfYear_ofNat hmp.1, hyear]
  rw [hhour, hmin, hsec]
  simp only [Prod.mk.injEq] at hcivil
  exact congrArg₂ Prod.mk hcivil.1 (congrArg₂ Prod.mk hcivil.2.1 (congrArg₂ Prod.mk hcivil.2.2 rfl))

/-! ## The date of a second -/

/-- The date of a second, as the code computes it. -/
def dateOf (n : Nat) : DateTime where
  year := (ymdhms n).1
  month := (ymdhms n).2.1
  day := (ymdhms n).2.2.1
  hour := (ymdhms n).2.2.2.1
  minute := (ymdhms n).2.2.2.2.1
  second := (ymdhms n).2.2.2.2.2
  month_pos := (civil_spec _).1.1
  month_le := (civil_spec _).1.2
  day_pos := (civil_spec _).2.1.1
  day_le := (civil_spec _).2.1.2
  hour_lt := by show n % 86400 / 3600 < 24; omega
  minute_lt := by show n % 86400 % 3600 / 60 < 60; omega
  second_lt := by show n % 86400 % 60 < 60; omega

/-- The date of a second is counted to that second. -/
theorem dateOf_unix (n : Nat) : (dateOf n).unix = n := by
  have hday : dayNumber (dateOf n).year (dateOf n).month (dateOf n).day =
      n / 86400 + 719468 + 60 := (civil_spec _).2.2
  have htime : (dateOf n).hour * 3600 + (dateOf n).minute * 60 + (dateOf n).second = n % 86400 := by
    show n % 86400 / 3600 * 3600 + n % 86400 % 3600 / 60 * 60 + n % 86400 % 60 = _
    omega
  rw [DateTime.unix, hday, htime, unixEpoch]
  omega

/-- The first second whose year does not fit the code's `i32`. -/
def undatable : Nat := 67767976233532800

theorem dateOf_year_lt_iff {n y : Nat} :
    (dateOf n).year < y ↔ n / 86400 + 719528 < daysToYear y := by
  have hday : dayNumber (dateOf n).year (dateOf n).month (dateOf n).day =
      n / 86400 + 719468 + 60 := (civil_spec _).2.2
  rw [DateTime.year_lt_iff, hday]

-- the year stays a variable: the count of days is not to be computed
theorem daysToYear_of_pow {y : Nat} (h : y = 2147483648 ∨ y = 4294967296) :
    (y = 2147483648 → daysToYear y = 784352296305) ∧
      (y = 4294967296 → daysToYear y = 1568704592610) := by
  have hcount := daysToYear_add_leap y
  have hleap : isLeap y = true := by
    rw [isLeap_iff]
    omega
  rw [if_pos hleap] at hcount
  constructor <;> intro hy <;> omega

theorem dateOf_year_lt {n y : Nat} (hy : y = 2147483648) : (dateOf n).year < y ↔ n < undatable := by
  rw [dateOf_year_lt_iff, (daysToYear_of_pow (.inl hy)).1 hy]
  unfold undatable
  omega

/-! ## The text of a date -/

/-- The RFC 3339 text of a date. -/
def textOf (t : DateTime) : String :=
  zeroPadded 4 t.year ++ "-" ++ zeroPadded 2 t.month ++ "-" ++ zeroPadded 2 t.day ++ "T" ++
    zeroPadded 2 t.hour ++ ":" ++ zeroPadded 2 t.minute ++ ":" ++ zeroPadded 2 t.second ++ "Z"

/-- The code's text of a second is that of its date. -/
theorem rfc3339_eq_textOf {n : Nat} (h : n < undatable) : rfc3339 (Int64.ofNat n) = textOf (dateOf n) := by
  have hyear : (Int32.ofNat (dateOf n).year).toInt = (dateOf n).year :=
    Int32.toInt_ofNat_of_lt ((dateOf_year_lt (by decide)).2 h)
  have hsmall : ∀ {k : Nat}, k < 100 → (UInt32.ofNat k).toNat = k :=
    fun hk => UInt32.toNat_ofNat_of_lt' (Nat.lt_trans hk (by decide))
  rw [rfc3339, epochToYmdhms_eq (Nat.lt_trans h (by decide))]
  show zeroPadded 4 (Int32.ofNat (dateOf n).year).toInt ++ "-" ++
    zeroPadded 2 (UInt32.ofNat (dateOf n).month).toNat ++ "-" ++
    zeroPadded 2 (UInt32.ofNat (dateOf n).day).toNat ++ "T" ++
    zeroPadded 2 (UInt32.ofNat (dateOf n).hour).toNat ++ ":" ++
    zeroPadded 2 (UInt32.ofNat (dateOf n).minute).toNat ++ ":" ++
    zeroPadded 2 (UInt32.ofNat (dateOf n).second).toNat ++ "Z" = _
  rw [hyear, hsmall (Nat.lt_of_le_of_lt (dateOf n).month_le (by decide)), hsmall (dateOf n).day_lt,
    hsmall (Nat.lt_trans (dateOf n).hour_lt (by decide)),
    hsmall (Nat.lt_trans (dateOf n).minute_lt (by decide)),
    hsmall (Nat.lt_trans (dateOf n).second_lt (by decide))]
  rfl

/-- The digits of a number, padded. -/
def padded (width n : Nat) : List Char := List.leftpad width '0' (Nat.toDigits 10 n)

theorem zeroPadded_toList (width n : Nat) : (zeroPadded width n).toList = padded width n := by
  have hnot : ¬ (n : Int) < 0 := by omega
  rw [zeroPadded, if_neg hnot, Int.natAbs_natCast, String.leftpad, String.toList_ofList, padded,
    Nat.toString_eq_repr, Nat.toList_repr]

/-- A padded number is read back. -/
theorem padded_injective {width n m : Nat} (h : padded width n = padded width m) : n = m := by
  have hread : ∀ k, Nat.ofDigitChars 10 (padded width k) 0 = k := by
    intro k
    rw [padded, List.leftpad, Nat.ofDigitChars_append, Nat.ofDigitChars_replicate_zero, Nat.mul_zero,
      Nat.ofDigitChars_ten_toDigits]
  rw [← hread n, h, hread m]

theorem length_padded {n : Nat} (h : n < 100) : (padded 2 n).length = 2 := by
  have hdigits : ∀ k < 100, (Nat.toDigits 10 k).length ≤ 2 := by decide +kernel
  rw [padded, List.length_leftpad]
  exact Nat.max_eq_left (hdigits n h)

theorem textOf_toList (t : DateTime) : (textOf t).toList = padded 4 t.year ++ ('-' ::
    (padded 2 t.month ++ '-' :: (padded 2 t.day ++ 'T' :: (padded 2 t.hour ++ ':' ::
      (padded 2 t.minute ++ ':' :: (padded 2 t.second ++ ['Z'])))))) := by
  simp [textOf, zeroPadded_toList]

/-- Two parts of equal texts, when the first are equally long. -/
theorem padded_append_inj {n m : Nat} {c d : Char} {l l' : List Char} (hn : n < 100) (hm : m < 100)
    (h : c :: (padded 2 n ++ l) = d :: (padded 2 m ++ l')) : n = m ∧ l = l' := by
  obtain ⟨hpart, hrest⟩ := List.append_inj (List.cons.inj h).2
    ((length_padded hn).trans (length_padded hm).symm)
  exact ⟨padded_injective hpart, hrest⟩

/-- **A text stands for one second only.** -/
theorem unix_eq_of_textOf {t t' : DateTime} (h : textOf t = textOf t') : t.unix = t'.unix := by
  have hlist := congrArg String.toList h
  rw [textOf_toList, textOf_toList] at hlist
  have hmonth : ∀ t : DateTime, t.month < 100 := fun t => Nat.lt_of_le_of_lt t.month_le (by decide)
  have hhour : ∀ t : DateTime, t.hour < 100 := fun t => Nat.lt_trans t.hour_lt (by decide)
  have hminute : ∀ t : DateTime, t.minute < 100 := fun t => Nat.lt_trans t.minute_lt (by decide)
  have hsecond : ∀ t : DateTime, t.second < 100 := fun t => Nat.lt_trans t.second_lt (by decide)
  -- what follows the year has the same length in every text
  obtain ⟨hy, hrest⟩ := List.append_inj' hlist (by
    simp [length_padded, hmonth, hhour, hminute, hsecond, DateTime.day_lt])
  obtain ⟨hmo, hrest⟩ := padded_append_inj (hmonth t) (hmonth t') hrest
  obtain ⟨hd, hrest⟩ := padded_append_inj t.day_lt t'.day_lt hrest
  obtain ⟨hh, hrest⟩ := padded_append_inj (hhour t) (hhour t') hrest
  obtain ⟨hmi, hrest⟩ := padded_append_inj (hminute t) (hminute t') hrest
  obtain ⟨hs, -⟩ := padded_append_inj (hsecond t) (hsecond t') hrest
  rw [DateTime.unix, DateTime.unix, padded_injective hy, hmo, hd, hh, hmi, hs]

/-- The Unix second an RFC 3339 text denotes. -/
def Denotes (text : String) (secs : Int) : Prop := ∃ t : DateTime, textOf t = text ∧ t.unix = secs

/-- **The code's text of a second denotes that second, and no other.** -/
theorem denotes_rfc3339 {n : Nat} (h : n < undatable) {secs : Int} :
    Denotes (rfc3339 (Int64.ofNat n)) secs ↔ secs = n := by
  rw [rfc3339_eq_textOf h]
  constructor
  · rintro ⟨t, htext, rfl⟩
    rw [unix_eq_of_textOf htext, dateOf_unix]
  · rintro rfl
    exact ⟨dateOf n, rfl, dateOf_unix n⟩

/-! ## Years that do not fit -/

theorem not_dash_padded (width n : Nat) : '-' ∉ padded width n := by
  intro h
  rcases List.mem_append.1 h with h | h
  · exact absurd (List.eq_of_mem_replicate h) (by decide)
  · exact absurd (Nat.isDigit_of_mem_toDigits (by decide) (by decide) h) (by decide)

/-- A text that the code makes of any second denotes a second of the year it
shows. -/
theorem year_of_denotes {s : Int64} {secs : Int} (h : Denotes (rfc3339 s) secs) :
    ∃ t : DateTime, t.unix = secs ∧ (epochToYmdhms s).1.toInt = t.year := by
  obtain ⟨t, htext, rfl⟩ := h
  refine ⟨t, rfl, ?_⟩
  have hlist := congrArg String.toList htext
  rw [textOf_toList, rfc3339] at hlist
  simp only [String.toList_append, List.append_assoc] at hlist
  generalize (epochToYmdhms s).1.toInt = y at hlist
  have hdash : ("-" : String).toList = ['-'] := rfl
  rw [hdash, List.singleton_append] at hlist
  by_cases hneg : y < 0
  · -- a sign comes first, where the text of a date has a digit
    have hsign : (zeroPadded 4 y).toList =
        '-' :: (String.leftpad (4 - 1) '0' (toString y.natAbs)).toList := by
      rw [zeroPadded, if_pos hneg, String.toList_append, hdash, List.singleton_append]
    rw [hsign, List.cons_append] at hlist
    have hnil : padded 4 t.year ≠ [] := by
      intro hnil
      have hlen := congrArg List.length hnil
      rw [padded, List.length_leftpad] at hlen
      simp at hlen
    obtain ⟨c, rest, hc⟩ := List.exists_cons_of_ne_nil hnil
    rw [hc, List.cons_append] at hlist
    have hmem : '-' ∈ padded 4 t.year := by
      rw [hc, (List.cons.inj hlist).1]
      exact List.mem_cons_self
    exact absurd hmem (not_dash_padded _ _)
  · obtain ⟨n, rfl⟩ := Int.eq_ofNat_of_zero_le (Int.not_lt.1 hneg)
    rw [zeroPadded_toList] at hlist
    rw [padded_injective (eq_of_append_cons (not_dash_padded _ _) (not_dash_padded _ _) hlist)]

/-- A text denotes a second whose year fits the code's `i32`. -/
theorem lt_undatable_of_denotes {s : Int64} {secs : Int} (h : Denotes (rfc3339 s) secs) :
    secs < undatable := by
  obtain ⟨t, rfl, hyear⟩ := year_of_denotes h
  have hlt := Int32.toInt_lt (epochToYmdhms s).1
  rw [hyear] at hlt
  obtain ⟨y, hy⟩ : ∃ y, y = 2147483648 := ⟨_, rfl⟩
  have hday := (t.year_lt_iff y).1 (by omega)
  rw [(daysToYear_of_pow (.inl hy)).1 hy] at hday
  have hhour := t.hour_lt
  have hminute := t.minute_lt
  have hsecond := t.second_lt
  rw [DateTime.unix, unixEpoch, undatable]
  omega

/-- **A text made of a second whose year does not fit denotes no second, or one
long before.** -/
theorem denotes_undatable {n : Nat} (h : undatable ≤ n) {secs : Int}
    (hdenotes : Denotes (rfc3339 (Int64.ofNat n)) secs) : secs + undatable < n := by
  have hlt := lt_undatable_of_denotes hdenotes
  by_cases hfar : 135536014634284800 ≤ n
  · unfold undatable at *
    omega
  · -- the year has the sign bit set
    obtain ⟨t, -, hyear⟩ := year_of_denotes hdenotes
    rw [epochToYmdhms_eq (by omega)] at hyear
    have hbig : ¬ (dateOf n).year < 2147483648 := fun hsmall =>
      absurd ((dateOf_year_lt rfl).1 hsmall) (Nat.not_lt.2 h)
    obtain ⟨y, hy⟩ : ∃ y, y = 4294967296 := ⟨_, rfl⟩
    have hsmall : (dateOf n).year < y := by
      rw [dateOf_year_lt_iff, (daysToYear_of_pow (.inr hy)).2 hy]
      omega
    change (Int32.ofNat (dateOf n).year).toInt = _ at hyear
    rw [Int32.toInt_ofNat', Int.bmod_def] at hyear
    have hsize : Int32.size = 4294967296 := rfl
    rw [hsize] at hyear
    split at hyear <;> omega

end ClusterNats
