import ClusterNats.Codec.Value

/-!
# Calendar times

The RFC 3339 texts of lease records.  The clock's whole seconds are taken apart
into a proleptic Gregorian date and a time of day, in the integer types of the
code.

* `epochToYmdhms` — date and time of a Unix second.
* `rfc3339` — its text.
-/

namespace ClusterNats

/-- `i64::div_euclid` by a positive divisor. -/
def divEuclid (a : Int64) (b : Int) : Int64 := Int64.ofInt (a.toInt / b)

/-- `i64::rem_euclid` by a positive divisor. -/
def remEuclid (a : Int64) (b : Int) : Int64 := Int64.ofInt (a.toInt % b)

/-- `as u32` of an `i64`. -/
def asU32 (a : Int64) : UInt32 := a.toUInt64.toUInt32

/-- Year, month, day, hour, minute and second of a Unix second; the year starts
in March in the middle of it. -/
def epochToYmdhms (secs : Int64) : Int32 × UInt32 × UInt32 × UInt32 × UInt32 × UInt32 :=
  let daysSinceEpoch := divEuclid secs 86400
  let secsToday := asU32 (remEuclid secs 86400)
  let hour := secsToday / 3600
  let min := secsToday % 3600 / 60
  let sec := secsToday % 60
  let z := daysSinceEpoch + 719468
  let era := divEuclid z 146097
  let doe := asU32 (z - era * 146097)
  let yoe := (doe - doe / 1460 + doe / 36524 - doe / 146096) / 365
  let y := yoe.toInt32 + era.toInt32 * 400
  let doy := doe - (365 * yoe + yoe / 4 - yoe / 100)
  let mp := (5 * doy + 2) / 153
  let d := doy - (153 * mp + 2) / 5 + 1
  let m := if mp < 10 then mp + 3 else mp - 9
  let year := if m ≤ 2 then y + 1 else y
  (year, m, d, hour, min, sec)

/-- A leap day, as the code's own test has it. -/
example : epochToYmdhms (19782 * 86400 + 45296) = (2024, 2, 29, 12, 34, 56) := by decide +kernel

/-- `{n:0width}`; a sign counts. -/
def zeroPadded (width : Nat) (n : Int) : String :=
  if n < 0 then "-" ++ String.leftpad (width - 1) '0' (toString n.natAbs)
  else String.leftpad width '0' (toString n.natAbs)

/-- `{y:04}-{m:02}-{d:02}T{h:02}:{mn:02}:{s:02}Z`. -/
def rfc3339 (secs : Int64) : String :=
  let (y, m, d, h, mn, s) := epochToYmdhms secs
  zeroPadded 4 y.toInt ++ "-" ++ zeroPadded 2 m.toNat ++ "-" ++ zeroPadded 2 d.toNat ++ "T" ++
    zeroPadded 2 h.toNat ++ ":" ++ zeroPadded 2 mn.toNat ++ ":" ++ zeroPadded 2 s.toNat ++ "Z"

end ClusterNats
