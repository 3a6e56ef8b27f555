/-!
# Points in time

- `Timestamp`: seconds since the start of 1970 in universal time, and nanoseconds.
- `Timestamp.date`: the year, month and day.
- `Timestamp.rfc3339?`: the text of RFC 3339, which has years from 0 to 9999.
-/

namespace ProjectConsistency

/-- Seconds since the start of 1970 in universal time, and nanoseconds below a second. -/
structure Timestamp where
  seconds : Int
  nanos : Nat := 0
  deriving DecidableEq, Repr

namespace Timestamp

/--
The date of a day counted from the first of March of the year 0. A year from March to February ends
with the leap day, so days are split into eras of 400 years, years, and months of 30.6 days.
-/
def dateOfDay (day : Int) : Int × Nat × Nat :=
  let era := day.fdiv 146097
  let dayOfEra := (day.fmod 146097).toNat
  let yearOfEra := (dayOfEra - dayOfEra / 1460 + dayOfEra / 36524 - dayOfEra / 146096) / 365
  let dayOfYear := dayOfEra - (365 * yearOfEra + yearOfEra / 4 - yearOfEra / 100)
  let shifted := (5 * dayOfYear + 2) / 153
  let dayOfMonth := dayOfYear - (153 * shifted + 2) / 5 + 1
  let month := if shifted < 10 then shifted + 3 else shifted - 9
  let year := (yearOfEra : Int) + era * 400 + (if month ≤ 2 then 1 else 0)
  (year, month, dayOfMonth)

def date (t : Timestamp) : Int × Nat × Nat :=
  dateOfDay (t.seconds.fdiv 86400 + 719468)

def secondOfDay (t : Timestamp) : Nat :=
  (t.seconds.fmod 86400).toNat

/-- A number with zeros in front up to a width. -/
def padded (width n : Nat) : String :=
  let digits := Nat.toDigits 10 n
  String.ofList (List.replicate (width - digits.length) '0' ++ digits)

/-- The decimals of a second, without trailing zeros. -/
def fraction (nanos : Nat) : String :=
  if nanos = 0 then ""
  else
    String.ofList ('.' :: ((padded 9 nanos).toList.reverse.dropWhile (· = '0')).reverse)

def rfc3339? (t : Timestamp) : Option String :=
  let (year, month, day) := t.date
  let s := t.secondOfDay
  if 0 ≤ year && year ≤ 9999 then
    some (padded 4 year.toNat ++ "-" ++ padded 2 month ++ "-" ++ padded 2 day ++ "T"
      ++ padded 2 (s / 3600) ++ ":" ++ padded 2 (s / 60 % 60) ++ ":" ++ padded 2 (s % 60)
      ++ fraction t.nanos ++ "Z")
  else none

end Timestamp

end ProjectConsistency
