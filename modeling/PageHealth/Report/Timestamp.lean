import PageHealth.Number.Notation

namespace PageHealth

structure Timestamp where
  seconds : Int
  nanoseconds : Nat
  deriving DecidableEq

structure CivilDate where
  year : Int
  month : Nat
  day : Nat

/-- The date of a day counted from the start of 1970. Years are counted from March on, so that the
leap day is a year's last, and in eras of 400 years, after which the calendar repeats. -/
def CivilDate.ofDays (days : Int) : CivilDate :=
  let shifted := days + 719468
  let era := Int.fdiv shifted 146097
  let dayOfEra := (shifted - era * 146097).toNat
  let yearOfEra :=
    (dayOfEra - dayOfEra / 1460 + dayOfEra / 36524 - dayOfEra / 146096) / 365
  let dayOfYear := dayOfEra - (365 * yearOfEra + yearOfEra / 4 - yearOfEra / 100)
  let shiftedMonth := (5 * dayOfYear + 2) / 153
  let month := if shiftedMonth < 10 then shiftedMonth + 3 else shiftedMonth - 9
  { year := yearOfEra + era * 400 + (if month ≤ 2 then 1 else 0)
    month := month
    day := dayOfYear - (153 * shiftedMonth + 2) / 5 + 1 }

def paddedDigits (width n : Nat) : String := padLeft width '0' (digitsText n)

def yearText (year : Int) : String :=
  if 0 ≤ year ∧ year ≤ 9999 then paddedDigits 4 year.toNat
  else (if year < 0 then "-" else "+") ++ paddedDigits 4 year.natAbs

/-- No fraction digits, or three, six or nine. -/
def fractionText (nanoseconds : Nat) : String :=
  if nanoseconds = 0 then ""
  else if nanoseconds % 1000000 = 0 then "." ++ paddedDigits 3 (nanoseconds / 1000000)
  else if nanoseconds % 1000 = 0 then "." ++ paddedDigits 6 (nanoseconds / 1000)
  else "." ++ paddedDigits 9 nanoseconds

/-- A leap second is the sixtieth of its minute, kept as a second's worth of nanoseconds too many. -/
def Timestamp.text (t : Timestamp) : String :=
  let days := Int.fdiv t.seconds 86400
  let date := CivilDate.ofDays days
  let second := (t.seconds - days * 86400).toNat
  yearText date.year ++ "-" ++ paddedDigits 2 date.month ++ "-" ++ paddedDigits 2 date.day ++ "T" ++
    paddedDigits 2 (second / 3600) ++ ":" ++ paddedDigits 2 (second / 60 % 60) ++ ":" ++
    paddedDigits 2 (second % 60 + t.nanoseconds / 1000000000) ++
    fractionText (t.nanoseconds % 1000000000) ++ "Z"

end PageHealth
