import SqlInjection.Finding.Fingerprint

/-!
# Names and times of scans

A scan is named by 122 random bits, written as digits to base sixteen in five groups. Its time is
written as the date and the time of day in universal time.
-/

namespace SqlInjection

/-- The digits of `n` to base ten, at least `width` of them. -/
def paddedDecimal (width n : Nat) : Text :=
  let digits := decimal n
  List.replicate (width - digits.length) '0' ++ digits

/-- How many values 128 random bits may have. -/
def scanNames : Nat := Nat.pow 2 128

/-- The name of a scan with these random bits. Six of the 128 bits are fixed: they tell that the
others are random. -/
def scanName (random : Nat) : Text :=
  let digits := hexDigits 32 (random % scanNames)
  let variant := Nat.digitChar (8 + random % 4)
  digits.take 8 ++ '-' :: (digits.drop 8).take 4 ++ '-' :: '4' :: (digits.drop 13).take 3 ++
    '-' :: variant :: (digits.drop 17).take 3 ++ '-' :: digits.drop 20

/-- A date. -/
structure Date where
  year : Nat
  month : Nat
  day : Nat
  deriving DecidableEq, Repr

/-- The date a number of days after the first of January 1970. Years are counted from March on, so
that a leap day is the last day of its year. -/
def Date.ofDays (days : Nat) : Date :=
  let z := days + 719468
  let inEra := z % 146097
  let yearOfEra := (inEra - inEra / 1460 + inEra / 36524 - inEra / 146096) / 365
  let dayOfYear := inEra - (365 * yearOfEra + yearOfEra / 4 - yearOfEra / 100)
  let month := (5 * dayOfYear + 2) / 153
  let year := yearOfEra + z / 146097 * 400
  { year := if month < 10 then year else year + 1
    month := if month < 10 then month + 3 else month - 9
    day := dayOfYear - (153 * month + 2) / 5 + 1 }

/-- The part of a second, by as many groups of three digits as it needs. -/
def secondPart (nanoseconds : Nat) : Text :=
  if nanoseconds = 0 then []
  else if nanoseconds % 1000000 = 0 then '.' :: paddedDecimal 3 (nanoseconds / 1000000)
  else if nanoseconds % 1000 = 0 then '.' :: paddedDecimal 6 (nanoseconds / 1000)
  else '.' :: paddedDecimal 9 nanoseconds

/-- The time a number of nanoseconds after the start of 1970. -/
def timeStamp (nanoseconds : Nat) : Text :=
  let seconds := nanoseconds / 1000000000
  let date := Date.ofDays (seconds / 86400)
  let two (n : Nat) : Text := paddedDecimal 2 n
  paddedDecimal 4 date.year ++ '-' :: two date.month ++ '-' :: two date.day ++
    'T' :: two (seconds / 3600 % 24) ++ ':' :: two (seconds / 60 % 60) ++ ':' :: two (seconds % 60) ++
    secondPart (nanoseconds % 1000000000) ++ "+00:00".toList

end SqlInjection
