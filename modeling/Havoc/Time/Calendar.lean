import Havoc.Number.Digits

/-! # The calendar

    A moment is a number of seconds since the start of 1970 and a number of nanoseconds within the
    second.  The proleptic Gregorian calendar gives it a year, a month, a day and a time of day;
    years from `-262143` to `262142` have a name.  A leap second is the last second of a minute
    with a billion nanoseconds or more. -/

namespace Havoc

/-- A date of the Gregorian calendar, carried on in both directions. -/
structure Date where
  year : Int
  month : Nat
  day : Nat
  deriving DecidableEq, Repr

namespace Date

/-- The days from 1 March of the year 0 to a date in years that begin in March. -/
def marchDay (year : Int) (monthFromMarch day : Nat) : Int :=
  365 * year + Int.fdiv year 4 - Int.fdiv year 100 + Int.fdiv year 400 +
    ((153 * monthFromMarch + 2) / 5 : Nat) + day - 1

/-- The days from 1 January 1970 to a date. -/
def toDays (d : Date) : Int :=
  let (year, month) := if d.month ≤ 2 then (d.year - 1, d.month + 9) else (d.year, d.month - 3)
  marchDay year month d.day - 719468

/-- The date so many days after 1 January 1970. -/
def ofDays (days : Int) : Date :=
  let z := days + 719468
  let era := Int.fdiv z 146097
  let dayOfEra := (Int.fmod z 146097).toNat
  let yearOfEra := (dayOfEra - dayOfEra / 1460 + dayOfEra / 36524 - dayOfEra / 146096) / 365
  let dayOfYear := dayOfEra - (365 * yearOfEra + yearOfEra / 4 - yearOfEra / 100)
  let fromMarch := (5 * dayOfYear + 2) / 153
  let month := if fromMarch < 10 then fromMarch + 3 else fromMarch - 9
  { year := era * 400 + yearOfEra + (if month ≤ 2 then 1 else 0)
    month := month
    day := dayOfYear - (153 * fromMarch + 2) / 5 + 1 }

/-- The number of the day in its year, from one. -/
def dayOfYear (d : Date) : Nat := (d.toDays - toDays ⟨d.year, 1, 1⟩ + 1).toNat

/-- The day of the week, Sunday being zero. -/
def weekday (d : Date) : Nat := (Int.fmod (d.toDays + 4) 7).toNat

end Date

/-- A second since the start of 1970 and the nanoseconds within it. -/
structure Moment where
  secs : Int
  nanos : Nat
  deriving DecidableEq, Repr, Inhabited

namespace Moment

/-- The first second that has a date. -/
def earliest : Int := Date.toDays ⟨-262143, 1, 1⟩ * 86400

/-- The last second that has a date. -/
def latest : Int := Date.toDays ⟨262143, 1, 1⟩ * 86400 - 1

/-- The moment at a second and a nanosecond, if the calendar has a name for it. -/
def ofUnix? (secs : Int) (nanos : Nat) : Option Moment :=
  let limit := if Int.fmod secs 60 = 59 then 2000000000 else 1000000000
  if earliest ≤ secs ∧ secs ≤ latest ∧ nanos < limit then some ⟨secs, nanos⟩ else none

/-- The date of a moment. -/
def date (t : Moment) : Date := Date.ofDays (Int.fdiv t.secs 86400)

/-- The seconds since midnight. -/
def secondOfDay (t : Moment) : Nat := (Int.fmod t.secs 86400).toNat

/-- The hour of the day. -/
def hour (t : Moment) : Nat := t.secondOfDay / 3600

/-- The minute of the hour. -/
def minute (t : Moment) : Nat := t.secondOfDay / 60 % 60

/-- The second of the minute; a leap second is second 60. -/
def second (t : Moment) : Nat := t.secondOfDay % 60 + t.nanos / 1000000000

/-- The nanoseconds within the second. -/
def subsecond (t : Moment) : Nat := t.nanos % 1000000000

end Moment

/-- A year with four digits; years outside `0 … 9999` carry a sign. -/
def yearText (year : Int) : List Char :=
  let ds := Number.zeroPadded 4 year.natAbs
  if 0 ≤ year ∧ year ≤ 9999 then ds else (if year < 0 then '-' else '+') :: ds

/-- Two digits. -/
def twoDigits (n : Nat) : List Char := Number.zeroPadded 2 n

/-- The date and time of day in the standard form, with `T` between them. -/
def Moment.stamp (t : Moment) : List Char :=
  yearText t.date.year ++ '-' :: twoDigits t.date.month ++ '-' :: twoDigits t.date.day ++
    'T' :: twoDigits t.hour ++ ':' :: twoDigits t.minute ++ ':' :: twoDigits t.second

/-- The standard form of a moment in whole seconds. -/
def Moment.standard (t : Moment) : List Char := t.stamp ++ ['Z']

/-- The standard form of a moment with nine places for the nanoseconds. -/
def Moment.precise (t : Moment) : String :=
  String.ofList (t.stamp ++ '.' :: Number.zeroPadded 9 t.subsecond ++ ['Z'])

end Havoc
