import Havoc.Time.Calendar

/-! # Patterns for times

    A pattern is a text in which a percent sign and a letter stand for a part of the time.
    `conversion?` names the parts there are, and a formatter of patterns refuses any other letter.
    `guarded` rewrites a pattern so that nothing is refused: a percent sign that begins no known
    part is doubled, which stands for the sign itself. -/

namespace Havoc.Pattern

/-- The parts of a time that a pattern can show. -/
inductive Conversion where
  | year | shortYear | month | shortMonthName | monthName | day | paddedDay | dayOfYear
  | shortWeekday | weekday | hour | clockHour | minute | second | half | nanosecond | offset | zone
  deriving DecidableEq, Repr

/-- The letters of the parts. -/
def letters : List (Char × Conversion) :=
  [('Y', .year), ('y', .shortYear), ('m', .month), ('b', .shortMonthName), ('B', .monthName),
    ('d', .day), ('e', .paddedDay), ('j', .dayOfYear), ('a', .shortWeekday), ('A', .weekday),
    ('H', .hour), ('I', .clockHour), ('M', .minute), ('S', .second), ('p', .half),
    ('f', .nanosecond), ('z', .offset), ('Z', .zone)]

/-- The part that a letter stands for. -/
def conversion? (c : Char) : Option Conversion := letters.lookup c

/-- A piece of a pattern. -/
inductive Item where
  | literal (c : Char)
  | part (p : Conversion)
  deriving DecidableEq, Repr

/-- Reads a pattern; a percent sign has to be followed by another or by the letter of a part. -/
def items? : List Char → Option (List Item)
  | [] => some []
  | '%' :: rest =>
    match rest with
    | [] => none
    | c :: rest =>
      if c = '%' then (items? rest).map (.literal '%' :: ·)
      else
        match conversion? c with
        | some p => (items? rest).map (.part p :: ·)
        | none => none
  | c :: rest => (items? rest).map (.literal c :: ·)

/-- Doubles every percent sign that begins no known part. -/
def guarded : List Char → List Char
  | [] => []
  | '%' :: rest =>
    match rest with
    | [] => ['%', '%']
    | c :: rest =>
      if (conversion? c).isSome then '%' :: c :: guarded rest
      else if c = '%' then '%' :: '%' :: guarded rest
      else '%' :: '%' :: c :: guarded rest
  | c :: rest => c :: guarded rest

/-- The names of the months. -/
def monthNames : List String :=
  ["January", "February", "March", "April", "May", "June", "July", "August", "September",
    "October", "November", "December"]

/-- The names of the days of the week. -/
def weekdayNames : List String :=
  ["Sunday", "Monday", "Tuesday", "Wednesday", "Thursday", "Friday", "Saturday"]

/-- A part of a time as text. -/
def Conversion.show (t : Moment) : Conversion → List Char
  | .year => yearText t.date.year
  | .shortYear => twoDigits (Int.fmod t.date.year 100).toNat
  | .month => twoDigits t.date.month
  | .shortMonthName => ((monthNames.getD (t.date.month - 1) "").toList.take 3)
  | .monthName => (monthNames.getD (t.date.month - 1) "").toList
  | .day => twoDigits t.date.day
  | .paddedDay => Number.padLeft 2 ' ' (Number.digits t.date.day)
  | .dayOfYear => Number.zeroPadded 3 t.date.dayOfYear
  | .shortWeekday => ((weekdayNames.getD t.date.weekday "").toList.take 3)
  | .weekday => (weekdayNames.getD t.date.weekday "").toList
  | .hour => twoDigits t.hour
  | .clockHour => twoDigits ((t.hour + 11) % 12 + 1)
  | .minute => twoDigits t.minute
  | .second => twoDigits t.second
  | .half => if t.hour < 12 then ['A', 'M'] else ['P', 'M']
  | .nanosecond => Number.zeroPadded 9 t.subsecond
  | .offset => ['+', '0', '0', '0', '0']
  | .zone => ['U', 'T', 'C']

/-- A piece of a pattern as text. -/
def Item.show (t : Moment) : Item → List Char
  | .literal c => [c]
  | .part p => p.show t

/-- A time in a pattern that the formatter accepts. -/
def format? (t : Moment) (pattern : List Char) : Option (List Char) :=
  (items? pattern).map fun items => items.flatMap (Item.show t)

/-- A time in any pattern. -/
def format (t : Moment) (pattern : List Char) : List Char :=
  (format? t (guarded pattern)).getD pattern

end Havoc.Pattern
