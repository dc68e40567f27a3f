import LiveValue.Fault

/-!
# Moments

A moment is a date and a time of day, either plain or with an offset from universal time. Its
timestamp names the instant in universal time, cut off below the millisecond; a plain moment is
taken as universal time.
-/

namespace LiveValue

/-- A calendar date. -/
structure Date where
  year : Nat
  month : Nat
  day : Nat
deriving DecidableEq

namespace Date

def isLeap (year : Nat) : Bool := year % 4 == 0 && (year % 100 != 0 || year % 400 == 0)

def monthLengths (year : Nat) : List Nat :=
  [31, if isLeap year then 29 else 28, 31, 30, 31, 30, 31, 31, 30, 31, 30, 31]

def daysBeforeYear (year : Nat) : Nat :=
  let y := year - 1
  365 * y + y / 4 - y / 100 + y / 400

def daysInMonths : Nat → List Nat → Nat
  | 0, _ | _, [] => 0
  | count + 1, length :: more => length + daysInMonths count more

/-- The number of days before a date, counted from the first day of year 1. -/
def ordinal (d : Date) : Nat :=
  daysBeforeYear d.year + daysInMonths (d.month - 1) (monthLengths d.year) + (d.day - 1)

/-- The month and the day that a number of days into the year falls on. -/
def monthAndDay : Nat → List Nat → Nat → Nat × Nat
  | month, [], days => (month, days + 1)
  | month, length :: more, days =>
      if days < length then (month, days + 1) else monthAndDay (month + 1) more (days - length)

/-- The date with a number of days before it: whole cycles of 400, 100, 4 and 1 years are counted
off, where the last cycle of a kind may have a day more than the others. -/
def ofOrdinal (n : Nat) : Date :=
  let n400 := n / 146097
  let r400 := n % 146097
  let n100 := min (r400 / 36524) 3
  let r100 := r400 - n100 * 36524
  let n4 := r100 / 1461
  let r4 := r100 % 1461
  let n1 := min (r4 / 365) 3
  let year := 400 * n400 + 100 * n100 + 4 * n4 + n1 + 1
  let (month, day) := monthAndDay 1 (monthLengths year) (r4 - n1 * 365)
  ⟨year, month, day⟩

def lastYear : Nat := 9999

end Date

/-- How far a local time is ahead of universal time. -/
structure Offset where
  microseconds : Int
deriving DecidableEq

/-- Whole seconds are an offset. -/
instance : Coe Int Offset := ⟨fun seconds => ⟨seconds * 1000000⟩⟩

/-- A date and a time of day, with an offset from universal time or plain. -/
structure Moment where
  date : Date
  hour : Nat
  minute : Nat
  second : Nat
  microsecond : Nat
  offset : Option Offset
deriving DecidableEq

namespace Moment

def microsecondsOfDay : Nat := 86400 * 1000000

/-- The microseconds from the first instant of year 1 in universal time. -/
def instant (m : Moment) : Int :=
  (m.date.ordinal * microsecondsOfDay +
    ((m.hour * 60 + m.minute) * 60 + m.second) * 1000000 + m.microsecond : Nat) -
    (m.offset.map Offset.microseconds).getD 0

def endOfTime : Nat := Date.daysBeforeYear (Date.lastYear + 1) * microsecondsOfDay

/-- A number with at least `width` digits. -/
def padded (width n : Nat) : List Char :=
  let digits := Nat.toDigits 10 n
  List.replicate (width - digits.length) '0' ++ digits

/-- The text `YYYY-MM-DDTHH:MM:SS.mmmZ` of an instant. -/
def write (instant : Nat) : List Char :=
  let date := Date.ofOrdinal (instant / microsecondsOfDay)
  let millisecond := instant % microsecondsOfDay / 1000
  padded 4 date.year ++ '-' :: padded 2 date.month ++ '-' :: padded 2 date.day ++
    'T' :: padded 2 (millisecond / 3600000) ++ ':' :: padded 2 (millisecond / 60000 % 60) ++
    ':' :: padded 2 (millisecond / 1000 % 60) ++ '.' :: padded 3 (millisecond % 1000) ++ ['Z']

/-- The timestamp of a moment; its instant may lie outside the years that have dates. -/
def timestamp (m : Moment) : Except Fault String :=
  if 0 ≤ m.instant ∧ m.instant < endOfTime then .ok (String.ofList (write m.instant.toNat))
  else .error .outOfRange

end Moment

end LiveValue
