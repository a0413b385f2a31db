namespace RowFilter

/-- Whether a year has a 29th of February. -/
def isLeapYear (year : Int) : Bool :=
  year % 4 = 0 && (year % 100 ≠ 0 || year % 400 = 0)

/-- The number of days of a month. -/
def daysInMonth (year : Int) (month : Nat) : Nat :=
  if month = 2 then if isLeapYear year then 29 else 28
  else if month ∈ [4, 6, 9, 11] then 30
  else 31

/-- Whether a date exists, within the years that are kept. -/
def dateExists (year : Int) (month day : Nat) : Bool :=
  -262143 ≤ year && year ≤ 262142 && 1 ≤ month && month ≤ 12 && 1 ≤ day
    && day ≤ daysInMonth year month

/-- A date of the Gregorian calendar, extended to all years. -/
structure Date where
  year : Int
  month : Nat
  day : Nat
  valid : dateExists year month day = true
deriving DecidableEq, Repr

/-- Whether a time of day exists. -/
def timeExists (hour minute second nanos : Nat) : Bool :=
  hour < 24 && minute < 60 && second < 60
    && (nanos < Nat.pow 10 9 || second = 59 && nanos < 2 * Nat.pow 10 9)

/-- A time without a zone. A leap second is the second 59 with a full second of nanoseconds
added. -/
structure TimeOfDay where
  hour : Nat
  minute : Nat
  second : Nat
  nanos : Nat
  valid : timeExists hour minute second nanos = true
deriving DecidableEq, Repr

structure DateTime where
  date : Date
  time : TimeOfDay
deriving DecidableEq, Repr

namespace Date

def make? (year : Int) (month day : Nat) : Option Date :=
  if h : dateExists year month day = true then some ⟨year, month, day, h⟩ else none

/-- The day after. -/
def next? (d : Date) : Option Date :=
  (make? d.year d.month (d.day + 1)).or
    ((make? d.year (d.month + 1) 1).or (make? (d.year + 1) 1 1))

/-- The day before. -/
def previous? (d : Date) : Option Date :=
  (make? d.year d.month (d.day - 1)).or
    ((make? d.year (d.month - 1) (daysInMonth d.year (d.month - 1))).or
      (make? (d.year - 1) 12 31))

/-- Dates are ordered by year, month and day. -/
def key (d : Date) : List Int :=
  [d.year, d.month, d.day]

end Date

namespace TimeOfDay

def make? (hour minute second nanos : Nat) : Option TimeOfDay :=
  if h : timeExists hour minute second nanos = true then some ⟨hour, minute, second, nanos, h⟩
  else none

def midnight : TimeOfDay := ⟨0, 0, 0, 0, by decide⟩

/-- Times are ordered by hour, minute, second and nanoseconds. -/
def key (t : TimeOfDay) : List Int :=
  [t.hour, t.minute, t.second, t.nanos]

end TimeOfDay

namespace DateTime

def key (d : DateTime) : List Int :=
  d.date.key ++ d.time.key

/-- The time at the zero meridian for a clock that is `minutes` ahead of it. -/
def toUniversal? (d : DateTime) (minutes : Int) : Option DateTime := do
  let total := (d.time.hour * 60 + d.time.minute : Nat) - minutes
  let date ← if total < 0 then d.date.previous? else if total < 1440 then some d.date
    else d.date.next?
  let minute := (total % 1440).toNat
  let time ← TimeOfDay.make? (minute / 60) (minute % 60) d.time.second d.time.nanos
  return ⟨date, time⟩

end DateTime

end RowFilter
