import RowFilter.Calendar
import RowFilter.Text.Blank

namespace RowFilter

namespace Calendar

/-- The number of at most `width` digits at the start of a text, and what follows. -/
def takeNumber (width : Nat) (text : List Char) : Option (Nat × List Char) :=
  let digits := (text.take width).takeWhile Char.isDigit
  if digits.isEmpty then none
  else some (Nat.ofDigitChars 10 digits 0, text.drop digits.length)

/-- The number of exactly `width` digits at the start of a text. -/
def takeFixed (width : Nat) (text : List Char) : Option (Nat × List Char) :=
  if (text.takeWhile Char.isDigit).length < width then none else takeNumber width text

/-- A number of at most two digits, blanks before it skipped. -/
def takeTwo (text : List Char) : Option (Nat × List Char) :=
  takeNumber 2 (dropBlanks text)

/-- A year: four digits, or any number of them behind a sign. -/
def takeYear (text : List Char) : Option (Int × List Char) :=
  match dropBlanks text with
  | '-' :: cs => (takeNumber cs.length cs).map fun (n, rest) => (-(n : Int), rest)
  | '+' :: cs => (takeNumber cs.length cs).map fun (n, rest) => ((n : Int), rest)
  | cs => (takeNumber 4 cs).map fun (n, rest) => ((n : Int), rest)

/-- Skips one given character. -/
def skip (c : Char) : List Char → Option (List Char)
  | [] => none
  | d :: rest => if d = c then some rest else none

/-- The nanoseconds that a fraction of a second stands for. Digits behind the ninth are ignored. -/
def takeNanos (text : List Char) : Option (Nat × List Char) :=
  let digits := text.takeWhile Char.isDigit
  if digits.isEmpty then none
  else
    let read := digits.take 9
    some (Nat.ofDigitChars 10 read 0 * Nat.pow 10 (9 - read.length), text.drop digits.length)

/-- An optional point with the fraction behind it. -/
def takeFraction : List Char → Option (Nat × List Char)
  | '.' :: cs => takeNanos cs
  | cs => some (0, cs)

/-- A time of day in which the second may be 60, for a leap second. -/
def clock? (hour minute second nanos : Nat) : Option TimeOfDay :=
  if second = 60 then TimeOfDay.make? hour minute 59 (Nat.pow 10 9 + nanos)
  else TimeOfDay.make? hour minute second nanos

/-- The end of a text. -/
def finish {α : Type} : α × List Char → Option α
  | (a, []) => some a
  | _ => none

/-- A date, as in `2022-10-10`. -/
def takeDate (text : List Char) : Option (Date × List Char) := do
  let (year, rest) ← takeYear text
  let (month, rest) ← takeTwo (← skip '-' rest)
  let (day, rest) ← takeTwo (← skip '-' rest)
  return (← Date.make? year month day, rest)

/-- Hour and minute, as in `23:12`. -/
def takeHourMinute (text : List Char) : Option ((Nat × Nat) × List Char) := do
  let (hour, rest) ← takeTwo text
  let (minute, rest) ← takeTwo (← skip ':' rest)
  return ((hour, minute), rest)

/-- A time of day with seconds, as in `23:12:05.5`. -/
def takeTime (text : List Char) : Option (TimeOfDay × List Char) := do
  let ((hour, minute), rest) ← takeHourMinute text
  let (second, rest) ← takeTwo (← skip ':' rest)
  let (nanos, rest) ← takeFraction rest
  return (← clock? hour minute second nanos, rest)

/-- A time of day without seconds. -/
def takeShortTime (text : List Char) : Option (TimeOfDay × List Char) := do
  let ((hour, minute), rest) ← takeHourMinute text
  return (← TimeOfDay.make? hour minute 0 0, rest)

/-- The half of the day, in any case: the hours to add. -/
def takeHalf : List Char → Option (Nat × List Char)
  | c :: d :: rest =>
    if d.toLower ≠ 'm' then none
    else if c.toLower = 'a' then some (0, rest)
    else if c.toLower = 'p' then some (12, rest)
    else none
  | _ => none

/-- An hour from 1 to 12 in one half of the day. -/
def twelveHour? (hour minute second half : Nat) : Option TimeOfDay :=
  if 1 ≤ hour ∧ hour ≤ 12 then clock? (hour % 12 + half) minute second 0 else none

/-- A time in the first or the second half of the day, as in `11:12 pm`. -/
def takeHalfTime (text : List Char) : Option (TimeOfDay × List Char) := do
  let ((hour, minute), rest) ← takeHourMinute text
  let (half, rest) ← takeHalf (dropBlanks rest)
  return (← twelveHour? hour minute 0 half, rest)

/-- The same with seconds and without a blank before the half, as in `11:12:05pm`. -/
def takeHalfTimeSeconds (text : List Char) : Option (TimeOfDay × List Char) := do
  let ((hour, minute), rest) ← takeHourMinute text
  let (second, rest) ← takeTwo (← skip ':' rest)
  let (half, rest) ← takeHalf rest
  return (← twelveHour? hour minute second half, rest)

/-- A date and a time with something between them. -/
def takeDateTime (between : List Char → Option (List Char))
    (time : List Char → Option (TimeOfDay × List Char)) (text : List Char) :
    Option (DateTime × List Char) := do
  let (date, rest) ← takeDate text
  let (time, rest) ← time (← between rest)
  return (⟨date, time⟩, rest)

/-- A zone's distance from the zero meridian in minutes. -/
def takeZone : List Char → Option (Int × List Char)
  | [] => none
  | c :: cs =>
    if c = 'Z' ∨ c = 'z' then some (0, cs)
    else do
      let sign ← if c = '+' then some 1 else if c = '-' ∨ c = '\u2212' then some (-1) else none
      let (hour, rest) ← takeFixed 2 cs
      let (minute, rest) ← takeFixed 2 (← skip ':' rest)
      if hour < 24 ∧ minute < 60 then some (sign * (hour * 60 + minute : Nat), rest) else none

/-- A point in time by RFC 3339, at the zero meridian. -/
def takeZoned (text : List Char) : Option (DateTime × List Char) := do
  let (year, rest) ← takeFixed 4 text
  let (month, rest) ← takeFixed 2 (← skip '-' rest)
  let (day, rest) ← takeFixed 2 (← skip '-' rest)
  let rest ← match rest with
    | c :: cs => if c = 'T' ∨ c = 't' ∨ c = ' ' then some cs else none
    | [] => none
  let (hour, rest) ← takeFixed 2 rest
  let (minute, rest) ← takeFixed 2 (← skip ':' rest)
  let (second, rest) ← takeFixed 2 (← skip ':' rest)
  let (nanos, rest) ← takeFraction rest
  let (zone, rest) ← takeZone rest
  let date ← Date.make? year month day
  let time ← clock? hour minute second nanos
  return (← DateTime.toUniversal? ⟨date, time⟩ zone, rest)

end Calendar

open Calendar

/-- Reads a date. -/
def Date.read? (text : List Char) : Option Date :=
  (takeDate text).bind finish

/-- Reads a time of day. -/
def TimeOfDay.read? (text : List Char) : Option TimeOfDay :=
  [takeTime, takeShortTime, takeHalfTime, takeHalfTimeSeconds].findSome? fun take =>
    (take text).bind finish

/-- Reads a point in time: with a zone, without one, or a date for its midnight. -/
def DateTime.read? (text : List Char) : Option DateTime :=
  [takeZoned, takeDateTime (skip 'T') takeTime, takeDateTime (some ∘ dropBlanks) takeTime,
    takeDateTime (skip 'T') takeShortTime].findSome? (fun take => (take text).bind finish)
  |>.or ((Date.read? text).map (⟨·, .midnight⟩))

end RowFilter
