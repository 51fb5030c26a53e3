import Scriptlet.Numeral

/-!
# Dates and points in time

Days of the calendar and times of the day, with or without an offset from universal time.  Two
points in time with offsets are the same if they are the same moment, whatever their offsets; one
without an offset is only the same as another without.
-/

namespace Scriptlet

set_option autoImplicit false

/-- A day of the calendar. -/
structure Date where
  year : Nat
  month : Nat
  day : Nat
deriving DecidableEq, Repr

namespace Date

/-- Whether a year has a leap day. -/
def isLeap (year : Nat) : Bool :=
  year % 4 = 0 && (year % 100 ≠ 0 || year % 400 = 0)

/-- The number of days of a month. -/
def daysIn (year month : Nat) : Nat :=
  if month = 2 then (if isLeap year then 29 else 28)
  else if month = 4 || month = 6 || month = 9 || month = 11 then 30
  else 31

/-- The number of days since the start of year one. -/
def ordinal (d : Date) : Nat :=
  let years := d.year - 1
  let months := (List.range (d.month - 1)).foldl (fun n m => n + daysIn d.year (m + 1)) 0
  years * 365 + years / 4 - years / 100 + years / 400 + months + d.day

/-- A day as text: year, month and day. -/
def text (d : Date) : String :=
  Numeral.padded 4 d.year ++ "-" ++ Numeral.padded 2 d.month ++ "-" ++ Numeral.padded 2 d.day

end Date

/-- A point in time: a time of a day, and how many minutes it is ahead of universal time, if that
is known. -/
structure Moment where
  date : Date
  hour : Nat
  minute : Nat
  second : Nat
  micro : Nat
  offset : Option Int
deriving DecidableEq, Repr

namespace Moment

/-- The microseconds since the start of year one on the clock of the moment. -/
def clock (m : Moment) : Int :=
  (((m.date.ordinal * 24 + m.hour) * 60 + m.minute) * 60 + m.second : Nat) * 1000000 + m.micro

/-- Whether two points in time are the same. -/
def same (a b : Moment) : Bool :=
  match a.offset, b.offset with
  | some m, some n => a.clock - m * 60000000 == b.clock - n * 60000000
  | none, none => a.clock == b.clock
  | _, _ => false

/-- An offset as text. -/
def offsetText (minutes : Int) : String :=
  (if minutes < 0 then "-" else "+") ++ Numeral.padded 2 (minutes.natAbs / 60) ++ ":" ++
    Numeral.padded 2 (minutes.natAbs % 60)

/-- A point in time as text. -/
def text (m : Moment) : String :=
  m.date.text ++ " " ++ Numeral.padded 2 m.hour ++ ":" ++ Numeral.padded 2 m.minute ++ ":" ++
    Numeral.padded 2 m.second ++
    (if m.micro = 0 then "" else "." ++ Numeral.padded 6 m.micro) ++
    ((m.offset.map offsetText).getD "")

end Moment

end Scriptlet
