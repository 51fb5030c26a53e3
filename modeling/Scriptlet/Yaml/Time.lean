import Scriptlet.Data
import Scriptlet.Yaml.Tag

/-!
# Dates and times of a YAML document

A date must exist in the calendar and a time on the clock; an offset from universal time must be
less than a day.
-/

namespace Scriptlet.Yaml

set_option autoImplicit false

open Scriptlet.Text

/-- What is wrong with a date or time. -/
def badTime (message : String) : Failure :=
  .breakdown (.exception "ValueError" message)

/-- Refuses a date that does not exist. -/
def checkDate (d : Date) : Except Failure Unit :=
  if d.year = 0 then .error (badTime "year 0 is out of range")
  else if d.month < 1 || 12 < d.month then .error (badTime "month must be in 1..12")
  else if d.day < 1 || Date.daysIn d.year d.month < d.day then
    .error (badTime "day is out of range for month")
  else .ok ()

/-- Refuses a time of the day that does not exist. -/
def checkTime (m : Moment) : Except Failure Unit :=
  if 23 < m.hour then .error (badTime "hour must be in 0..23")
  else if 59 < m.minute then .error (badTime "minute must be in 0..59")
  else if 59 < m.second then .error (badTime "second must be in 0..59")
  else .ok ()

/-- A length of time as days and seconds. -/
def durationText (seconds : Int) : String :=
  let days := Int.fdiv seconds 86400
  let rest := Int.fmod seconds 86400
  let parts := (if days = 0 then [] else ["days=" ++ Numeral.ofInt days]) ++
    (if rest = 0 then [] else ["seconds=" ++ Numeral.ofInt rest])
  "datetime.timedelta(" ++ (if parts.isEmpty then "0" else String.intercalate ", " parts) ++ ")"

/-- An offset from universal time, in minutes: refused if it is a day or more. -/
def checkOffset (minutes : Int) : Except Failure Unit :=
  if minutes.natAbs < 1440 then .ok ()
  else .error (badTime ("offset must be a timedelta strictly between " ++
    "-timedelta(hours=24) and timedelta(hours=24), not " ++ durationText (minutes * 60) ++ "."))

/-- The digits at the start of a text, at most `n` of them, as a number, and what follows. -/
def number (n : Nat) (cs : List Char) : Nat × List Char :=
  let digits := (cs.takeWhile Numeral.isDigit).take n
  (Numeral.value digits, cs.drop digits.length)

/-- The offset at the end of a time, in minutes, if there is one. -/
def offset? (cs : List Char) : Option Int :=
  match cs.dropWhile fun c => c == ' ' || c == '\t' with
  | [] => none
  | 'Z' :: _ => some 0
  | sign :: rest =>
    let (hours, rest) := number 2 rest
    let (minutes, _) := number 2 (rest.drop 1)
    let total : Int := hours * 60 + minutes
    some (if sign = '-' then -total else total)

/-- A date that is not followed by a time; months and days may have one digit. -/
def looseDate : Regex :=
  let oneOrTwo : Regex := .all [Plain.digit, .opt Plain.digit]
  .all [Plain.digit, Plain.digit, Plain.digit, Plain.digit, .oneOf "-", oneOrTwo, .oneOf "-",
    oneOrTwo]

/-- The date or time of a scalar.  A newline at its end does not count. -/
def timestamp (scalar : List Char) : Except Failure Foreign :=
  let text := Plain.withoutNewline scalar
  if !(Plain.timestamp.accepts text || looseDate.accepts text) then
    .error (.breakdown (.exception "AttributeError" "'NoneType' object has no attribute 'groupdict'"))
  else
    let (year, rest) := number 4 text
    let (month, rest) := number 2 (rest.drop 1)
    let (day, rest) := number 2 (rest.drop 1)
    let date : Date := ⟨year, month, day⟩
    if rest.isEmpty then do
      checkDate date
      return .date date
    else
      let (hour, rest) := number 2 (rest.dropWhile fun c => !Numeral.isDigit c)
      let (minute, rest) := number 2 (rest.drop 1)
      let (second, rest) := number 2 (rest.drop 1)
      let fraction := if rest.head? == some '.' then (rest.drop 1).takeWhile Numeral.isDigit else []
      let rest := if rest.head? == some '.' then rest.drop (fraction.length + 1) else rest
      let micro := Numeral.value ((fraction ++ List.replicate 6 '0').take 6)
      let moment : Moment := ⟨date, hour, minute, second, micro, offset? rest⟩
      do
        if let some minutes := moment.offset then checkOffset minutes
        checkDate date
        checkTime moment
        return .moment moment

end Scriptlet.Yaml
