import FiniteAutomata.Yaml.Fault
import FiniteAutomata.Yaml.Form

/-! # Dates and times

A date or a time is taken from its parts if a calendar has it. One with a zone stands for an instant,
and two of them are the same if the instants are. -/

namespace FiniteAutomata.Yaml

/-- A date. -/
structure Date where
  year : Nat
  month : Nat
  day : Nat
deriving DecidableEq, Repr

/-- The time of a day in microseconds precision. -/
structure Clock where
  hour : Nat
  minute : Nat
  second : Nat
  micros : Nat
deriving DecidableEq, Repr

/-- A date with a time and, if it is known, the difference from universal time in minutes. -/
structure Moment where
  date : Date
  clock : Clock
  offset : Option Int
deriving DecidableEq, Repr

/-- Whether a year has a day more. -/
def isLeapYear (year : Nat) : Bool := year % 4 = 0 && (year % 100 ≠ 0 || year % 400 = 0)

/-- The number of days of a month. -/
def daysOfMonth (year month : Nat) : Nat :=
  if month = 2 then (if isLeapYear year then 29 else 28)
  else if month = 4 || month = 6 || month = 9 || month = 11 then 30
  else 31

/-- The date with a year, a month and a day. -/
def Date.make (year month day : Nat) : Except TimeFault Date :=
  if year < 1 || 9999 < year then .error (.year year)
  else if month < 1 || 12 < month then .error .month
  else if day < 1 || daysOfMonth year month < day then .error .day
  else .ok ⟨year, month, day⟩

/-- The time with an hour, a minute and a second. -/
def Clock.make (hour minute second micros : Nat) : Except TimeFault Clock :=
  if 24 ≤ hour then .error .hour
  else if 60 ≤ minute then .error .minute
  else if 60 ≤ second then .error .second
  else .ok ⟨hour, minute, second, micros⟩

/-- The number that digits spell. -/
def digitsNumber (s : List Char) : Nat := Text.digitsValue s

/-- The microseconds that a fraction of a second stands for. -/
def microsOf (fraction : List Char) : Nat :=
  let digits := fraction.take 6
  digitsNumber digits * Nat.pow 10 (6 - digits.length)

/-- The difference from universal time that a text gives; it is less than a day. -/
def TimeText.offsetMinutes (t : TimeText) : Except TimeFault (Option Int) :=
  match t.offset with
  | none => .ok (if t.isUniversal then some 0 else none)
  | some (negative, hours, minutes) =>
    let n : Int := 60 * digitsNumber hours + digitsNumber minutes
    let n := if negative then -n else n
    if 1440 ≤ n.natAbs then .error (.offset n) else .ok (some n)

/-- The date of a text. -/
def TimeText.date (t : TimeText) : Except TimeFault Date :=
  Date.make (digitsNumber t.year) (digitsNumber t.month) (digitsNumber t.day)

/-- A number with at least some digits. -/
def padded (width n : Nat) : String :=
  let digits := Nat.toDigits 10 n
  String.ofList (List.replicate (width - digits.length) '0' ++ digits)

/-- A date as text. -/
def Date.text (d : Date) : String :=
  padded 4 d.year ++ "-" ++ padded 2 d.month ++ "-" ++ padded 2 d.day

/-- A time of a day as text. -/
def Clock.text (c : Clock) : String :=
  padded 2 c.hour ++ ":" ++ padded 2 c.minute ++ ":" ++ padded 2 c.second ++
    (if c.micros = 0 then "" else "." ++ padded 6 c.micros)

/-- A difference from universal time as text. -/
def offsetText (minutes : Int) : String :=
  (if minutes < 0 then "-" else "+") ++ padded 2 (minutes.natAbs / 60) ++ ":" ++
    padded 2 (minutes.natAbs % 60)

/-- A date with a time as text. -/
def Moment.text (m : Moment) : String :=
  m.date.text ++ " " ++ m.clock.text ++ ((m.offset.map offsetText).getD "")

/-- The number of days from the first of March of year zero to a date. -/
def Date.ordinal (d : Date) : Int :=
  let year : Int := if d.month < 3 then (d.year : Int) - 1 else d.year
  let month : Int := if d.month < 3 then d.month + 9 else d.month - 3
  365 * year + year / 4 - year / 100 + year / 400 + (153 * month + 2) / 5 + d.day

/-- The instant of a moment in microseconds, as if its zone were universal time if it has none. -/
def Moment.instant (m : Moment) : Int :=
  let minutes : Int := (m.date.ordinal * 24 + m.clock.hour) * 60 + m.clock.minute - m.offset.getD 0
  (minutes * 60 + m.clock.second) * 1000000 + m.clock.micros

/-- Whether two moments are the same: both have a zone or none has. -/
def Moment.isSame (a b : Moment) : Bool :=
  a.offset.isSome = b.offset.isSome && a.instant = b.instant

end FiniteAutomata.Yaml
