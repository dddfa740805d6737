import FiniteAutomata.Text.Basic
import FiniteAutomata.Text.Digit
import FiniteAutomata.Yaml.Node

/-! # Forms of plain scalars

A plain scalar stands for what its form says: nothing, a truth value, an integer in base 2, 8, 10, 16
or 60, a number with a fraction, a date or a time, or else the text itself. Underscores may set off
groups of digits. A single line feed at the end does not count. -/

namespace FiniteAutomata.Yaml

/-- A text without the line feed at its end, if there is one. -/
def dropFinalBreak (s : List Char) : List Char :=
  if s.getLast? = some '\n' then s.dropLast else s

/-! ### Words -/

/-- The words for nothing. -/
def nullWords : List String := ["", "~", "null", "Null", "NULL"]

/-- The words for truth values. -/
def boolWords : List String :=
  ["yes", "Yes", "YES", "no", "No", "NO", "true", "True", "TRUE", "false", "False", "FALSE",
   "on", "On", "ON", "off", "Off", "OFF"]

/-- The words for infinity, without a sign. -/
def infinityWords : List String := [".inf", ".Inf", ".INF"]

/-- The words for what is not a number. -/
def nanWords : List String := [".nan", ".NaN", ".NAN"]

/-! ### Groups of digits -/

/-- Whether a character is a digit of a base. -/
def isDigitOf (base : Nat) (c : Char) : Bool := (Text.hexValue? c).any (· < base)

/-- Whether a character may stand in a group of digits of a base. -/
def isGroupOf (base : Nat) (c : Char) : Bool := c = '_' || isDigitOf base c

/-- Whether a text is a group of digits of a base, or underscores only. -/
def isGroup (base : Nat) (s : List Char) : Bool := ! s.isEmpty && s.all (isGroupOf base)

/-- Whether a text starts with a digit and goes on with digits and underscores. -/
def isDecimalGroup (s : List Char) : Bool :=
  match s with
  | c :: rest => c.isDigit && rest.all (isGroupOf 10)
  | [] => false

/-- A text without its sign. -/
def dropSign (s : List Char) : List Char :=
  match s with
  | '-' :: rest => rest
  | '+' :: rest => rest
  | _ => s

/-- Whether a text is a minute or a second: one digit, or two below sixty. -/
def isSixtieth (s : List Char) : Bool :=
  match s with
  | [a] => a.isDigit
  | [a, b] => isDigitOf 6 a && b.isDigit
  | _ => false

/-- Whether a text is a number in base 60: digits, and minutes or seconds after colons. -/
def isSexagesimal (s : List Char) : Bool :=
  match Text.splitOn ':' s with
  | first :: second :: more => isDecimalGroup first && (second :: more).all isSixtieth
  | _ => false

/-! ### Numbers -/

/-- Whether a text has the form of an integer. -/
def isInt (s : List Char) : Bool :=
  match dropSign s with
  | ['0'] => true
  | '0' :: 'b' :: digits => isGroup 2 digits
  | '0' :: 'x' :: digits => isGroup 16 digits
  | '0' :: digits => isGroup 8 digits
  | body => isDecimalGroup body || isSexagesimal body

/-- Whether a text is an exponent or nothing; an exponent has a sign. -/
def isExponent (s : List Char) : Bool :=
  match s with
  | [] => true
  | e :: sign :: digits =>
    (e = 'e' || e = 'E') && (sign = '+' || sign = '-') && ! digits.isEmpty && digits.all (·.isDigit)
  | _ => false

/-- Whether a text has the form of a number with a point. One without digits before the point has no
sign. -/
def isFloat (s : List Char) : Bool :=
  let body := dropSign s
  let word := String.ofList body
  if word ∈ infinityWords then true
  else if String.ofList s ∈ nanWords then true
  else
    match Text.splitFirst? '.' body with
    | none => false
    | some (whole, rest) =>
      let fraction := rest.takeWhile (isGroupOf 10)
      let exponent := rest.dropWhile (isGroupOf 10)
      if whole.isEmpty then body = s && isDecimalGroup fraction && isExponent exponent
      else (isDecimalGroup whole && isExponent exponent) || (isSexagesimal whole && exponent.isEmpty)

/-! ### Dates and times -/

/-- The parts of a date or a time as they are written. -/
structure TimeText where
  year : List Char
  month : List Char
  day : List Char
  clock : Option (List Char × List Char × List Char) := none
  fraction : List Char := []
  isUniversal : Bool := false
  offset : Option (Bool × List Char × List Char) := none
deriving DecidableEq, Repr

/-- The digits at the front, at least `low` and at most `high` of them, and what follows. -/
def takeDigits? (low high : Nat) (s : List Char) : Option (List Char × List Char) :=
  let digits := (s.take high).takeWhile (·.isDigit)
  if low ≤ digits.length then some (digits, s.drop digits.length) else none

/-- What follows a character at the front. -/
def after? (c : Char) (s : List Char) : Option (List Char) :=
  match s with
  | d :: rest => if d = c then some rest else none
  | [] => none

/-- Whether a character is a space or a tab. -/
def isTimeBlank (c : Char) : Bool := c = ' ' || c = '\t'

/-- The difference from universal time that ends a time: its sign, hours and minutes. -/
def offsetOf? (sign : Char) (s : List Char) : Option (Bool × List Char × List Char) := do
  let (hours, s) ← takeDigits? 1 2 s
  if s.isEmpty then return (sign = '-', hours, [])
  let (minutes, s) ← takeDigits? 2 2 (← after? ':' s)
  if s.isEmpty then return (sign = '-', hours, minutes) else none

/-- The zone that ends a time, if there is one. -/
def zoneOf? (t : TimeText) (s : List Char) : Option TimeText :=
  if s.isEmpty then some t
  else
    match s.dropWhile isTimeBlank with
    | ['Z'] => some { t with isUniversal := true }
    | c :: rest =>
      if c = '+' || c = '-' then (offsetOf? c rest).map fun offset => { t with offset := some offset }
      else none
    | [] => none

/-- The time of a day with its zone, after a date and a mark. -/
def clockOf? (t : TimeText) (s : List Char) : Option TimeText := do
  let (hour, s) ← takeDigits? 1 2 s
  let (minute, s) ← takeDigits? 2 2 (← after? ':' s)
  let (second, s) ← takeDigits? 2 2 (← after? ':' s)
  let t := { t with clock := some (hour, minute, second) }
  match s with
  | '.' :: s =>
    zoneOf? { t with fraction := s.takeWhile (·.isDigit) } (s.dropWhile (·.isDigit))
  | _ => zoneOf? t s

/-- The parts of a date or of a date with a time. -/
def timeOf? (s : List Char) : Option TimeText := do
  let (year, s) ← takeDigits? 4 4 (dropFinalBreak s)
  let (month, s) ← takeDigits? 1 2 (← after? '-' s)
  let (day, s) ← takeDigits? 1 2 (← after? '-' s)
  let t : TimeText := { year, month, day }
  match s with
  | [] => some t
  | c :: rest =>
    if c = 'T' || c = 't' then clockOf? t rest
    else if isTimeBlank c then clockOf? t (rest.dropWhile isTimeBlank)
    else none

/-- Whether a text has the form of a date or a time; alone a date has two digits for month and
day. -/
def isTimestamp (s : List Char) : Bool :=
  match timeOf? s with
  | some t => t.clock.isSome || (t.month.length = 2 && t.day.length = 2)
  | none => false

/-! ### Kinds -/

/-- The kind of value that a plain scalar stands for. -/
def kindOf (text : String) : Kind :=
  let s := dropFinalBreak text.toList
  let word := String.ofList s
  if word ∈ nullWords && (text.isEmpty || ! word.isEmpty) then .null
  else if word ∈ boolWords then .bool
  else if isFloat s then .float
  else if isInt s then .int
  else if word = "<<" then .merge
  else if isTimestamp s then .timestamp
  else if word = "=" then .default
  else if word = "!" || word = "&" || word = "*" then .unknown
  else .text

end FiniteAutomata.Yaml
