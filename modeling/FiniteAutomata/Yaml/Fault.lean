import FiniteAutomata.Decimal.Numeral
import FiniteAutomata.Text.Quoted

/-! # What can be wrong with a settings file

A settings file that breaks the rules of the format is malformed, and it does not matter how. Apart
from that, a scalar may have the form of a value without being one: a number without digits, a date
that no calendar has, a code point beyond the last one. And the reader has limits: what lies too deep
in something else is not followed, nor are escapes that stand for half a character. -/

namespace FiniteAutomata.Yaml

/-- A length of time in minutes as days and seconds; the seconds are never negative. -/
def spanText (minutes : Int) : String :=
  let days := minutes / 1440
  let seconds := minutes % 1440 * 60
  let parts := (if days = 0 then [] else [s!"days={days}"]) ++
    (if seconds = 0 then [] else [s!"seconds={seconds}"])
  "datetime.timedelta(" ++ (if parts.isEmpty then "0" else String.intercalate ", " parts) ++ ")"

/-- Why a date or a time is none. -/
inductive TimeFault where
  | year (n : Nat)
  | month
  | day
  | hour
  | minute
  | second
  | offset (minutes : Int)
deriving DecidableEq, Repr

/-- The text of the report on a date or a time. -/
def TimeFault.message : TimeFault → String
  | .year n => s!"year {n} is out of range"
  | .month => "month must be in 1..12"
  | .day => "day is out of range for month"
  | .hour => "hour must be in 0..23"
  | .minute => "minute must be in 0..59"
  | .second => "second must be in 0..59"
  | .offset minutes =>
    "offset must be a timedelta strictly between -timedelta(hours=24) and timedelta(hours=24), not " ++
      spanText minutes ++ "."

/-- Why a settings file gives no value. -/
inductive Fault where
  | malformed
  | noInteger (base : Nat) (text : String)
  | oversizedInteger (digits : Nat)
  | unwritableInteger
  | noNumber (text : String)
  | oversizedNumber
  | noDigits
  | noTruthValue (word : String)
  | noTime (e : TimeFault)
  | noTimeForm
  | listForTime
  | codePoint
  | oversizedCodePoint
  | halfPair
  | tooDeep
deriving DecidableEq, Repr

/-- The text of the report on a fault; there is none on how a file is malformed. -/
def Fault.message : Fault → String
  | .malformed => ""
  | .noInteger base text =>
    s!"invalid literal for int() with base {base}: " ++
      String.ofList ((Text.quote text).toList.take 200)
  | .oversizedInteger digits => Decimal.oversizedMessage digits
  | .unwritableInteger => Decimal.unwritableMessage
  | .noNumber text => "could not convert string to float: " ++ Text.quote text
  | .oversizedNumber => "int too large to convert to float"
  | .noDigits => "string index out of range"
  | .noTruthValue word => Text.quote word
  | .noTime e => e.message
  | .noTimeForm => "'NoneType' object has no attribute 'groupdict'"
  | .listForTime => "expected string or bytes-like object, got 'list'"
  | .codePoint => "chr() arg not in range(0x110000)"
  | .oversizedCodePoint => "Python int too large to convert to C int"
  | .halfPair => "surrogates not allowed"
  | .tooDeep => "maximum recursion depth exceeded"

end FiniteAutomata.Yaml
