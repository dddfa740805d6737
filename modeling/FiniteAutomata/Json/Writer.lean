import FiniteAutomata.Datum
import FiniteAutomata.Decimal.Numeral
import FiniteAutomata.Text.Quoted

/-! # Writing JSON

A value is written on one line, with a space after each comma and colon, or over several lines with
each level indented. Texts keep every character that need not be escaped; numbers that are not
integers are written as the shortest decimal that reads back. -/

namespace FiniteAutomata.Json

/-- How a character is written inside a text. -/
def writeChar (c : Char) : List Char :=
  if c = '"' then ['\\', '"']
  else if c = '\\' then ['\\', '\\']
  else if c = '\n' then ['\\', 'n']
  else if c = '\r' then ['\\', 'r']
  else if c = '\t' then ['\\', 't']
  else if c = '\x0c' then ['\\', 'f']
  else if c = '\x08' then ['\\', 'b']
  else if c.toNat < 0x20 then '\\' :: 'u' :: Text.hex 4 c.toNat
  else [c]

/-- A text between quotes. -/
def writeText (s : String) : String :=
  String.ofList ('"' :: s.toList.flatMap writeChar ++ ['"'])

/-- A number that is not an integer. -/
def writeFloat (x : Float) : String :=
  if x.isNaN then "NaN"
  else if x.isInf then (if x < 0 then "-Infinity" else "Infinity")
  else Decimal.write x

/-- A value without parts. -/
def writeScalar : Datum → String
  | .bool true => "true"
  | .bool false => "false"
  | .int n => toString n
  | .float x => writeFloat x
  | .text s => writeText s
  | _ => "null"

/-- Parts between brackets, on one line, or each on a line of its own at the given depth. -/
def enclose (indent : Option Nat) (depth : Nat) (opening closing : String) (parts : List String) :
    String :=
  if parts.isEmpty then opening ++ closing
  else
    match indent with
    | none => opening ++ String.intercalate ", " parts ++ closing
    | some width =>
      let margin (n : Nat) := "\n" ++ String.ofList (List.replicate (width * n) ' ')
      opening ++ margin (depth + 1) ++
        String.intercalate ("," ++ margin (depth + 1)) parts ++ margin depth ++ closing

mutual

/-- A value at a depth. -/
def writeAt (indent : Option Nat) (depth : Nat) : Datum → String
  | .list items => enclose indent depth "[" "]" (writeItems indent (depth + 1) items)
  | .object fields => enclose indent depth "\x7b" "\x7d" (writeFields indent (depth + 1) fields)
  | value => writeScalar value

/-- The items of a list at a depth. -/
def writeItems (indent : Option Nat) (depth : Nat) : List Datum → List String
  | [] => []
  | item :: rest => writeAt indent depth item :: writeItems indent depth rest

/-- The fields of an object at a depth. -/
def writeFields (indent : Option Nat) (depth : Nat) : List (String × Datum) → List String
  | [] => []
  | (name, value) :: rest =>
    (writeText name ++ ": " ++ writeAt indent depth value) :: writeFields indent depth rest

end

/-- A value on one line. -/
def write (value : Datum) : String := writeAt none 0 value

/-- A value over several lines, each level indented by four. -/
def writeIndented (value : Datum) : String := writeAt (some 4) 0 value

end FiniteAutomata.Json
