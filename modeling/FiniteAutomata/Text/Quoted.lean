import FiniteAutomata.Text.Printable

/-! # Quoted texts

A text inside a message stands between quotes: single ones, or double ones if the text holds a
single quote and no double one. The quote, the backslash and whatever is not printable are
escaped. -/

namespace FiniteAutomata.Text

/-- The character that quotes a text: single unless only single quotes occur in it. -/
def quoteFor (s : List Char) : Char :=
  if s.contains '\x27' && ! s.contains '\x22' then '\x22' else '\x27'

/-- A number in hexadecimal with at least `width` lower-case digits. -/
def hex (width n : Nat) : List Char :=
  let digits := Nat.toDigits 16 n
  List.replicate (width - digits.length) '0' ++ digits

/-- How a character is written between the given quotes. -/
def escapeIn (quote c : Char) : List Char :=
  if c = quote || c = '\\' then ['\\', c]
  else if c = '\n' then ['\\', 'n']
  else if c = '\r' then ['\\', 'r']
  else if c = '\t' then ['\\', 't']
  else if isPrintable c then [c]
  else if c.toNat < 0x100 then '\\' :: 'x' :: hex 2 c.toNat
  else if c.toNat < 0x10000 then '\\' :: 'u' :: hex 4 c.toNat
  else '\\' :: 'U' :: hex 8 c.toNat

/-- The text between quotes. -/
def quote (s : String) : String :=
  let q := quoteFor s.toList
  String.ofList (q :: s.toList.flatMap (escapeIn q) ++ [q])

/-- Quoted texts in brackets, separated by commas. -/
def quoteList (items : List String) : String :=
  "[" ++ String.intercalate ", " (items.map quote) ++ "]"

end FiniteAutomata.Text
