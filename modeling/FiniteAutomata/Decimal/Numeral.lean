import FiniteAutomata.Decimal.Shortest
import FiniteAutomata.Text.Basic
import FiniteAutomata.Text.Digit

/-! # Numerals

How a number is written and read as text. Writing takes the shortest decimal that reads back and
sets it positionally from `1e-4` up to below `1e16`, always with a fraction; outside that range it
has one digit before the point and an exponent of at least two digits. Reading takes digits of any
script with an optional fraction and exponent, and rounds to the nearest number. -/

namespace FiniteAutomata.Decimal

/-! ### Writing -/

/-- Where positional writing ends: it is used while the point stands after more than `lowest` and at
most `highest` digits. -/
structure PositionalRange where
  lowest : Int
  highest : Int

/-- Positional from `1e-4` to below `1e16`. -/
def positionalRange : PositionalRange := ⟨-4, 16⟩

/-- The digits of a decimal with the point after `point` of them. -/
def writePositional (digits : List Char) (point : Int) : List Char :=
  if point ≤ 0 then '0' :: '.' :: List.replicate (-point).toNat '0' ++ digits
  else
    let whole := digits.take point.toNat
    let fraction := digits.drop point.toNat
    whole ++ List.replicate (point.toNat - digits.length) '0' ++ '.' ::
      (if fraction.isEmpty then ['0'] else fraction)

/-- An exponent with its sign and at least two digits. -/
def writeExponent (e : Int) : List Char :=
  let digits := Nat.toDigits 10 e.natAbs
  'e' :: (if e < 0 then '-' else '+') :: List.replicate (2 - digits.length) '0' ++ digits

/-- The digits of a decimal with the point after the first one and an exponent. -/
def writeScientific (digits : List Char) (point : Int) : List Char :=
  digits.take 1 ++ (if digits.length ≤ 1 then [] else '.' :: digits.drop 1) ++
    writeExponent (point - 1)

/-- A decimal as text. -/
def Scaled.write (d : Scaled) : List Char :=
  let digits := Nat.toDigits 10 d.digits
  let point := digits.length + d.exponent
  if positionalRange.lowest < point && point ≤ positionalRange.highest then
    writePositional digits point
  else writeScientific digits point

/-- A number as text: the shortest decimal that reads back, with its sign. -/
def write (x : Float) : String :=
  if x.isNaN then "nan"
  else
    let sign := if isNegative x then "-" else ""
    if x.isInf then sign ++ "inf"
    else sign ++ String.ofList (Magnitude.ofFloat x).shortest.write

/-- A number as text, without a fraction if it is integral. -/
def writeCompact (x : Float) : String :=
  if x.isNaN || x.isInf then write x
  else
    match (Magnitude.ofFloat x).toNat? with
    | some n => (if isNegative x && n != 0 then "-" else "") ++ toString n
    | none => write x

/-! ### Reading -/

/-- A numeral: digits before and after the point and a power of ten. -/
structure Numeral where
  whole : List Char
  fraction : List Char
  exponent : Int
deriving DecidableEq, Repr

/-- The number nearest to `digits * 10 ^ exponent`. -/
def nearest (digits : Nat) (exponent : Int) : Float :=
  Float.ofScientific digits (exponent < 0) exponent.natAbs

/-- The number nearest to a numeral. -/
def Numeral.toFloat (n : Numeral) : Float :=
  nearest (Text.digitsValue (n.whole ++ n.fraction)) (n.exponent - n.fraction.length)

/-- The exponent at the front of a text, if it starts with one, and the text after it. -/
def takeExponent (s : List Char) : Int × List Char :=
  match s with
  | 'e' :: rest | 'E' :: rest =>
    let (negative, body) :=
      match rest with
      | '-' :: body => (true, body)
      | '+' :: body => (false, body)
      | body => (false, body)
    let digits := body.takeWhile Text.isDigit
    if digits.isEmpty then (0, s)
    else
      let value := Int.ofNat (Text.digitsValue digits)
      (if negative then -value else value, body.dropWhile Text.isDigit)
  | _ => (0, s)

/-- The longest unsigned numeral at the front of a text and the text after it: digits with an
optional point and more digits, or a point and digits; then an optional exponent. -/
def takeNumeral? (s : List Char) : Option (Numeral × List Char) :=
  let whole := s.takeWhile Text.isDigit
  match s.dropWhile Text.isDigit with
  | '.' :: body =>
    let fraction := body.takeWhile Text.isDigit
    if whole.isEmpty && fraction.isEmpty then none
    else
      let (exponent, rest) := takeExponent (body.dropWhile Text.isDigit)
      some (⟨whole, fraction, exponent⟩, rest)
  | body =>
    if whole.isEmpty then none
    else
      let (exponent, rest) := takeExponent body
      some (⟨whole, [], exponent⟩, rest)

/-- A sign at the front, whether it is a minus, and the text after it. -/
def takeSign (s : List Char) : Bool × List Char :=
  match s with
  | '-' :: body => (true, body)
  | '+' :: body => (false, body)
  | body => (false, body)

/-- Reads a whole text as a number with an optional sign. -/
def read? (s : List Char) : Option Float :=
  let (negative, body) := takeSign s
  match takeNumeral? body with
  | some (n, []) => some (if negative then -n.toFloat else n.toFloat)
  | _ => none

/-- A text without its underscores, each of which has to stand between two digits; `inDigits` says
whether a digit comes just before it. -/
def ungroupFrom? (inDigits : Bool) : List Char → Option (List Char)
  | [] => some []
  | '_' :: c :: rest =>
    if inDigits && Text.isDigit c then (ungroupFrom? true rest).map (c :: ·) else none
  | c :: rest => if c = '_' then none else (ungroupFrom? (Text.isDigit c) rest).map (c :: ·)

/-- A text without its underscores, each of which has to stand between two digits. -/
def ungroup? (s : List Char) : Option (List Char) := ungroupFrom? false s

/-- The words for numbers that have no numeral, in lower-case letters and without a sign. -/
def wordValue? (word : String) : Option Float :=
  if word = "inf" || word = "infinity" then some (1 / 0)
  else if word = "nan" then some (0 / 0)
  else none

/-- Reads a text as a number: blanks may stand around it and underscores between its digits, and it
may be a word. -/
def readLoosely? (s : List Char) : Option Float :=
  match ungroup? (Text.trim s) with
  | none => none
  | some body =>
    let (negative, word) := takeSign body
    match wordValue? (String.ofList word).toLower with
    | some x => some (if negative then -x else x)
    | none => read? body

/-- The most digits that an integer may have. -/
def maxDigits : Nat := 4300

/-- Why a text is no integer: it is no numeral, or one with too many digits. -/
inductive IntFault where
  | unreadable
  | oversized (digits : Nat)
deriving DecidableEq, Repr

/-- The text of the report on an integer with too many digits to be read. -/
def oversizedMessage (digits : Nat) : String :=
  s!"Exceeds the limit ({maxDigits} digits) for integer string conversion: value has {digits} digits; " ++
    "use sys.set_int_max_str_digits() to increase the limit"

/-- The text of the report on an integer with too many digits to be written. -/
def unwritableMessage : String :=
  s!"Exceeds the limit ({maxDigits} digits) for integer string conversion; " ++
    "use sys.set_int_max_str_digits() to increase the limit"

/-- Reads a text as an integer: blanks may stand around it, a sign before it, and underscores
between its digits. Too many digits are reported before anything that follows them. -/
def readInt (s : List Char) : Except IntFault Int :=
  let (negative, body) := takeSign (Text.trim s)
  let isDigitOrGroup (c : Char) : Bool := c = '_' || Text.isDigit c
  match ungroup? (body.takeWhile isDigitOrGroup) with
  | none => .error .unreadable
  | some digits =>
    if maxDigits < digits.length then .error (.oversized digits.length)
    else if digits.isEmpty || (body.dropWhile isDigitOrGroup) ≠ [] then .error .unreadable
    else
      let n := Int.ofNat (Text.digitsValue digits)
      .ok (if negative then -n else n)

end FiniteAutomata.Decimal
