import FiniteAutomata.Datum
import FiniteAutomata.Decimal.Numeral
import FiniteAutomata.Dict

/-! # Reading JSON

A text is read as one JSON value. Beyond the standard, `NaN` and the infinities are numbers. A
number is an integer unless it has a fraction or an exponent. Where a name comes twice in an object
the last value counts, at the place of the first. A failure says what was expected and where: by
offset, and by line and column. The reader has limits: integers with too many digits, values too deep
in others, and escapes that stand for half a character are refused where they are met. -/

namespace FiniteAutomata.Json

/-- A limit that a text goes beyond: the digits of an integer, the depth at which a list or an object
opens, or the characters there are, of which half a pair of code units is none. -/
inductive Limit where
  | digits (count : Nat)
  | listDepth
  | objectDepth
  | halfPair
deriving DecidableEq, Repr

/-- The text of the report on a limit. -/
def Limit.message : Limit → String
  | .digits count => Decimal.oversizedMessage count
  | .listDepth => "maximum recursion depth exceeded while decoding a JSON array from a unicode string"
  | .objectDepth =>
    "maximum recursion depth exceeded while decoding a JSON object from a unicode string"
  | .halfPair => "surrogates not allowed"

/-- The most values that may be open at once, about what the stack has room for. -/
def maxDepth : Nat := 990

/-- What is wrong with a text. -/
inductive Reason where
  | byteOrderMark
  | expectedValue
  | expectedName
  | expectedColon
  | expectedComma
  | extraData
  | unterminatedText
  | controlCharacter
  | unknownEscape
  | incompleteEscape
  | beyond (limit : Limit)
deriving DecidableEq, Repr

/-- The text of a reason. -/
def Reason.text : Reason → String
  | .byteOrderMark => "Unexpected UTF-8 BOM (decode using utf-8-sig)"
  | .expectedValue => "Expecting value"
  | .expectedName => "Expecting property name enclosed in double quotes"
  | .expectedColon => "Expecting ':' delimiter"
  | .expectedComma => "Expecting ',' delimiter"
  | .extraData => "Extra data"
  | .unterminatedText => "Unterminated string starting at"
  | .controlCharacter => "Invalid control character at"
  | .unknownEscape => "Invalid \\escape"
  | .incompleteEscape => "Invalid \\uXXXX escape"
  | .beyond limit => limit.message

/-- A failure and how many characters were left at its place. -/
structure Failure where
  reason : Reason
  remaining : Nat
deriving DecidableEq, Repr

/-- Fails at the front of the given rest of the text. -/
def fail {α : Type} (reason : Reason) (rest : List Char) : Except Failure α :=
  .error ⟨reason, rest.length⟩

/-- Whether a character may stand between the parts of a value. -/
def isSpace (c : Char) : Bool := c == ' ' || c == '\t' || c == '\n' || c == '\r'

/-- Drops the space at the front. -/
def skipSpace (s : List Char) : List Char := s.dropWhile isSpace

/-! ### Texts -/

/-- The code unit that four hexadecimal digits at the front of a text spell; something has to come
after them. -/
def codeUnit? : List Char → Option Nat
  | a :: b :: c :: d :: _ :: _ => do
    let front := (← Text.hexValue? a) * 16 + (← Text.hexValue? b)
    return front * 256 + (← Text.hexValue? c) * 16 + (← Text.hexValue? d)
  | _ => none

/-- Whether a code unit is the first of a pair. -/
def isHigh (n : Nat) : Bool := 0xD800 ≤ n && n ≤ 0xDBFF

/-- Whether a code unit is the second of a pair. -/
def isLow (n : Nat) : Bool := 0xDC00 ≤ n && n ≤ 0xDFFF

/-- The character of the code unit that an escape spells, and the length of the escape; half a pair on
its own is no character. The text starts at the letter of the escape. -/
def ofUnit (unit : Nat) (s : List Char) : Except Failure (Char × Nat) :=
  if isHigh unit || isLow unit then fail (.beyond .halfPair) s else .ok (Char.ofNat unit, 5)

/-- The character that an escape stands for and the number of its characters after the backslash.
The text starts after the backslash. -/
def readEscape (s : List Char) : Except Failure (Char × Nat) :=
  match s with
  | '"' :: _ => .ok ('"', 1)
  | '\\' :: _ => .ok ('\\', 1)
  | '/' :: _ => .ok ('/', 1)
  | 'b' :: _ => .ok ('\x08', 1)
  | 'f' :: _ => .ok ('\x0c', 1)
  | 'n' :: _ => .ok ('\n', 1)
  | 'r' :: _ => .ok ('\r', 1)
  | 't' :: _ => .ok ('\t', 1)
  | 'u' :: rest =>
    match codeUnit? rest with
    | none => fail .incompleteEscape s
    | some unit =>
      match isHigh unit, rest.drop 4 with
      | true, '\\' :: 'u' :: more =>
        if more.length < 5 then ofUnit unit s
        else
          match codeUnit? more with
          | none => fail .incompleteEscape ('u' :: more)
          | some second =>
            if isLow second then
              .ok (Char.ofNat (0x10000 + (unit - 0xD800) * 0x400 + (second - 0xDC00)), 11)
            else ofUnit unit s
      | _, _ => ofUnit unit s
  | _ => .error ⟨.unknownEscape, s.length + 1⟩

/-- Reads a text up to its closing quote. `start` is what was left at the opening quote, `skip`
counts characters of an escape still to pass, and `acc` holds what was read, last first. -/
def readTextFrom (start : Nat) (acc : List Char) : Nat → List Char →
    Except Failure (String × List Char)
  | _, [] => .error ⟨.unterminatedText, start⟩
  | skip + 1, _ :: rest => readTextFrom start acc skip rest
  | 0, c :: rest =>
    if c = '"' then .ok (String.ofList acc.reverse, rest)
    else if c = '\\' then
      if rest.isEmpty then .error ⟨.unterminatedText, start⟩
      else
        match readEscape rest with
        | .ok (e, n) => readTextFrom start (e :: acc) n rest
        | .error e => .error e
    else if c.toNat < 0x20 then fail .controlCharacter (c :: rest)
    else readTextFrom start (c :: acc) 0 rest

/-- Reads a text whose opening quote has just been passed. -/
def readText (s : List Char) : Except Failure (String × List Char) :=
  readTextFrom (s.length + 1) [] 0 s

/-! ### Numbers and words -/

/-- Whether a character is one of the ten digits. -/
def isDigit (c : Char) : Bool := 48 ≤ c.toNat && c.toNat ≤ 57

/-- The digits at the front and the rest. -/
def takeDigits (s : List Char) : List Char × List Char := (s.takeWhile isDigit, s.dropWhile isDigit)

/-- The fraction at the front, if there is one. -/
def takeFraction (s : List Char) : List Char × List Char :=
  match s with
  | '.' :: body => if (takeDigits body).1.isEmpty then ([], s) else takeDigits body
  | _ => ([], s)

/-- The exponent at the front, if there is one. -/
def takeExponent? (s : List Char) : Option (Int × List Char) :=
  match s with
  | 'e' :: body | 'E' :: body =>
    let (sign, body) :=
      match body with
      | '-' :: rest => (-1, rest)
      | '+' :: rest => (1, rest)
      | _ => ((1 : Int), body)
    let (digits, rest) := takeDigits body
    if digits.isEmpty then none else some (sign * Text.digitsValue digits, rest)
  | _ => none

/-- The number at the front, if there is one. -/
def readNumber (s : List Char) : Except Failure (Datum × List Char) :=
  let (negative, body) :=
    match s with
    | '-' :: rest => (true, rest)
    | _ => (false, s)
  let (whole, rest) :=
    match body with
    | '0' :: rest => (['0'], rest)
    | _ => takeDigits body
  if whole.isEmpty then fail .expectedValue s
  else
    let (fraction, rest) := takeFraction rest
    let (exponent, rest) := ((takeExponent? rest).map fun p => (some p.1, p.2)).getD (none, rest)
    if fraction.isEmpty && exponent.isNone then
      if Decimal.maxDigits < whole.length then fail (.beyond (.digits whole.length)) s
      else
        let n := Int.ofNat (Text.digitsValue whole)
        .ok (.int (if negative then -n else n), rest)
    else
      let x := Decimal.Numeral.toFloat ⟨whole, fraction, exponent.getD 0⟩
      .ok (.float (if negative then -x else x), rest)

/-- The words that stand for a value. -/
def words : List (List Char × Datum) :=
  [("null".toList, .null), ("true".toList, .bool true), ("false".toList, .bool false),
   ("NaN".toList, .float (0 / 0)), ("Infinity".toList, .float (1 / 0)),
   ("-Infinity".toList, .float (-1 / 0))]

/-- The word or number at the front. -/
def readScalar (s : List Char) : Except Failure (Datum × List Char) :=
  match words.find? fun w => w.1.isPrefixOf s with
  | some (word, value) => .ok (value, s.drop word.length)
  | none => readNumber s

/-! ### Values -/

mutual

/-- Reads the value at the front; `fuel` bounds the number of values and parts to come, and `depth`
counts the values that may still open inside each other. -/
def readValue : (fuel depth : Nat) → List Char → Except Failure (Datum × List Char)
  | 0, _, s => fail .expectedValue s
  | fuel + 1, depth, s =>
    match s, depth with
    | '"' :: rest, _ => do
      let (text, rest) ← readText rest
      return (.text text, rest)
    | '[' :: _, 0 => fail (.beyond .listDepth) s
    | '[' :: rest, depth + 1 =>
      match skipSpace rest with
      | ']' :: rest => .ok (.list [], rest)
      | rest => readItems fuel depth [] rest
    | '{' :: _, 0 => fail (.beyond .objectDepth) s
    | '{' :: rest, depth + 1 =>
      match skipSpace rest with
      | '}' :: rest => .ok (.object [], rest)
      | rest => readFields fuel depth [] rest
    | _, _ => readScalar s

/-- Reads the items of a list from one on; those before it come last first. -/
def readItems : (fuel depth : Nat) → List Datum → List Char → Except Failure (Datum × List Char)
  | 0, _, _, s => fail .expectedValue s
  | fuel + 1, depth, before, s => do
    let (value, rest) ← readValue fuel depth s
    match skipSpace rest with
    | ']' :: rest => return (.list (value :: before).reverse, rest)
    | ',' :: rest => readItems fuel depth (value :: before) (skipSpace rest)
    | rest => fail .expectedComma rest

/-- Reads the fields of an object from one on. -/
def readFields : (fuel depth : Nat) → List (String × Datum) → List Char →
    Except Failure (Datum × List Char)
  | 0, _, _, s => fail .expectedName s
  | fuel + 1, depth, before, s =>
    match s with
    | '"' :: rest => do
      let (name, rest) ← readText rest
      match skipSpace rest with
      | ':' :: rest =>
        let (value, rest) ← readValue fuel depth (skipSpace rest)
        let fields := Entries.put name value before
        match skipSpace rest with
        | '}' :: rest => return (.object fields, rest)
        | ',' :: rest => readFields fuel depth fields (skipSpace rest)
        | rest => fail .expectedComma rest
      | rest => fail .expectedColon rest
    | _ => fail .expectedName s

end

/-- A failure with its place: the offset, and line and column counted from one. -/
structure Error where
  reason : Reason
  line : Nat
  column : Nat
  offset : Nat
deriving DecidableEq, Repr

/-- The text of a failure of the text itself. -/
def Error.message (e : Error) : String :=
  e.reason.text ++ s!": line {e.line} column {e.column} (char {e.offset})"

/-- A failure at an offset of a text. -/
def Error.at (text : List Char) (reason : Reason) (offset : Nat) : Error :=
  let before := text.take offset
  { reason, offset
    line := before.count '\n' + 1
    column := (before.reverse.takeWhile (· ≠ '\n')).length + 1 }

/-- Reads a text as one value with nothing but space around it. -/
def readAll (text : List Char) : Except Failure Datum :=
  if text.head? = some (Char.ofNat 0xFEFF) then fail .byteOrderMark text
  else do
    let (value, rest) ← readValue (2 * text.length + 2) maxDepth (skipSpace text)
    match skipSpace rest with
    | [] => return value
    | rest => fail .extraData rest

/-- The value that a JSON text stands for. -/
def read (text : String) : Except Error Datum :=
  let s := text.toList
  (readAll s).mapError fun f => Error.at s f.reason (s.length - f.remaining)

end FiniteAutomata.Json
