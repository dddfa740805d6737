import FiniteAutomata.Datum
import FiniteAutomata.Decimal.Number
import FiniteAutomata.Text.Utf8
import FiniteAutomata.Yaml.Time

/-! # Values

What a node stands for. Of a collection only whether it is empty is of interest, unless it is the
whole file. Keys are compared as values: an integer, a number with a fraction and a truth value may
be the same key. -/

namespace FiniteAutomata.Yaml

/-- What a node stands for. -/
inductive Value where
  | null
  | bool (b : Bool)
  | int (n : Int)
  | float (x : Float)
  | text (s : String)
  | bytes (l : List Nat)
  | date (d : Date)
  | moment (m : Moment)
  | collection (isEmpty : Bool)

namespace Value

/-- The number that a value is, if it counts as one; truth values count as zero and one. -/
def number? : Value → Option Decimal.Number
  | .bool b => some (.int (if b then 1 else 0))
  | .int n => some (.int n)
  | .float x => some (.float x)
  | _ => none

/-- Whether two numbers are the same; what is not a number is the same as itself. -/
def isSameNumber (a b : Decimal.Number) : Bool :=
  match a, b with
  | .int m, .int n => m = n
  | .float x, .float y => x == y || (x.isNaN && y.isNaN)
  | .tooLarge, _ => false
  | _, .tooLarge => false
  | .int _, .float x => ! x.isNaN && ! a.isLess b && ! b.isLess a
  | .float x, .int _ => ! x.isNaN && ! a.isLess b && ! b.isLess a

/-- Whether two values are the same key. -/
def isSameKey (a b : Value) : Bool :=
  match a, b with
  | .null, .null => true
  | .text s, .text t => s = t
  | .bytes s, .bytes t => s = t
  | .date d, .date e => d = e
  | .moment m, .moment n => m.isSame n
  | a, b =>
    match a.number?, b.number? with
    | some x, some y => isSameNumber x y
    | _, _ => false

/-- How a byte is written between the given quotes. -/
def escapeByte (quote : Char) (n : Nat) : List Char :=
  let c := Char.ofNat n
  if c = quote || c = '\\' then ['\\', c]
  else if c = '\n' then ['\\', 'n']
  else if c = '\r' then ['\\', 'r']
  else if c = '\t' then ['\\', 't']
  else if 0x20 ≤ n && n < 0x7F then [c]
  else '\\' :: 'x' :: Text.hex 2 n

/-- Bytes between quotes. -/
def quoteBytes (l : List Nat) : String :=
  let q := Text.quoteFor (l.map Char.ofNat)
  String.ofList ('b' :: q :: l.flatMap (escapeByte q) ++ [q])

/-- A value as the name of a field. -/
def fieldName : Value → Except Fault String
  | .null => .ok "None"
  | .bool b => .ok (if b then "True" else "False")
  | .int n =>
    if Decimal.maxDigits < Decimal.digitCount n.natAbs then .error .unwritableInteger
    else .ok (toString n)
  | .float x => .ok (Decimal.write x)
  | .text s => .ok s
  | .bytes l => .ok (quoteBytes l)
  | .date d => .ok d.text
  | .moment m => .ok m.text
  | .collection _ => .error .malformed

/-- A value as a datum. Bytes count as the text they spell; dates, times and collections as lists. -/
def toDatum : Value → Datum
  | .null => .null
  | .bool b => .bool b
  | .int n => .int n
  | .float x => .float x
  | .text s => .text s
  | .bytes l =>
    match Text.decode l with
    | .ok s => .text (String.ofList s)
    | .error _ => .text "\uFFFD"
  | .date _ => .list [.null]
  | .moment _ => .list [.null]
  | .collection isEmpty => .list (if isEmpty then [] else [.null])

end Value

/-! ### Scalars -/

/-- A text without underscores. -/
def withoutUnderscores (s : List Char) : List Char := s.filter (· ≠ '_')

/-- The truth value of a word, whatever the case of its letters. -/
def readBool (text : String) : Except Fault Value :=
  let word := text.toLower
  if word = "yes" || word = "true" || word = "on" then .ok (.bool true)
  else if word = "no" || word = "false" || word = "off" then .ok (.bool false)
  else .error (.noTruthValue word)

/-- The value of a digit of any script or of a Latin letter, as in bases up to 36. -/
def digitInBase? (base : Nat) (c : Char) : Option Nat :=
  ((Text.digitValue? c).or (Text.hexValue? c)).filter (· < base)

/-- The letters that may mark the digits of a base after a zero. -/
def baseMarks : List (Nat × List Char) := [(2, ['b', 'B']), (8, ['o', 'O']), (16, ['x', 'X'])]

/-- A text without the mark of a base. -/
def dropBaseMark (base : Nat) (s : List Char) : List Char :=
  match s with
  | '0' :: mark :: rest => if ((baseMarks.lookup base).getD []).contains mark then rest else s
  | _ => s

/-- Reads an integer in a base other than ten, with a sign and blanks around it. -/
def readInBase (base : Nat) (s : List Char) : Except Fault Int :=
  let (negative, body) := Decimal.takeSign (Text.trim s)
  let digits := (dropBaseMark base body).map (digitInBase? base)
  if digits.isEmpty || digits.any Option.isNone then
    .error (.noInteger base (String.ofList s))
  else
    let n := Int.ofNat (digits.foldl (fun n d => base * n + d.getD 0) 0)
    .ok (if negative then -n else n)

/-- Reads an integer in base ten. -/
def readDecimal (s : List Char) : Except Fault Int :=
  (Decimal.readInt s).mapError fun
    | .unreadable => .noInteger 10 (String.ofList s)
    | .oversized digits => .oversizedInteger digits

/-- The value of digits in base 60, the most important first. -/
def sexagesimal (parts : List Int) : Int := parts.foldl (fun n p => 60 * n + p) 0

/-- The value of an integer. -/
def readInteger (text : String) : Except Fault Value := do
  let s := withoutUnderscores text.toList
  let body := if s.head? = some '+' || s.head? = some '-' then s.drop 1 else s
  let signed (n : Int) : Value := .int (if s.head? = some '-' then -n else n)
  match body with
  | [] => throw .noDigits
  | ['0'] => return .int 0
  | '0' :: 'b' :: digits => return signed (← readInBase 2 digits)
  | '0' :: 'x' :: digits => return signed (← readInBase 16 digits)
  | '0' :: _ => return signed (← readInBase 8 body)
  | _ =>
    if body.contains ':' then
      return signed (sexagesimal (← (Text.splitOn ':' body).mapM readDecimal))
    else return signed (← readDecimal body)

/-- Reads a number, which may be a word. -/
def readPart (s : List Char) : Except Fault Float :=
  match Decimal.readLoosely? s with
  | some x => .ok x
  | none => .error (.noNumber (String.ofList s))

/-- The sum of parts, the last one taken once, the one before it 60 times, and so on. -/
def sexagesimalSum (base : Nat) (sum : Float) : List Float → Except Fault Float
  | [] => .ok sum
  | x :: rest =>
    match Decimal.floatOfInt? base with
    | some b => sexagesimalSum (60 * base) (sum + x * b) rest
    | none => .error .oversizedNumber

/-- The value of a number that is not an integer. -/
def readFloat (text : String) : Except Fault Value := do
  let s := (withoutUnderscores text.toList).map Char.toLower
  if s.isEmpty then throw .noDigits
  let body := if s.head? = some '+' || s.head? = some '-' then s.drop 1 else s
  let signed (x : Float) : Value := .float (if s.head? = some '-' then -x else x)
  if body = ".inf".toList then return signed (1 / 0)
  else if body = ".nan".toList then return .float (0 / 0)
  else if body.contains ':' then
    let parts ← (Text.splitOn ':' body).mapM readPart
    return signed (← sexagesimalSum 1 0 parts.reverse)
  else return signed (← readPart body)

/-- The value of a date or a time. -/
def readTime (text : String) : Except Fault Value :=
  match timeOf? text.toList with
  | none => .error .noTimeForm
  | some t =>
    match t.clock with
    | none => (t.date.map Value.date).mapError .noTime
    | some (hour, minute, second) =>
      (do
        let offset ← t.offsetMinutes
        let date ← t.date
        let clock ← Clock.make (digitsNumber hour) (digitsNumber minute) (digitsNumber second)
          (microsOf t.fraction)
        return Value.moment ⟨date, clock, offset⟩ : Except TimeFault Value).mapError .noTime

/-- The value of a digit of base 64. -/
def sixBits? (c : Char) : Option Nat :=
  if 'A' ≤ c && c ≤ 'Z' then some (c.toNat - 65)
  else if 'a' ≤ c && c ≤ 'z' then some (c.toNat - 71)
  else if c.isDigit then some (c.toNat + 4)
  else if c = '+' then some 62
  else if c = '/' then some 63
  else none

/-- The bytes that digits of base 64 spell. Four digits spell three bytes; `place` is how many of the
four were read, `left` holds their bits that are in no byte yet, and `pads` counts the equals signs
just before. Other characters are skipped. -/
def bytesOf? (place left pads : Nat) : List Char → Option (List Nat)
  | [] => if place = 0 then some [] else none
  | c :: rest =>
    if c = '=' then
      if 2 ≤ place && 4 ≤ place + pads + 1 then some []
      else bytesOf? place left (if 2 ≤ place then pads + 1 else pads) rest
    else
      match sixBits? c with
      | none => bytesOf? place left pads rest
      | some n =>
        if place = 0 then bytesOf? 1 n 0 rest
        else if place = 1 then (bytesOf? 2 (n % 16) 0 rest).map ((left * 4 + n / 16) :: ·)
        else if place = 2 then (bytesOf? 3 (n % 4) 0 rest).map ((left * 16 + n / 4) :: ·)
        else (bytesOf? 0 0 0 rest).map ((left * 64 + n) :: ·)

/-- The value of bytes. -/
def readBytes (text : String) : Except Fault Value :=
  if text.toList.any fun c => 0x80 ≤ c.toNat then .error .malformed
  else
    match bytesOf? 0 0 0 text.toList with
    | some l => .ok (.bytes l)
    | none => .error .malformed

/-- The value of a scalar of a kind; it has none if the kind is not one of scalars. -/
def scalarValue (kind : Kind) (text : String) : Except Fault Value :=
  match kind with
  | .null => .ok .null
  | .bool => readBool text
  | .int => readInteger text
  | .float => readFloat text
  | .text => .ok (.text text)
  | .binary => readBytes text
  | .timestamp => readTime text
  | _ => .error .malformed

end FiniteAutomata.Yaml
