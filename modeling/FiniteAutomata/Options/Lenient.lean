import FiniteAutomata.Checked
import FiniteAutomata.Text.Basic

/-! # Lenient readings of options

An option may be given as a value of another type that leaves no doubt: a truth value as a word or
as zero or one, an integer as a number without a fraction, as a truth value, or as the text of such
a number. -/

namespace FiniteAutomata.Checked

/-! ### Truth values -/

/-- The words for false. -/
def falseWords : List String := ["0", "off", "f", "false", "n", "no"]

/-- The words for true. -/
def trueWords : List String := ["1", "on", "t", "true", "y", "yes"]

/-- The truth value of a word, whatever the case of its letters. -/
def wordValue? (word : String) : Option Bool :=
  if word.toLower ∈ falseWords then some false
  else if word.toLower ∈ trueWords then some true
  else none

/-- The bounds between which a number is taken for an integer of machine size. -/
def isMachineInt (n : Int) : Bool := -Int.pow 2 63 ≤ n && n < Int.pow 2 63

/-- A truth value given as an integer. -/
def boolOfInt (n : Int) : Checked Bool :=
  if n = 0 then .ok false
  else if n = 1 then .ok true
  else if isMachineInt n then defect .unreadableBool
  else defect .notBool

/-- Whether a number has no fraction. -/
def isIntegral (x : Float) : Bool := x.isFinite && x.floor == x

/-- Whether a number without a fraction is of machine size. -/
def isMachineSize (x : Float) : Bool :=
  Float.ofInt (-Int.pow 2 63) < x && x < Float.ofInt (Int.pow 2 63)

/-- A truth value given as a number. -/
def boolOfFloat (x : Float) : Checked Bool :=
  if x == 0 then .ok false
  else if x == 1 then .ok true
  else if isIntegral x && isMachineSize x then defect .unreadableBool
  else defect .notBool

/-- A truth value, or what can be taken for one. -/
def lenientBool : Datum → Checked Bool
  | .bool b => .ok b
  | .int n => boolOfInt n
  | .float x => boolOfFloat x
  | .text s => ((wordValue? s).map .ok).getD (defect .unreadableBool)
  | _ => defect .notBool

/-! ### Integers -/

/-- The most characters that the sign and the digits of an integer may have. -/
def maxNumeral : Nat := 4300

/-- The integer that a text spells with nothing around it: a minus sign or none, and digits of which
the first is a zero only if it is the last one too. -/
def plainInt (s : List Char) : Except Defect Int :=
  let negative := s.head? = some '-'
  let body := if negative then s.drop 1 else s
  let digits := body.takeWhile (·.isDigit)
  if body = ['0'] then .ok 0
  else if digits.isEmpty || body.head? = some '0' then .error .unreadableInt
  else if maxNumeral < digits.length + (if negative then 1 else 0) then .error .oversizedInt
  else if digits.length < body.length then .error .unreadableInt
  else
    let n := Int.ofNat (digits.foldl (fun n c => 10 * n + (c.toNat - '0'.toNat)) 0)
    .ok (if negative then -n else n)

/-- Whether a character may stand around a numeral: a blank that is no separator of files, groups,
records or units. -/
def isMargin (c : Char) : Bool := Text.isBlank c && ! (28 ≤ c.toNat && c.toNat ≤ 31)

/-- Drops the margins of a numeral. -/
def dropMargins (s : List Char) : List Char :=
  ((s.dropWhile isMargin).reverse.dropWhile isMargin).reverse

/-- Drops a plus sign, which no minus sign may follow. -/
def dropPlus? : List Char → Option (List Char)
  | '+' :: '-' :: _ => none
  | '+' :: rest => some rest
  | s => some s

/-- What is left of a numeral after zeros and underscores at its front, the last of which is `last`:
it starts with another digit or with a minus sign, or it is a point with the last of them before
it. -/
def stripZeros? (last : Char) : List Char → Option (List Char)
  | [] => some [last]
  | c :: rest =>
    if c = '0' || c = '_' then stripZeros? c rest
    else if c = '.' then some (last :: c :: rest)
    else if c.isDigit || c = '-' then some (c :: rest)
    else none

/-- A numeral without the zeros at its front. -/
def significant? : List Char → Option (List Char)
  | '0' :: rest => stripZeros? '0' rest
  | c :: rest => if c.isDigit || c = '-' then some (c :: rest) else none
  | [] => none

/-- Drops a fraction of zeros. -/
def dropZeroFraction (s : List Char) : List Char :=
  match Text.splitFirst? '.' s with
  | some (whole, fraction) =>
    if ! fraction.isEmpty && fraction.all (· = '0') then whole else s
  | none => s

/-- Whether two underscores follow each other. -/
def hasDoubleUnderscore : List Char → Bool
  | '_' :: '_' :: _ => true
  | _ :: rest => hasDoubleUnderscore rest
  | [] => false

/-- Drops single underscores inside a text; others stay. -/
def dropUnderscores (s : List Char) : List Char :=
  if s.head? = some '_' || s.getLast? = some '_' || hasDoubleUnderscore s then s
  else s.filter (· ≠ '_')

/-- A text without what may decorate an integer: margins, a plus sign, zeros at the front, a fraction
of zeros, and underscores. -/
def undecorated? (s : List Char) : Option (List Char) := do
  let digits ← significant? (← dropPlus? (dropMargins s))
  return dropUnderscores (dropZeroFraction digits)

/-- The integer that a text spells, decorated or not. -/
def intOfText (s : String) : Except Defect Int :=
  match plainInt s.toList with
  | .ok n => .ok n
  | .error .oversizedInt => .error .oversizedInt
  | .error e =>
    match undecorated? s.toList with
    | some t => plainInt t
    | none => .error e

/-- The integer that a number without a fraction is. -/
def intOfFloat (x : Float) : Checked Int :=
  if ! x.isFinite then defect .infiniteInt
  else if ! isIntegral x then defect .fractionalInt
  else if ! isMachineSize x then defect .oversizedInt
  else .ok x.toInt64.toInt

/-- An integer, or what can be taken for one. -/
def lenientInt : Datum → Checked Int
  | .bool b => .ok (if b then 1 else 0)
  | .int n => .ok n
  | .float x => intOfFloat x
  | .text s => (intOfText s).mapError fun d => [⟨[], d⟩]
  | _ => defect .notInt

/-- An integer above zero, or what can be taken for one. -/
def lenientPositive (d : Datum) : Checked Nat :=
  match lenientInt d with
  | .ok n => if 0 < n then .ok n.toNat else defect .notPositive
  | .error e => .error e

/-- An integer, or what can be taken for one, or nothing. -/
def lenientInt? : Datum → Checked (Option Int)
  | .null => .ok none
  | d => (lenientInt d).map some

end FiniteAutomata.Checked
