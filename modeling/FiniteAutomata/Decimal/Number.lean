import FiniteAutomata.Decimal.Numeral

/-! # Numbers of two kinds

A number given from outside is an integer of any size or a floating-point number. Integers are added
and compared exactly; an integer that meets a floating-point number in a sum, a difference or a
product is rounded to one. One that is too large for that gives a number of a third kind, which is
less than nothing and stays what it is. -/

namespace FiniteAutomata.Decimal

/-- An integer, a floating-point number, or an integer that was too large to become one. -/
inductive Number where
  | int (n : Int)
  | float (x : Float)
  | tooLarge

/-- The number nearest to an integer, unless it lies beyond all of them. -/
def floatOfInt? (n : Int) : Option Float :=
  let x := nearest n.natAbs 0
  if x.isFinite then some (if n < 0 then -x else x) else none

/-- Whether an integer is less than a number. -/
def intLess (n : Int) (x : Float) : Bool :=
  if x.isNaN then false
  else if x.isInf then ! isNegative x
  else
    let m := Magnitude.ofFloat x
    let mantissa : Int := if isNegative x then -m.mantissa else m.mantissa
    n * Int.pow 2 (-m.exponent).toNat < mantissa * Int.pow 2 m.exponent.toNat

namespace Number

/-- The floating-point number nearest to a number. -/
def toFloat? : Number → Option Float
  | .int n => floatOfInt? n
  | .float x => some x
  | .tooLarge => none

/-- Combines two numbers, exactly if both are integers. -/
def combine (exact : Int → Int → Int) (rounded : Float → Float → Float) (a b : Number) : Number :=
  match a, b with
  | .int m, .int n => .int (exact m n)
  | _, _ =>
    match a.toFloat?, b.toFloat? with
    | some x, some y => .float (rounded x y)
    | _, _ => .tooLarge

/-- Whether a number is less than another one; what is compared is the exact values. -/
def isLess (a b : Number) : Bool :=
  match a, b with
  | .int m, .int n => m < n
  | .float x, .float y => x < y
  | .int n, .float x => intLess n x
  | .float x, .int n => intLess (-n) (-x)
  | _, _ => false

instance : OfNat Number 0 := ⟨.int 0⟩
instance : Add Number := ⟨combine (· + ·) (· + ·)⟩
instance : Sub Number := ⟨combine (· - ·) (· - ·)⟩
instance : Mul Number := ⟨combine (· * ·) (· * ·)⟩
instance : LT Number := ⟨fun a b => a.isLess b = true⟩
instance : DecidableLT Number := fun a b => inferInstanceAs (Decidable (a.isLess b = true))

/-- Whether a number is one. -/
def isOne : Number → Bool
  | .int n => n == 1
  | .float x => x == 1
  | .tooLarge => false

/-- A number as text, without a fraction if it is integral. An integer is written exactly, and not at
all if it is too large for a floating-point number. -/
def writeCompact? : Number → Option String
  | .int n => (floatOfInt? n).map fun _ => toString n
  | .float x => some (Decimal.writeCompact x)
  | .tooLarge => none

/-- The text of the report on an integer that is too large. -/
def tooLargeMessage : String := "int too large to convert to float"

end Number

end FiniteAutomata.Decimal
