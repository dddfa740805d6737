/-! # The shortest decimal that reads back

A positive finite floating-point number is `4 m` quarters of the unit `2 ^ q` for natural `m` and
integer `q`. The reals that round to it form an interval of two quarters to each side, one quarter
below where the spacing of the numbers halves; its ends belong to it when `m` is even. For one,
two, … digits the two neighbours of the number on the decimal grid of that many digits are tested
against the interval in exact arithmetic. The first grid with a hit wins, of two hits the nearer
one, and of two equally near ones the even one. -/

namespace FiniteAutomata.Decimal

/-- A binary magnitude: `mantissa * 2 ^ exponent`, and whether the next number below is at half the
distance of the next one above. -/
structure Magnitude where
  mantissa : Nat
  exponent : Int
  halvesBelow : Bool
deriving DecidableEq, Repr

/-- The magnitude of a finite number. -/
def Magnitude.ofFloat (x : Float) : Magnitude :=
  let bits := x.toBits.toNat
  let fraction : Nat := bits % Nat.pow 2 52
  let exponent : Nat := bits / Nat.pow 2 52 % Nat.pow 2 11
  if exponent = 0 then ⟨fraction, -1074, false⟩
  else ⟨fraction + Nat.pow 2 52, exponent - 1075, fraction == 0 && 1 < exponent⟩

/-- Whether the sign bit is set. -/
def isNegative (x : Float) : Bool := Nat.pow 2 63 ≤ x.toBits.toNat

/-- The number of decimal digits of a natural number. -/
def digitCount (n : Nat) : Nat := (Nat.toDigits 10 n).length

/-- The least `k` with `num / den < 10 ^ k`, for positive `num` and `den`. -/
def decimalMagnitude (num den : Nat) : Int :=
  if den ≤ num then digitCount (num / den) else 1 - digitCount ((den - 1) / num)

/-- A decimal number `digits * 10 ^ exponent`. -/
structure Scaled where
  digits : Nat
  exponent : Int
deriving DecidableEq, Repr

/-- The same number without zeros at the end of its digits, looking at no more than `fuel` of them. -/
def Scaled.strip (d : Scaled) : Nat → Scaled
  | 0 => d
  | fuel + 1 =>
    if d.digits % 10 = 0 then Scaled.strip ⟨d.digits / 10, d.exponent + 1⟩ fuel else d

/-- A magnitude and its rounding interval on the grid of multiples of `10 ^ exponent`: all scaled so
that a grid step is `step` and the rest are natural numbers. -/
structure Grid where
  exponent : Int
  step : Nat
  value : Nat
  low : Nat
  high : Nat
  closed : Bool

/-- The grid of multiples of `10 ^ g`. -/
def Magnitude.grid (x : Magnitude) (g : Int) : Grid :=
  let scale := Nat.pow 2 (x.exponent - 2).toNat * Nat.pow 10 (-g).toNat
  { exponent := g
    step := Nat.pow 2 (2 - x.exponent).toNat * Nat.pow 10 g.toNat
    value := 4 * x.mantissa * scale
    low := (4 * x.mantissa - if x.halvesBelow then 1 else 2) * scale
    high := (4 * x.mantissa + 2) * scale
    closed := x.mantissa % 2 == 0 }

/-- Whether a grid point rounds to the number. -/
def Grid.hits (g : Grid) (n : Nat) : Bool :=
  let p := n * g.step
  if g.closed then g.low ≤ p && p ≤ g.high else g.low < p && p < g.high

/-- The grid point next to the number that rounds to it, if there is one: of two the nearer, of two
equally near the even one. -/
def Grid.best? (g : Grid) : Option Nat :=
  let below := g.value / g.step
  let above := below + 1
  match g.hits below, g.hits above with
  | true, true =>
    let down := g.value - below * g.step
    let up := above * g.step - g.value
    some (if down < up || (down == up && below % 2 == 0) then below else above)
  | true, false => some below
  | false, true => some above
  | false, false => none

/-- Tests the grids of `count`, `count + 1`, … digits, `fuel` of them; the last one is taken as it
is. Seventeen digits always suffice. -/
def Magnitude.search (x : Magnitude) (k : Int) (count : Nat) : Nat → Scaled
  | 0 =>
    let g := x.grid (k - count)
    ⟨g.value / g.step, g.exponent⟩
  | fuel + 1 =>
    let g := x.grid (k - count)
    match g.best? with
    | some n => ⟨n, g.exponent⟩
    | none => Magnitude.search x k (count + 1) fuel

/-- The shortest decimal that reads back as a magnitude. -/
def Magnitude.shortest (x : Magnitude) : Scaled :=
  if x.mantissa = 0 then ⟨0, 0⟩
  else
    let num := x.mantissa * Nat.pow 2 x.exponent.toNat
    let k := decimalMagnitude num (Nat.pow 2 (-x.exponent).toNat)
    (x.search k 1 17).strip 20

/-- The value of a magnitude if it is a natural number. -/
def Magnitude.toNat? (x : Magnitude) : Option Nat :=
  let den := Nat.pow 2 (-x.exponent).toNat
  let num := x.mantissa * Nat.pow 2 x.exponent.toNat
  if num % den = 0 then some (num / den) else none

end FiniteAutomata.Decimal
