import DesignTokens.Double

/-!
# Shortest decimals of a double

The reals that round to a double form an interval around it, with its ends included exactly if
the significand is even.  On the decimal grids of 1, 2, … 17 digits only the two neighbours of
the double can lie in the interval before any other grid point does; the first grid with a hit
gives the shortest decimals, and of two hits the nearer is taken.
-/

namespace DesignTokens

/-- The decimal number `digits * 10 ^ exponent`. -/
structure Decimal where
  /-- The significant digits as one number. -/
  digits : Nat
  /-- The decimal exponent of the last digit. -/
  exponent : Int
  deriving DecidableEq, Repr

namespace Decimal

/-- Which of two equally near decimals is taken. -/
inductive Tie where
  /-- The larger one. -/
  | up
  /-- The one with an even last digit. -/
  | even
  deriving DecidableEq, Repr

/-- The reals that round to a positive double, as whole multiples of a fraction. -/
structure Interval where
  /-- The lower end. -/
  low : Nat
  /-- The double itself. -/
  centre : Nat
  /-- The upper end. -/
  high : Nat
  /-- Whether the ends belong to the interval. -/
  closed : Bool
  /-- The numerator of the fraction. -/
  numerator : Nat
  /-- The denominator of the fraction. -/
  denominator : Nat
  deriving DecidableEq, Repr

/--
The interval that rounds to a double: half a step to each side, but a quarter below a power of
two.
-/
def Interval.around (d : Double) : Interval where
  low := 4 * d.significand -
    if d.significand = Double.leastNormal ∧ d.exponent ≠ Double.minExponent then 1 else 2
  centre := 4 * d.significand
  high := 4 * d.significand + 2
  closed := d.significand % 2 = 0
  numerator := 1 <<< d.exponent.toNat
  denominator := 4 <<< (-d.exponent).toNat

/-- The point of the grid `10 ^ exponent` in the interval that is nearest to its centre. -/
def Interval.gridPoint? (interval : Interval) (tie : Tie) (exponent : Int) : Option Nat :=
  let step := interval.denominator * Nat.pow 10 exponent.toNat
  let scale := interval.numerator * Nat.pow 10 (-exponent).toNat
  let inside (point : Nat) : Bool :=
    if interval.closed then
      interval.low * scale ≤ point * step && point * step ≤ interval.high * scale
    else
      interval.low * scale < point * step && point * step < interval.high * scale
  let below := interval.centre * scale / step
  let rest := 2 * (interval.centre * scale % step)
  match inside below, inside (below + 1) with
  | false, false => none
  | true, false => some below
  | false, true => some (below + 1)
  | true, true =>
      if rest < step then some below
      else if step < rest then some (below + 1)
      else
        match tie with
        | .up => some (below + 1)
        | .even => some (below + below % 2)

/-- The exponent `k` with `10 ^ (k - 1) ≤ centre < 10 ^ k`. -/
def Interval.magnitude (interval : Interval) : Int :=
  let shift := interval.denominator.log2 * 31 / 100 + 1
  let whole := interval.centre * interval.numerator * Nat.pow 10 shift / interval.denominator
  ((Nat.toDigits 10 whole).length : Int) - shift

/-- Move up to `fuel` trailing zeros of the digits into the exponent. -/
def dropZeros : Nat → Decimal → Decimal
  | 0, decimal => decimal
  | fuel + 1, ⟨digits, exponent⟩ =>
      if digits % 10 = 0 then dropZeros fuel ⟨digits / 10, exponent + 1⟩ else ⟨digits, exponent⟩

/-- The shortest decimal that rounds to the double, without its sign. -/
def shortest (tie : Tie) (d : Double) : Decimal :=
  if d.significand = 0 then ⟨0, 0⟩
  else
    let interval := Interval.around d
    let magnitude := interval.magnitude
    let onGrid (count : Nat) : Option Decimal :=
      let exponent := magnitude - 1 - count
      (interval.gridPoint? tie exponent).map fun point => dropZeros 17 ⟨point, exponent⟩
    ((List.range 17).findSome? onGrid).getD ⟨d.significand, 0⟩

end Decimal
end DesignTokens
