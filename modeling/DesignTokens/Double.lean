/-!
# Double precision numbers

A finite double is a sign, a whole significand below `2 ^ 53` and a power of two.  Decimal
numbers become the nearest double by exact arithmetic on natural numbers, a tie going to the even
significand; a number too large for any finite double has none.
-/

namespace DesignTokens

/-- The finite double `± significand * 2 ^ exponent`. -/
structure Double where
  /-- Whether the sign is minus; zero has both signs. -/
  negative : Bool
  /-- The significand, below `2 ^ 53`. -/
  significand : Nat
  /-- The binary exponent, from `-1074` to `971`. -/
  exponent : Int
  deriving DecidableEq, Repr

namespace Double

/-- The smallest binary exponent, shared by zero and the subnormal numbers. -/
def minExponent : Int := -1074

/-- The largest binary exponent. -/
def maxExponent : Int := 971

/-- The least significand of a normal number, `2 ^ 52`. -/
def leastNormal : Nat := 1 <<< 52

/-- Zero with a sign. -/
def zero (negative : Bool) : Double := ⟨negative, 0, minExponent⟩

/-- The whole number nearest to `num / den`, the even one of two equally near. -/
def roundToEven (num den : Nat) : Nat :=
  let whole := num / den
  let rest := 2 * (num % den)
  if rest < den then whole
  else if den < rest then whole + 1
  else whole + whole % 2

/-- The quotient `num / (den * 2 ^ exponent)` as numerator and denominator. -/
def scaleDown (num den : Nat) (exponent : Int) : Nat × Nat :=
  (num <<< (-exponent).toNat, den <<< exponent.toNat)

/-- The exponent at which `num / den` has a significand of 53 binary digits. -/
def naturalExponent (num den : Nat) : Int :=
  let guess : Int := (num.log2 : Int) - (den.log2 : Int) - 52
  let scaled := scaleDown num den guess
  if scaled.1 < leastNormal * scaled.2 then guess - 1 else guess

/-- The double nearest to `± num / den`, if it is finite. -/
def ofRatio? (negative : Bool) (num den : Nat) : Option Double :=
  if num = 0 then some (zero negative)
  else
    let exponent := max (naturalExponent num den) minExponent
    let scaled := scaleDown num den exponent
    let significand := roundToEven scaled.1 scaled.2
    let rounded : Double :=
      if significand = 2 * leastNormal then ⟨negative, leastNormal, exponent + 1⟩
      else ⟨negative, significand, exponent⟩
    if maxExponent < rounded.exponent then none else some rounded

/-- A lower bound of the number of decimal digits of a positive number, short by one at most. -/
def digitEstimate (digits : Nat) : Int :=
  (digits.log2 * 30103 / 100000 : Nat)

/--
The double nearest to `± digits * 10 ^ exponent`, if it is finite.  Numbers far outside the range
are settled by their number of digits alone, so that no huge power is computed.
-/
def ofDecimal? (negative : Bool) (digits : Nat) (exponent : Int) : Option Double :=
  if digits = 0 then some (zero negative)
  else if 330 < digitEstimate digits + exponent then none
  else if digitEstimate digits + exponent < -400 then some (zero negative)
  else ofRatio? negative (digits * Nat.pow 10 exponent.toNat) (Nat.pow 10 (-exponent).toNat)

end Double
end DesignTokens
