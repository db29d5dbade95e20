import DesignTokens.Decimal.Shortest

/-!
# Written doubles

A style settles everything about a written double that its shortest decimal leaves open: which
way ties go, which magnitudes are written without an exponent, how whole numbers end, and whether
zero keeps its sign.
-/

namespace DesignTokens

/-- The choices a format makes in writing doubles. -/
structure NumberStyle where
  /-- Which of two equally near shortest decimals is written. -/
  tie : Decimal.Tie
  /-- The first and the last magnitude without an exponent; if there are none, all are. -/
  positional : Option (Int × Int)
  /-- What follows a whole number written without an exponent. -/
  wholeEnd : String
  /-- Whether negative zero has a sign. -/
  signedZero : Bool

namespace NumberStyle

/-- Digits with the decimal point behind the first `point` of them, filled up with zeros. -/
def layOut (wholeEnd : String) (digits : List Char) (point : Int) : String :=
  if point ≤ 0 then
    "0." ++ String.ofList (List.replicate (-point).toNat '0' ++ digits)
  else if digits.length ≤ point.toNat then
    String.ofList (digits ++ List.replicate (point.toNat - digits.length) '0') ++ wholeEnd
  else
    String.ofList (digits.take point.toNat) ++ "." ++ String.ofList (digits.drop point.toNat)

/-- Digits with the decimal point behind the first of them and an exponent. -/
def layOutExponent (digits : List Char) (point : Int) : String :=
  let fraction := digits.drop 1
  String.ofList (digits.take 1) ++
    (if fraction.isEmpty then "" else "." ++ String.ofList fraction) ++
    (if 1 ≤ point then "e+" else "e-") ++ toString (point - 1).natAbs

/-- A double written in a style. -/
def render (style : NumberStyle) (d : Double) : String :=
  let sign := if d.negative && (style.signedZero || d.significand != 0) then "-" else ""
  let decimal := Decimal.shortest style.tie d
  let digits := Nat.toDigits 10 decimal.digits
  let point : Int := decimal.exponent + digits.length
  let positional :=
    match style.positional with
    | none => true
    | some (first, last) => decimal.digits = 0 || (first ≤ point && point ≤ last)
  sign ++
    if positional then layOut style.wholeEnd digits point else layOutExponent digits point

end NumberStyle
end DesignTokens
