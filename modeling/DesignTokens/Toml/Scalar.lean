import DesignTokens.Text.Pieces
import DesignTokens.Toml.Quoted
import DesignTokens.Toml.Value

/-!
# Bare values of TOML

Truth values, dates and times, and numbers stand without quotes.  Digits can be grouped by single
underscores, whole numbers fit 64 bits, and a positive number too large for any finite double is
refused.
-/

namespace DesignTokens
namespace Toml
namespace Scalar

/-! ## Digits -/

/-- The digits in front of a text, a single underscore between any two of them being dropped. -/
def digitRun (isDigit : Char → Bool) : List Char → List Char × List Char
  | [] => ([], [])
  | c :: rest =>
      if isDigit c then
        let (digits, rest) := digitRun isDigit rest
        (c :: digits, rest)
      else if c = '_' then
        match rest with
        | [] => ([], [c])
        | d :: rest =>
            if isDigit d then
              let (digits, rest) := digitRun isDigit rest
              (d :: digits, rest)
            else ([], c :: d :: rest)
      else ([], c :: rest)

/-- At least one digit, which comes before any underscore. -/
def digits? (isDigit : Char → Bool) (text : List Char) : Option (List Char × List Char) :=
  if text.head?.any isDigit then some (digitRun isDigit text) else none

/-- Whole decimal digits, which start with a zero only if it stands alone. -/
def wholeDigits? : List Char → Option (List Char × List Char)
  | '0' :: rest => some (['0'], rest)
  | text => digits? Char.isDigit text

/-- A sign, if there is one, and whether it is a minus. -/
def sign : List Char → Bool × List Char
  | '-' :: rest => (true, rest)
  | '+' :: rest => (false, rest)
  | text => (false, text)

/-! ## Numbers -/

/-- A whole number with a sign. -/
def decimal? (text : List Char) : Option (Int × List Char) := do
  let (negative, text) := sign text
  let (digits, text) ← wholeDigits? text
  let size : Int := Text.digitsValue 10 digits
  return (if negative then -size else size, text)

/-- Whether a character is an octal digit. -/
def isOctal (c : Char) : Bool := '0' ≤ c && c ≤ '7'

/-- Whether a character is a binary digit. -/
def isBinary (c : Char) : Bool := c = '0' || c = '1'

/-- A whole number in a base. -/
def inBase? (base : Nat) (isDigit : Char → Bool) (text : List Char) :
    Option (Int × List Char) := do
  let (digits, text) ← digits? isDigit text
  return ((Text.digitsValue base digits : Int), text)

/-- The least whole number of 64 bits with a sign. -/
def minInteger : Int := -0x8000000000000000

/-- The greatest whole number of 64 bits with a sign. -/
def maxInteger : Int := 0x7FFFFFFFFFFFFFFF

/-- A whole number of 64 bits. -/
def integer? (text : List Char) : Option (Toml × List Char) := do
  let (value, rest) ←
    match text with
    | '0' :: 'x' :: text => inBase? 16 Text.isHexDigit text
    | '0' :: 'o' :: text => inBase? 8 isOctal text
    | '0' :: 'b' :: text => inBase? 2 isBinary text
    | text => decimal? text
  if minInteger ≤ value ∧ value ≤ maxInteger then some (.integer value, rest) else none

/-- The digits behind a point. -/
def fraction? : List Char → Option (List Char × List Char)
  | '.' :: text => digits? Char.isDigit text
  | _ => none

/-- The number behind an exponent mark. -/
def exponent? : List Char → Option (Int × List Char)
  | [] => none
  | c :: text =>
      if c = 'e' ∨ c = 'E' then do
        let (negative, text) := sign text
        let (digits, text) ← digits? Char.isDigit text
        let size : Int := Text.digitsValue 10 digits
        return (if negative then -size else size, text)
      else none

/-- The fraction and the exponent of a number, at least one of which is there. -/
def fractionAndExponent? (text : List Char) :
    Option ((List Char × Int) × List Char) :=
  match fraction? text with
  | some (fraction, text) =>
      let (exponent, text) := (exponent? text).getD (0, text)
      some ((fraction, exponent), text)
  | none =>
      match exponent? text with
      | some (exponent, text) => some (([], exponent), text)
      | none => none

/-- The number with a sign, whole digits, fraction digits and exponent. -/
def assemble? (negative : Bool) (whole fraction : List Char) (exponent : Int) :
    Option TomlFloat :=
  match Double.ofDecimal? negative (Text.digitsValue 10 (whole ++ fraction))
    (exponent - fraction.length) with
  | some value => some (.finite value)
  | none => if negative then some (.infinite true) else none

/-- A number with a fraction or an exponent. -/
def finite? (text : List Char) : Option (Toml × List Char) := do
  let (negative, text) := sign text
  let (whole, text) ← wholeDigits? text
  let ((fraction, exponent), text) ← fractionAndExponent? text
  let value ← assemble? negative whole fraction exponent
  return (.float value, text)

/-- One of the special numbers. -/
def special? (text : List Char) : Option (Toml × List Char) :=
  let (negative, text) := sign text
  match Text.after? ['i', 'n', 'f'] text with
  | some rest => some (.float (.infinite negative), rest)
  | none => (Text.after? ['n', 'a', 'n'] text).map fun rest => (.float .undefined, rest)

/-! ## Dates and times -/

/-- A number of exactly `count` digits between two bounds. -/
def bounded? (count least greatest : Nat) (text : List Char) :
    Option (Nat × List Char) :=
  let digits := text.take count
  let value := Text.digitsValue 10 digits
  if digits.length = count ∧ digits.all Char.isDigit ∧ least ≤ value ∧ value ≤ greatest then
    some (value, text.drop count)
  else none

/-- The text behind a given character. -/
def mark? (c : Char) : List Char → Option (List Char)
  | [] => none
  | d :: rest => if d = c then some rest else none

/-- The number of days in a month. -/
def daysIn (year month : Nat) : Nat :=
  if month = 2 then
    if year % 4 = 0 ∧ (year % 100 ≠ 0 ∨ year % 400 = 0) then 29 else 28
  else if month = 4 ∨ month = 6 ∨ month = 9 ∨ month = 11 then 30
  else 31

/-- The text behind a date. -/
def afterDate? (text : List Char) : Option (List Char) := do
  let (year, text) ← bounded? 4 0 9999 text
  let text ← mark? '-' text
  let (month, text) ← bounded? 2 1 12 text
  let text ← mark? '-' text
  let (_, text) ← bounded? 2 1 (daysIn year month) text
  return text

/-- The text behind an hour and a minute. -/
def afterMinute? (text : List Char) : Option (List Char) := do
  let (_, text) ← bounded? 2 0 23 text
  let text ← mark? ':' text
  let (_, text) ← bounded? 2 0 59 text
  return text

/-- The text behind a time; a minute has room for a leap second. -/
def afterTime? (text : List Char) : Option (List Char) := do
  let text ← afterMinute? text
  let text ← mark? ':' text
  let (_, text) ← bounded? 2 0 60 text
  match text with
  | '.' :: c :: rest => return if c.isDigit then rest.dropWhile Char.isDigit else text
  | _ => return text

/-- The text behind the offset of a time, if there is one. -/
def afterOffset (text : List Char) : List Char :=
  match text with
  | [] => []
  | c :: rest =>
      if c = 'Z' ∨ c = 'z' then rest
      else if c = '+' ∨ c = '-' then (afterMinute? rest).getD text
      else text

/-- The text behind the time of a date, if there is one. -/
def afterDateTime (text : List Char) : List Char :=
  match text with
  | [] => []
  | c :: rest =>
      if c = 'T' ∨ c = 't' ∨ c = ' ' then ((afterTime? rest).map afterOffset).getD text
      else text

/-- A date, a time or both. -/
def dateTime? (text : List Char) : Option (Toml × List Char) := do
  let rest ← ((afterDate? text).map afterDateTime).or (afterTime? text)
  return (.dateTime (String.ofList (text.take (text.length - rest.length))), rest)

/-! ## All of them -/

/-- A truth value. -/
def bool? (text : List Char) : Option (Toml × List Char) :=
  match Text.after? "true".toList text with
  | some rest => some (.bool true, rest)
  | none => (Text.after? "false".toList text).map fun rest => (.bool false, rest)

/-- A value without quotes and brackets. -/
def read? (text : List Char) : Option (Toml × List Char) :=
  (dateTime? text).or ((finite? text).or ((special? text).or ((integer? text).or (bool? text))))

end Scalar
end Toml
end DesignTokens
