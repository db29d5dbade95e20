import DesignTokens.Json.Value
import DesignTokens.Text.Digits

/-!
# Reading JSON

The reader accepts strict JSON with at most 127 arrays and objects around any value.  Each step
takes the text that is left and gives a result together with the text behind it.  A failure says
whether the text ended too early or holds a character that cannot stand where it does.
-/

namespace DesignTokens
namespace Json

/-- Why a text is not JSON. -/
inductive ReadError where
  /-- The text ended where more was needed. -/
  | unexpectedEnd
  /-- A character cannot stand where it does, or a number has no finite double. -/
  | unexpectedCharacter
  deriving DecidableEq, Repr

/-- The failure in words. -/
def ReadError.message : ReadError → String
  | .unexpectedEnd => "the text ends too early"
  | .unexpectedCharacter => "a character cannot stand where it does"

/-- The largest number of arrays and objects around a value. -/
def maxDepth : Nat := 127

namespace Reader

/-- What a step of the reader gives; a success pairs the result with the text behind it. -/
abbrev Attempt := Except ReadError

/-- The failure of a step that cannot go on in front of `rest`. -/
def stuck (rest : List Char) : ReadError :=
  if rest.isEmpty then .unexpectedEnd else .unexpectedCharacter

/-- Whether a character may stand between tokens. -/
def isSpace (c : Char) : Bool :=
  c = ' ' || c = '\t' || c = '\n' || c = '\r'

/-- The text without the spaces in front. -/
def skipSpaces (text : List Char) : List Char :=
  text.dropWhile isSpace

/-- A given word. -/
def word : List Char → List Char → Attempt (Unit × List Char)
  | [], text => .ok ((), text)
  | _ :: _, [] => .error .unexpectedEnd
  | p :: pattern, c :: text => if p = c then word pattern text else .error .unexpectedCharacter

/-! ## Strings -/

/-- The value of four hexadecimal digits. -/
def hexUnit? (a b c d : Char) : Option Nat := do
  let a ← Text.hexDigit? a
  let b ← Text.hexDigit? b
  let c ← Text.hexDigit? c
  let d ← Text.hexDigit? d
  return ((a * 16 + b) * 16 + c) * 16 + d

/-- Whether a unit opens a surrogate pair. -/
def isLeading (unit : Nat) : Bool := 0xD800 ≤ unit && unit < 0xDC00

/-- Whether a unit closes a surrogate pair. -/
def isTrailing (unit : Nat) : Bool := 0xDC00 ≤ unit && unit < 0xE000

/-- The character of a surrogate pair. -/
def surrogatePair (leading trailing : Nat) : Char :=
  Char.ofNat (0x10000 + (leading - 0xD800) * 0x400 + (trailing - 0xDC00))

/-- The failure of an escape with fewer than four characters left, which counts their bytes. -/
def shortUnit (rest : List Char) : ReadError :=
  if (String.ofList rest).utf8ByteSize < 4 then .unexpectedEnd else .unexpectedCharacter

/-- The character that an escape of one letter stands for. -/
def letterEscape? (c : Char) : Option Char :=
  if c = '"' then some '"'
  else if c = '\\' then some '\\'
  else if c = '/' then some '/'
  else if c = 'b' then some '\x08'
  else if c = 'f' then some '\x0c'
  else if c = 'n' then some '\n'
  else if c = 'r' then some '\r'
  else if c = 't' then some '\t'
  else none

/-- Put a character in front of the text that a step gives. -/
def prepend (c : Char) (step : Attempt (List Char × List Char)) : Attempt (List Char × List Char) :=
  step.map fun result => (c :: result.1, result.2)

/-- The characters of a string up to its closing quote. -/
def stringBody : List Char → Attempt (List Char × List Char)
  | [] => .error .unexpectedEnd
  | c :: text =>
      if c = '"' then .ok ([], text)
      else if c = '\\' then
        match text with
        | [] => .error .unexpectedEnd
        | e :: text =>
            if e = 'u' then
              match text with
              | a :: b :: c :: d :: text =>
                  match hexUnit? a b c d with
                  | none => .error .unexpectedCharacter
                  | some unit =>
                      if isTrailing unit then .error .unexpectedCharacter
                      else if isLeading unit then
                        match text with
                        | [] => .error .unexpectedEnd
                        | x :: [] =>
                            .error (if x = '\\' then .unexpectedEnd else .unexpectedCharacter)
                        | x :: y :: text =>
                            if x = '\\' ∧ y = 'u' then
                              match text with
                              | a :: b :: c :: d :: text =>
                                  match hexUnit? a b c d with
                                  | none => .error .unexpectedCharacter
                                  | some second =>
                                      if isTrailing second then
                                        prepend (surrogatePair unit second) (stringBody text)
                                      else .error .unexpectedCharacter
                              | rest => .error (shortUnit rest)
                            else .error .unexpectedCharacter
                      else prepend (Char.ofNat unit) (stringBody text)
              | rest => .error (shortUnit rest)
            else
              match letterEscape? e with
              | some escaped => prepend escaped (stringBody text)
              | none => .error .unexpectedCharacter
      else if c.toNat < 0x20 then .error .unexpectedCharacter
      else prepend c (stringBody text)

/-! ## Numbers -/

/-- At least one decimal digit. -/
def someDigits (text : List Char) : Attempt (List Char × List Char) :=
  let digits := text.takeWhile Char.isDigit
  let rest := text.dropWhile Char.isDigit
  if digits.isEmpty then .error (stuck rest) else .ok (digits, rest)

/-- The whole part of a number, which starts with a zero only if it is zero. -/
def wholePart (text : List Char) : Attempt (List Char × List Char) := do
  let (digits, rest) ← someDigits text
  if digits.head? = some '0' ∧ 1 < digits.length then .error .unexpectedCharacter
  else .ok (digits, rest)

/-- The digits behind a decimal point, if there is one. -/
def fractionPart (text : List Char) : Attempt (List Char × List Char) :=
  match text with
  | '.' :: text => someDigits text
  | text => .ok ([], text)

/-- The exponent, if there is one. -/
def exponentPart (text : List Char) : Attempt (Option Int × List Char) :=
  match text with
  | c :: text =>
      if c = 'e' ∨ c = 'E' then do
        let negative := text.head? = some '-'
        let unsigned := if negative ∨ text.head? = some '+' then text.drop 1 else text
        let (digits, rest) ← someDigits unsigned
        let size : Int := Text.digitsValue 10 digits
        .ok (some (if negative then -size else size), rest)
      else .ok (none, c :: text)
  | [] => .ok (none, [])

/-- The greatest whole number that stays one. -/
def maxWhole : Nat := 0xFFFFFFFFFFFFFFFF

/-- The greatest magnitude of a whole number behind a minus sign that stays one. -/
def maxMinus : Nat := 0x8000000000000000

/-- The number with a sign, whole digits, fraction digits and exponent. -/
def assemble? (negative : Bool) (whole fraction : List Char) (exponent : Option Int) :
    Option JsonNumber :=
  let plain := fraction.isEmpty && exponent.isNone
  let size := Text.digitsValue 10 whole
  if plain && !negative && size ≤ maxWhole then some (.whole size)
  else if plain && negative && 0 < size && size ≤ maxMinus then some (.whole (-size))
  else
    (Double.ofDecimal? negative (Text.digitsValue 10 (whole ++ fraction))
      (exponent.getD 0 - fraction.length)).map .double

/-- A number. -/
def number (text : List Char) : Attempt (JsonNumber × List Char) := do
  let negative := text.head? = some '-'
  let (whole, text) ← wholePart (if negative then text.drop 1 else text)
  let (fraction, text) ← fractionPart text
  let (exponent, text) ← exponentPart text
  match assemble? negative whole fraction exponent with
  | some value => .ok (value, text)
  | none => .error .unexpectedCharacter

/-! ## Values -/

mutual

/-- A value with at most `depth` arrays and objects nested in it. -/
def value : Nat → Nat → List Char → Attempt (Json × List Char)
  | 0, _, _ => .error .unexpectedEnd
  | fuel + 1, depth, text =>
      match skipSpaces text with
      | [] => .error .unexpectedEnd
      | c :: text =>
          if c = '"' then do
            let (content, text) ← stringBody text
            .ok (.string (String.ofList content), text)
          else if c = '[' then
            match depth with
            | 0 => .error .unexpectedCharacter
            | depth + 1 =>
                match skipSpaces text with
                | ']' :: text => .ok (.array [], text)
                | text => do
                    let (content, text) ← items fuel depth text
                    .ok (.array content, text)
          else if c = '{' then
            match depth with
            | 0 => .error .unexpectedCharacter
            | depth + 1 =>
                match skipSpaces text with
                | '}' :: text => .ok (.object [], text)
                | text => do
                    let (content, text) ← members fuel depth text
                    .ok (.object (Entries.dedup content), text)
          else if c = 'n' then (word "ull".toList text).map fun step => (.null, step.2)
          else if c = 't' then (word "rue".toList text).map fun step => (.bool true, step.2)
          else if c = 'f' then (word "alse".toList text).map fun step => (.bool false, step.2)
          else if c = '-' ∨ c.isDigit then
            (number (c :: text)).map fun step => (.number step.1, step.2)
          else .error .unexpectedCharacter

/-- The items of an array that is not empty, with its closing bracket. -/
def items : Nat → Nat → List Char → Attempt (List Json × List Char)
  | 0, _, _ => .error .unexpectedEnd
  | fuel + 1, depth, text => do
      let (item, text) ← value fuel depth text
      match skipSpaces text with
      | ',' :: text => do
          let (rest, text) ← items fuel depth text
          .ok (item :: rest, text)
      | ']' :: text => .ok ([item], text)
      | rest => .error (stuck rest)

/-- The members of an object that is not empty, with its closing brace. -/
def members : Nat → Nat → List Char → Attempt (List (String × Json) × List Char)
  | 0, _, _ => .error .unexpectedEnd
  | fuel + 1, depth, text =>
      match skipSpaces text with
      | '"' :: text => do
          let (key, text) ← stringBody text
          match skipSpaces text with
          | ':' :: text => do
              let (item, text) ← value fuel depth text
              match skipSpaces text with
              | ',' :: text => do
                  let (rest, text) ← members fuel depth text
                  .ok ((String.ofList key, item) :: rest, text)
              | '}' :: text => .ok ([(String.ofList key, item)], text)
              | rest => .error (stuck rest)
          | rest => .error (stuck rest)
      | rest => .error (stuck rest)

end

end Reader

/--
The value of a JSON text.  Of two nested calls of the reader at least one takes a character, which
bounds their number by twice the length of the text.
-/
def read (text : String) : Except ReadError Json := do
  let chars := text.toList
  let (value, rest) ← Reader.value (2 * chars.length + 2) maxDepth chars
  let rest := Reader.skipSpaces rest
  if rest.isEmpty then .ok value else .error .unexpectedCharacter

/-- The number that makes up a whole text. -/
def readNumber? (text : List Char) : Option JsonNumber :=
  match Reader.number text with
  | .ok (value, []) => some value
  | _ => none

end Json
end DesignTokens
