import DesignTokens.Text.Digits
import DesignTokens.Text.Pieces

/-!
# Quoted strings of TOML

A string is quoted in one of four ways: basic strings know escapes and literal strings do not, and
both come on one line and on many.  Written strings take the plainest way that needs no escapes,
and escapes only if every way needs them.
-/

namespace DesignTokens
namespace Toml

/-- Put a character in front of what a step reads. -/
def prepend (c : Char) (step : Option (List Char × List Char)) : Option (List Char × List Char) :=
  step.map fun result => (c :: result.1, result.2)

/-- Whether a character is a blank inside a line. -/
def isBlank (c : Char) : Bool := c = ' ' || c = '\t'

/-- Whether a character can stand for itself in comments and quotes: the tab is the only control. -/
def isPlain (c : Char) : Bool := c = '\t' || (0x20 ≤ c.toNat && c.toNat ≠ 0x7F)

/-- The text behind a line break, which may start with a carriage return. -/
def lineBreak? : List Char → Option (List Char)
  | [] => none
  | c :: rest =>
      if c = '\n' then some rest
      else if c = '\r' then
        match rest with
        | [] => none
        | d :: rest => if d = '\n' then some rest else none
      else none

namespace Quoted

/-- The character that an escape of one letter stands for. -/
def letterEscape? (c : Char) : Option Char :=
  if c = 'b' then some '\x08'
  else if c = 't' then some '\t'
  else if c = 'n' then some '\n'
  else if c = 'f' then some '\x0c'
  else if c = 'r' then some '\r'
  else if c = '"' then some '"'
  else if c = '\\' then some '\\'
  else none

/-- The character with a hexadecimal code. -/
def coded? (digits : List Char) : Option Char :=
  let code := Text.digitsValue 16 digits
  if digits.all Text.isHexDigit ∧ code.isValidChar then some (Char.ofNat code) else none

/-- Whether a text starts with blanks and a line break, which a backslash in front takes out. -/
def opensGap (text : List Char) : Bool := (lineBreak? (text.dropWhile isBlank)).isSome

/-- The quotes, two at most, that a text starts with, and the text behind them. -/
def spareQuotes (quote : Char) : List Char → List Char × List Char
  | [] => ([], [])
  | c :: rest =>
      if c = quote then
        match rest with
        | [] => ([quote], [])
        | d :: rest => if d = quote then ([quote, quote], rest) else ([quote], d :: rest)
      else ([], c :: rest)

/--
The characters of a basic string up to its closing quotes, where `lines` allows line breaks and
`gap` takes out blanks and line breaks in front.
-/
def basicBody (lines gap : Bool) : List Char → Option (List Char × List Char)
  | [] => none
  | c :: rest =>
      if gap && (isBlank c || c = '\n') then basicBody lines true rest
      else if c = '\n' then
        if lines then prepend '\n' (basicBody lines false rest) else none
      else if c = '\r' then
        match rest with
        | [] => none
        | d :: rest =>
            if d = '\n' && gap then basicBody lines true rest
            else if d = '\n' && lines then prepend '\n' (basicBody lines false rest)
            else none
      else if c = '"' then
        if lines then
          match Text.after? ['"', '"'] rest with
          | some rest => some (spareQuotes '"' rest)
          | none => prepend '"' (basicBody lines false rest)
        else some ([], rest)
      else if c = '\\' then
        if lines && opensGap rest then basicBody lines true rest
        else
          match rest with
          | [] => none
          | 'u' :: a :: b :: c :: d :: rest =>
              match coded? [a, b, c, d] with
              | some character => prepend character (basicBody lines false rest)
              | none => none
          | 'U' :: a :: b :: c :: d :: e :: f :: g :: h :: rest =>
              match coded? [a, b, c, d, e, f, g, h] with
              | some character => prepend character (basicBody lines false rest)
              | none => none
          | e :: rest =>
              match letterEscape? e with
              | some character => prepend character (basicBody lines false rest)
              | none => none
      else if isPlain c then prepend c (basicBody lines false rest)
      else none

/-- The characters of a literal string up to its closing quotes. -/
def literalBody (lines : Bool) : List Char → Option (List Char × List Char)
  | [] => none
  | c :: rest =>
      if c = '\n' then
        if lines then prepend '\n' (literalBody lines rest) else none
      else if c = '\r' then
        match rest with
        | [] => none
        | d :: rest => if d = '\n' && lines then prepend '\n' (literalBody lines rest) else none
      else if c = '\'' then
        if lines then
          match Text.after? ['\'', '\''] rest with
          | some rest => some (spareQuotes '\'' rest)
          | none => prepend '\'' (literalBody lines rest)
        else some ([], rest)
      else if isPlain c then prepend c (literalBody lines rest)
      else none

/-- The text without a line break in front, which does not count behind opening quotes. -/
def skipLineBreak (text : List Char) : List Char := (lineBreak? text).getD text

/-- A string on one line. -/
def readLine? : List Char → Option (List Char × List Char)
  | [] => none
  | c :: rest =>
      if c = '"' then basicBody false false rest
      else if c = '\'' then literalBody false rest
      else none

/-- A string in any of the four ways. -/
def read? (text : List Char) : Option (List Char × List Char) :=
  match text with
  | '"' :: '"' :: '"' :: rest => basicBody true false (skipLineBreak rest)
  | '\'' :: '\'' :: '\'' :: rest => literalBody true (skipLineBreak rest)
  | text => readLine? text

/-! ## Writing -/

/-- The ways to quote a string. -/
inductive Way where
  | basic
  | literal
  /-- A basic string on many lines. -/
  | basicLines
  /-- A literal string on many lines. -/
  | literalLines
  deriving DecidableEq, Repr

/-- Whether a character can only be written as an escape. -/
def needsEscape (c : Char) : Bool :=
  (c.toNat < 0x20 && c ≠ '\t' && c ≠ '\n') || c.toNat = 0x7F

/-- The greatest number of quotes in a row, of which `run` stand in front. -/
def longestRun (quote : Char) : Nat → List Char → Nat
  | run, [] => run
  | run, c :: text =>
      if c = quote then longestRun quote (run + 1) text
      else max run (longestRun quote 0 text)

/-- The way in which a text is quoted. -/
def Way.ofText (text : List Char) : Way :=
  let coded := text.any needsEscape
  let escaped := coded || text.contains '\\'
  let broken := text.contains '\n'
  let doubles := longestRun '"' 0 text
  let singles := longestRun '\'' 0 text
  if !escaped && doubles = 0 && !broken then .basic
  else if !coded && singles = 0 && !broken then .literal
  else if !escaped && doubles ≤ 2 then .basicLines
  else if !coded && singles ≤ 2 then .literalLines
  else if broken then .basicLines
  else .basic

/-- A hexadecimal digit in upper case. -/
def upperDigit (value : Nat) : Char := (Nat.digitChar value).toUpper

/-- A character inside a basic string, where a quote or a line break is escaped on demand. -/
def escapeChar (quote lineBreak : Bool) (c : Char) : List Char :=
  if c = '"' then if quote then ['\\', '"'] else ['"']
  else if c = '\\' then ['\\', '\\']
  else if c = '\n' then if lineBreak then ['\\', 'n'] else ['\n']
  else if c = '\x08' then ['\\', 'b']
  else if c = '\t' then ['\\', 't']
  else if c = '\x0c' then ['\\', 'f']
  else if c = '\r' then ['\\', 'r']
  else if c.toNat < 0x20 ∨ c.toNat = 0x7F then
    ['\\', 'u', '0', '0', upperDigit (c.toNat / 16), upperDigit (c.toNat % 16)]
  else [c]

/-- A text inside a basic string on one line. -/
def escapeLine (text : List Char) : List Char := text.flatMap (escapeChar true true)

/-- A text inside a basic string on many lines, behind `run` bare quotes; a third one is escaped. -/
def escapeLines : Nat → List Char → List Char
  | _, [] => []
  | run, c :: text =>
      if c = '"' then
        if run = 2 then '\\' :: '"' :: escapeLines 0 text else '"' :: escapeLines (run + 1) text
      else escapeChar false false c ++ escapeLines 0 text

/-- The line break behind opening quotes, in front of a text that has line breaks itself. -/
def opening (text : List Char) : List Char := if text.contains '\n' then ['\n'] else []

/-- A text in a way of quoting. -/
def Way.quote (text : List Char) : Way → List Char
  | .basic => '"' :: escapeLine text ++ ['"']
  | .literal => '\'' :: text ++ ['\'']
  | .basicLines => ['"', '"', '"'] ++ opening text ++ escapeLines 0 text ++ ['"', '"', '"']
  | .literalLines => ['\'', '\'', '\''] ++ opening text ++ text ++ ['\'', '\'', '\'']

/-- A text as a quoted string. -/
def write (text : List Char) : List Char := (Way.ofText text).quote text

end Quoted
end Toml
end DesignTokens
