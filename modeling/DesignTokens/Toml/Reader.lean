import DesignTokens.Toml.Scalar
import DesignTokens.Toml.Tables

/-!
# Reading TOML

A document is a list of statements, one a line: pairs of a key and a value, headers of tables and
headers of elements.  Arrays may spread over lines, tables in braces may not, and at most 79 of
both nest.  Reading finds the statements first and builds the tables from them afterwards.
-/

namespace DesignTokens
namespace Toml
namespace Reader

/-! ## Between values -/

/-- The text without the blanks in front. -/
def skipBlanks (text : List Char) : List Char := text.dropWhile isBlank

/-- The text without blanks, line breaks and comments in front, perhaps inside a comment. -/
def skipLines (comment : Bool) : List Char → List Char
  | [] => []
  | c :: rest =>
      if comment && isPlain c then skipLines true rest
      else if isBlank c || c = '\n' then skipLines false rest
      else if c = '#' then skipLines true rest
      else if c = '\r' then
        match rest with
        | [] => [c]
        | d :: rest => if d = '\n' then skipLines false rest else c :: d :: rest
      else c :: rest

/-- The text without a comment in front. -/
def skipComment : List Char → List Char
  | [] => []
  | c :: rest => if c = '#' then rest.dropWhile isPlain else c :: rest

/-- The text behind the end of a line, where blanks and a comment may come first. -/
def lineEnd? (text : List Char) : Option (List Char) :=
  let rest := skipComment (skipBlanks text)
  if rest.isEmpty then some [] else lineBreak? rest

/-! ## Keys -/

/-- Whether a character can stand in a bare key. -/
def isKeyChar (c : Char) : Bool := c.isAlphanum || c = '_' || c = '-'

/-- One key, bare or in quotes. -/
def simpleKey? (text : List Char) : Option (String × List Char) :=
  if text.head? = some '"' ∨ text.head? = some '\'' then
    (Quoted.readLine? text).map fun step => (String.ofList step.1, step.2)
  else
    let name := text.takeWhile isKeyChar
    if name.isEmpty then none else some (String.ofList name, text.dropWhile isKeyChar)

/-- At most `count` keys with points between them and blanks around them. -/
def keys? : Nat → List Char → Option (List String × List Char)
  | 0, _ => none
  | count + 1, text => do
      let (name, text) ← simpleKey? (skipBlanks text)
      match skipBlanks text with
      | '.' :: text => do
          let (names, text) ← keys? count text
          return (name :: names, text)
      | text => return ([name], text)

/-- The greatest depth of keys and of nested values. -/
def maxDepth : Nat := 79

/-- The key with the given parts. -/
def keyOf? (names : List String) : Option Key :=
  names.getLast?.map fun name => ⟨names.dropLast, name⟩

/-- A key, which may be dotted. -/
def key? (text : List Char) : Option (Key × List Char) := do
  let (names, text) ← keys? maxDepth text
  let key ← keyOf? names
  return (key, text)

/-! ## Values -/

mutual

/-- A value with at most `depth` arrays and tables nested in it. -/
def value? : Nat → Nat → List Char → Option (Toml × List Char)
  | 0, _, _ => none
  | fuel + 1, depth, text =>
      match text with
      | [] => none
      | c :: rest =>
          if c = '"' ∨ c = '\'' then
            (Quoted.read? (c :: rest)).map fun step => (.string (String.ofList step.1), step.2)
          else if c = '[' then
            match depth with
            | 0 => none
            | depth + 1 => (items? fuel depth rest).map fun step => (.array step.1, step.2)
          else if c = '{' then
            match depth with
            | 0 => none
            | depth + 1 => do
                let (pairs, text) ←
                  match skipBlanks rest with
                  | '}' :: text => some ([], text)
                  | text => pairs? fuel depth text
                let table ← ofPairs? pairs
                return (table, text)
          else Scalar.read? (c :: rest)

/-- The items of an array, a comma being allowed behind the last one, with the closing bracket. -/
def items? : Nat → Nat → List Char → Option (List Toml × List Char)
  | 0, _, _ => none
  | fuel + 1, depth, text =>
      match skipLines false text with
      | ']' :: text => some ([], text)
      | text => do
          let (item, text) ← value? fuel depth text
          match skipLines false text with
          | ',' :: text => do
              let (items, text) ← items? fuel depth text
              return (item :: items, text)
          | ']' :: text => return ([item], text)
          | _ => none

/-- The pairs of a table that is not empty, with the closing brace. -/
def pairs? : Nat → Nat → List Char → Option (List Pair × List Char)
  | 0, _, _ => none
  | fuel + 1, depth, text => do
      let (key, text) ← key? text
      let text ← Scalar.mark? '=' text
      let (value, text) ← value? fuel depth (skipBlanks text)
      match skipBlanks text with
      | ',' :: text => do
          let (pairs, text) ← pairs? fuel depth text
          return (⟨key, value⟩ :: pairs, text)
      | '}' :: text => return ([⟨key, value⟩], text)
      | _ => none

end

/-! ## Statements -/

/-- A statement of a document. -/
inductive Statement where
  | pair (pair : Pair)
  | header (header : Header)

/-- Fuel for the values in a text: of two nested calls at least one takes a character. -/
def fuelFor (text : List Char) : Nat := 2 * text.length + 2

/-- A statement, which starts with neither a blank nor a comment. -/
def statement? (text : List Char) : Option (Statement × List Char) :=
  match text with
  | '[' :: '[' :: text => do
      let (key, text) ← key? text
      let text ← Text.after? [']', ']'] text
      return (.header (.element key), text)
  | '[' :: text => do
      let (key, text) ← key? text
      let text ← Scalar.mark? ']' text
      return (.header (.table key), text)
  | text => do
      let (key, text) ← key? text
      let text ← Scalar.mark? '=' text
      let text := skipBlanks text
      let (value, text) ← value? (fuelFor text) maxDepth text
      return (.pair ⟨key, value⟩, text)

/-- The statements of a text; every step takes a character, which bounds their number. -/
def statements? : Nat → List Char → Option (List Statement)
  | 0, _ => none
  | fuel + 1, text =>
      match skipLines false text with
      | [] => some []
      | text => do
          let (statement, text) ← statement? text
          let text ← lineEnd? text
          let statements ← statements? fuel text
          return statement :: statements

/-- The pairs in front of the first header, and the blocks of the headers. -/
def blocks : List Statement → List Pair × List Block
  | [] => ([], [])
  | .pair pair :: statements =>
      let (pairs, blocks) := blocks statements
      (pair :: pairs, blocks)
  | .header header :: statements =>
      let (pairs, blocks) := blocks statements
      ([], ⟨header, pairs⟩ :: blocks)

/-- The text without a byte order mark in front. -/
def skipMark : List Char → List Char
  | [] => []
  | c :: text => if c = '\ufeff' then text else c :: text

end Reader

/-- The table of a TOML document. -/
def read? (text : String) : Option Toml := do
  let chars := Reader.skipMark text.toList
  let statements ← Reader.statements? (chars.length + 1) chars
  let (pairs, blocks) := Reader.blocks statements
  ofBlocks? pairs blocks

end Toml
end DesignTokens
