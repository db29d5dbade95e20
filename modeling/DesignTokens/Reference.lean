import DesignTokens.Text.Pieces

/-!
# References between tokens

A reference names another token by its path behind a marker, written as the marker, a point and
the segments of the path with points between them, all in braces.  Every other text in which the
marker is followed by a point is taken for a reference too: braces and marker occurrences are
dropped and the rest is the path.
-/

namespace DesignTokens

/-- A pointer to another token. -/
structure Reference where
  /-- The keys from the root of the theme to the token. -/
  segments : List String
  deriving DecidableEq, Repr

namespace Reference

/-- The marker with the point that a path stands behind. -/
def lead (marker : String) : String := marker ++ "."

/-- Whether a character is a brace. -/
def isBrace (c : Char) : Bool := c = '{' || c = '}'

/-- What stands between an opening brace in front and a closing brace at the end. -/
def braced? : List Char → Option (List Char)
  | '{' :: text => if text.getLast? = some '}' then some text.dropLast else none
  | _ => none

/-- The path of a text in the written form, free of braces and of further markers. -/
def strictPath? (marker raw : String) : Option String := do
  let inner ← braced? raw.toList
  let path ← Text.after? (lead marker).toList inner
  if path.isEmpty || path.any isBrace || Text.occurs (lead marker).toList path then none
  else some (String.ofList path)

/-- What is left of a text without braces and marker occurrences. -/
def looseText (marker raw : String) : String :=
  Text.erase (lead marker) (String.ofList (raw.toList.filter fun c => !isBrace c))

/-- The reference with the given dotted path. -/
def ofDotted (path : String) : Reference := ⟨Text.split "." path⟩

/-- The reference that a text holds behind a marker; an empty marker marks nothing. -/
def parse? (marker raw : String) : Option Reference :=
  if marker = "" ∨ Text.contains raw (lead marker) = false then none
  else some (ofDotted ((strictPath? marker raw).getD (looseText marker raw)))

/-- The segments with a separator between them. -/
def path (reference : Reference) (separator : String) : String :=
  separator.intercalate reference.segments

/-- The written form of a reference behind a marker. -/
def written (marker : String) (reference : Reference) : String :=
  "\x7b" ++ lead marker ++ reference.path "." ++ "\x7d"

/-- Whether the path starts at the palette. -/
def targetsPalette (reference : Reference) : Bool :=
  reference.segments.head? = some "palette"

end Reference
end DesignTokens
