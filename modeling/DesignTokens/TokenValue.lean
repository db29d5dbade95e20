import DesignTokens.Json.Writer
import DesignTokens.Reference

/-!
# Token values

The value of a token is classified once, when its JSON text is taken in: strings that carry the
reference marker become references, other strings stay opaque text, and arrays and objects are
kept whole.
-/

namespace DesignTokens

/-- The value of a token. -/
inductive TokenValue where
  /-- A number, declared in pixels. -/
  | number (value : JsonNumber)
  /-- Opaque text. -/
  | text (value : String)
  /-- A pointer to another token. -/
  | reference (target : Reference)
  | bool (value : Bool)
  | null
  /-- An array or object in the place of a value. -/
  | composite (json : Json)
  deriving DecidableEq, Repr

namespace TokenValue

/-- The token value of a JSON value, where `marker` opens references. -/
def ofJson (marker : String) : Json → TokenValue
  | .number value => .number value
  | .string value =>
      match Reference.parse? marker value with
      | some target => .reference target
      | none => .text value
  | .bool value => .bool value
  | .null => .null
  | .array items => .composite (.array items)
  | .object members => .composite (.object members)

/-- The value as text without any unit. -/
def literal (separator : String) : TokenValue → String
  | .number value => value.toText
  | .text value => value
  | .reference target => target.path separator
  | .bool value => if value then "true" else "false"
  | .null => "null"
  | .composite json => json.compact

end TokenValue
end DesignTokens
