import DesignTokens.Json.Value

/-!
# Fields of a settings record

Settings are records whose fields all have defaults.  A record is written as a table of named
fields, where unknown names mean nothing, or as a list of its fields in order.  `Fields` is that
choice made by the format at hand; a field that is there but has the wrong type spoils the record.
-/

namespace DesignTokens

/-- The fields of one written record over a format with values in `υ`. -/
structure Fields (υ : Type) where
  /-- The value of a field, known by its name and its position. -/
  value? : String → Nat → Option υ
  /-- The text of a value that is text. -/
  text? : υ → Option String
  /-- The texts of a value that is a list of texts. -/
  texts? : υ → Option (List String)

namespace Fields

variable {υ : Type}

/-- The text of a field, or its default. -/
def text (fields : Fields υ) (name : String) (position : Nat) (default : String) : Option String :=
  match fields.value? name position with
  | some value => fields.text? value
  | none => some default

/-- The texts of a field, or their default. -/
def texts (fields : Fields υ) (name : String) (position : Nat) (default : List String) :
    Option (List String) :=
  match fields.value? name position with
  | some value => fields.texts? value
  | none => some default

/-- The text of a JSON string. -/
def jsonText? : Json → Option String
  | .string value => some value
  | _ => none

/-- The texts of a JSON array of strings. -/
def jsonTexts? : Json → Option (List String)
  | .array items => items.mapM jsonText?
  | _ => none

/-- The fields of a record of at most `size` fields that is written as a JSON value. -/
def ofJson? (size : Nat) : Json → Option (Fields Json)
  | .object members => some ⟨fun name _ => Entries.get? name members, jsonText?, jsonTexts?⟩
  | .array items =>
      if items.length ≤ size then some ⟨fun _ position => items[position]?, jsonText?, jsonTexts?⟩
      else none
  | _ => none

end Fields
end DesignTokens
