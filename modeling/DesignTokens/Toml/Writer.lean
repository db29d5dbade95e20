import DesignTokens.Toml.Quoted
import DesignTokens.Toml.Value

/-!
# Written settings

A settings file is a list of named sections, each with a header, a line per setting and an empty
line between it and the next.  An array of two or more texts has a line for every item.
-/

namespace DesignTokens
namespace Toml

/-- The value of a setting. -/
inductive Setting where
  | text (value : String)
  | texts (values : List String)
  deriving DecidableEq, Repr

/-- A named group of settings. -/
structure Section where
  /-- The name in the header. -/
  name : String
  /-- The settings by their names, in order. -/
  settings : List (String × Setting)
  deriving DecidableEq, Repr

namespace Setting

/-- The setting as a value. -/
def toToml : Setting → Toml
  | .text value => .string value
  | .texts values => .array (values.map .string)

/-- A text in quotes. -/
def quote (text : String) : String := String.ofList (Quoted.write text.toList)

/-- The texts of an array, on one line if there is at most one. -/
def writeTexts : List String → String
  | [] => "[]"
  | [value] => "[" ++ quote value ++ "]"
  | values => "[\n" ++ String.join (values.map fun value => "    " ++ quote value ++ ",\n") ++ "]"

/-- The setting as text. -/
def write : Setting → String
  | .text value => quote value
  | .texts values => writeTexts values

end Setting

/-- The section as a value. -/
def Section.toToml (group : Section) : Toml :=
  .table (group.settings.map fun setting => (setting.1, setting.2.toToml))

/-- The section as text. -/
def Section.write (group : Section) : String :=
  "[" ++ group.name ++ "]\n" ++
    String.join (group.settings.map fun setting => setting.1 ++ " = " ++ setting.2.write ++ "\n")

/-- Sections as the text of a settings file. -/
def writeSections (groups : List Section) : String :=
  "\n".intercalate (groups.map Section.write)

end Toml
end DesignTokens
