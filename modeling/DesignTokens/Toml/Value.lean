import DesignTokens.Double
import DesignTokens.OrderedMap

/-!
# TOML values

Tables keep the order in which their keys were written.  Dates and times are kept as they were
written.
-/

namespace DesignTokens

/-- A TOML number with a fraction or an exponent, or one of the special numbers. -/
inductive TomlFloat where
  | finite (value : Double)
  | infinite (negative : Bool)
  | undefined
  deriving DecidableEq, Repr

/-- A TOML value. -/
inductive Toml where
  | string (value : String)
  | integer (value : Int)
  | float (value : TomlFloat)
  | bool (value : Bool)
  /-- A date, a time or both, as written. -/
  | dateTime (text : String)
  | array (items : List Toml)
  | table (members : List (String × Toml))
  deriving Repr

namespace Toml

instance : Inhabited Toml := ⟨.table []⟩

/-- The value of a table under a key. -/
def get? (value : Toml) (key : String) : Option Toml :=
  match value with
  | .table members => Entries.get? key members
  | _ => none

/-- The text of a string. -/
def text? : Toml → Option String
  | .string value => some value
  | _ => none

/-- The texts of an array of strings. -/
def texts? : Toml → Option (List String)
  | .array items => items.mapM text?
  | _ => none

end Toml
end DesignTokens
