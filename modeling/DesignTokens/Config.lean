import DesignTokens.Fields

/-!
# Naming configuration

Every generated name starts with a namespace that is derived from one root.  Downstream
stylesheets depend on these names, so the defaults are fixed.
-/

namespace DesignTokens

/-- The namespaces of generated names. -/
structure Namespaces where
  /-- The namespace whose names group palette tokens. -/
  palette : String
  /-- The namespace under which palette tokens are declared and referred to. -/
  paletteScale : String
  /-- The namespace of common tokens. -/
  common : String
  /-- The namespace of component tokens. -/
  component : String
  deriving DecidableEq, Repr

/-- The namespaces derived from a root. -/
def Namespaces.ofRoot (root : String) : Namespaces where
  palette := "--" ++ root ++ "-token"
  paletteScale := "--" ++ root ++ "-token-palette"
  common := "--" ++ root ++ "-common"
  component := "--" ++ root ++ "-component"

/-- How tokens are taken in and named. -/
structure Config where
  /-- The root of all namespaces, without leading dashes. -/
  root : String := "dm"
  /-- What stands between the segments of a name. -/
  separator : String := "-"
  /-- The field that makes an object a token. -/
  leafField : String := "value"
  /-- The marker that opens a reference. -/
  marker : String := "cabin x theme.cabin x"
  /-- The common categories in the order of their tokens. -/
  categories : List String := ["background", "font-color", "border"]
  deriving DecidableEq, Repr

namespace Config

/-- The namespaces of a configuration. -/
def namespaces (config : Config) : Namespaces := Namespaces.ofRoot config.root

/-- The configuration in a written record. -/
def ofFields? {υ : Type} (fields : Fields υ) : Option Config := do
  let default : Config := {}
  return {
    root := ← fields.text "prefix" 0 default.root
    separator := ← fields.text "separator" 1 default.separator
    leafField := ← fields.text "leaf_field" 2 default.leafField
    marker := ← fields.text "reference_marker" 3 default.marker
    categories := ← fields.texts "common_categories" 4 default.categories }

/-- The configuration in a JSON value. -/
def ofJson? (json : Json) : Option Config :=
  (Fields.ofJson? 5 json).bind ofFields?

end Config
end DesignTokens
