import DesignTokens.Section

/-!
# Stylesheets

A stylesheet wraps sections into one root block under banners.  Its value map and reference map
are those of its sections, a later section replacing entries of an earlier one under the same
name.
-/

namespace DesignTokens

/-- The content of one stylesheet and of the value map beside it. -/
structure Stylesheet where
  /-- The text of the stylesheet. -/
  text : String
  /-- The value of every declared name. -/
  values : OrderedMap String String
  /-- The target of every name that is declared as a reference. -/
  references : OrderedMap String String
  deriving DecidableEq

namespace Stylesheet

/-- The banner above a section. -/
def banner (title : String) : String :=
  "/***************** " ++ title ++ " *************************/"

/-- One root block around lines. -/
def rootBlock (lines : List String) : String :=
  "\n:root,:host\x7b\n" ++ String.join (lines.map fun line => line ++ "\n") ++ "\x7d\n"

/-- The declarations of font metrics, which are written as they are. -/
def fontText (font : OrderedMap String String) : String :=
  String.join (font.entries.map fun entry => entry.1 ++ ": " ++ entry.2 ++ ";\n")

/-- The stylesheet of the palette, common and font declarations. -/
def ofShared (config : Config) (palette common : FlatTokens) (font : OrderedMap String String) :
    Stylesheet :=
  let palette := Section.resolve .palette config palette
  let common := Section.resolve .common config common
  { text := rootBlock [banner "palette", palette.text, banner "common", common.text,
      banner "font", fontText font]
    values := (palette.values.merge common.values).merge font
    references := palette.references.merge common.references }

/-- The stylesheet of the component declarations. -/
def ofComponents (config : Config) (components : FlatTokens) : Stylesheet :=
  let components := Section.resolve .component config components
  { text := rootBlock [banner "components", components.text]
    values := components.values
    references := components.references }

/-- A map of texts as a JSON object. -/
def mapJson (map : OrderedMap String String) : Json :=
  .object (map.entries.map fun entry => (entry.1, .string entry.2))

/-- The value map as JSON text. -/
def valuesText (sheet : Stylesheet) : String :=
  (mapJson sheet.values).compact

/-- The text and the value map as one JSON object. -/
def toJson (sheet : Stylesheet) : Json :=
  .object [("text", .string sheet.text), ("values", mapJson sheet.values)]

end Stylesheet
end DesignTokens
