import DesignTokens.Stylesheet
import DesignTokens.Theme

/-!
# Compiled themes

A compiled theme has one stylesheet for the palette, common and font declarations and one for the
component declarations.  A reference in either of them dangles if its target is declared in
neither.
-/

namespace DesignTokens

/-- The two stylesheets of a theme. -/
structure CompiledTheme where
  /-- The name of the theme. -/
  name : String
  /-- The palette, common and font declarations. -/
  palette : Stylesheet
  /-- The component declarations. -/
  components : Stylesheet
  deriving DecidableEq

/-- The stylesheets of a theme. -/
def Theme.compile (config : Config) (theme : Theme) : CompiledTheme where
  name := theme.name
  palette := .ofShared config (theme.paletteTokens config) (theme.commonTokens config)
    theme.font.declarations
  components := .ofComponents config (theme.componentTokens config)

/-- The stylesheets of every theme in declaration order. -/
def TokenDocument.compile (config : Config) (document : TokenDocument) : List CompiledTheme :=
  document.themes.map (Theme.compile config)

/-- A reference to a name that its theme does not declare. -/
structure DanglingReference where
  /-- The theme. -/
  theme : String
  /-- The declared name. -/
  name : String
  /-- The name it points at. -/
  target : String
  deriving DecidableEq, Repr

/-- The dangling reference as a JSON object. -/
def DanglingReference.toJson (dangling : DanglingReference) : Json :=
  .object [("theme", .string dangling.theme), ("name", .string dangling.name),
    ("target", .string dangling.target)]

namespace CompiledTheme

/-- Whether one of the stylesheets declares a name. -/
def declares (compiled : CompiledTheme) (name : String) : Bool :=
  compiled.palette.values.contains name || compiled.components.values.contains name

/-- The references of both stylesheets whose target is not declared. -/
def danglingReferences (compiled : CompiledTheme) : List DanglingReference :=
  (compiled.palette.references.entries ++ compiled.components.references.entries).filterMap
    fun reference =>
      if compiled.declares reference.2 then none
      else some ⟨compiled.name, reference.1, reference.2⟩

end CompiledTheme
end DesignTokens
