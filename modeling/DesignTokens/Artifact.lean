import DesignTokens.CompiledTheme
import DesignTokens.Path

/-!
# Artifacts

A compiled theme is written to four files, two per stylesheet.  Their names are made from the
name of the theme, which therefore has to be a plain file name.
-/

namespace DesignTokens

/-- Where the files of a theme go. -/
structure Layout where
  /-- The directory of the palette stylesheets. -/
  paletteDir : String := "palette"
  /-- The directory of the component stylesheets. -/
  componentsDir : String := "components"
  /-- The file name extension of stylesheets. -/
  extension : String := "scss"
  deriving DecidableEq, Repr

namespace Layout

/-- The layout in a written record. -/
def ofFields? {υ : Type} (fields : Fields υ) : Option Layout := do
  let default : Layout := {}
  return {
    paletteDir := ← fields.text "palette_dir" 0 default.paletteDir
    componentsDir := ← fields.text "components_dir" 1 default.componentsDir
    extension := ← fields.text "stylesheet_ext" 2 default.extension }

/-- The layout in a JSON value. -/
def ofJson? (json : Json) : Option Layout :=
  (Fields.ofJson? 3 json).bind ofFields?

end Layout

/-- A file to be written. -/
structure Artifact where
  /-- The path of the file below the root of its destination. -/
  path : Path
  /-- The content of the file. -/
  content : String
  deriving DecidableEq, Repr

namespace Artifact

/-- Whether a name is one plain component and has no slash of either direction. -/
def isPlainName (name : String) : Bool :=
  !name.toList.contains '/' && !name.toList.contains '\\' &&
    (⟨name⟩ : Path).components = [.normal name]

/-- The stylesheet and the value map of a stylesheet in its directory. -/
def ofStylesheet (layout : Layout) (directory name : String) (sheet : Stylesheet) :
    List Artifact :=
  [⟨(⟨directory⟩ : Path).join ⟨name ++ "." ++ layout.extension⟩, sheet.text⟩,
    ⟨(⟨directory⟩ : Path).join ⟨name ++ ".json"⟩, sheet.valuesText⟩]

end Artifact

/-- The files of a compiled theme. -/
def CompiledTheme.artifacts (layout : Layout) (compiled : CompiledTheme) :
    Except TokenError (List Artifact) :=
  if Artifact.isPlainName compiled.name then
    .ok (Artifact.ofStylesheet layout layout.paletteDir compiled.name compiled.palette ++
      Artifact.ofStylesheet layout layout.componentsDir compiled.name compiled.components)
  else .error (.invalidThemeName compiled.name)

end DesignTokens
