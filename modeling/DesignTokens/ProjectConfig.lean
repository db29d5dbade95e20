import DesignTokens.Artifact
import DesignTokens.Toml.Reader
import DesignTokens.Toml.Writer

/-!
# Project configuration

A project says where its token document is, where the generated files go and how tokens are named.
It is kept in a settings file of three sections, each of which may leave out what it does not
change.
-/

namespace DesignTokens

namespace Fields

/-- The fields of a record that is a table; a date says nothing about any field. -/
def ofTomlTable? : Toml → Option (Fields Toml)
  | .table members => some ⟨fun name _ => Entries.get? name members, Toml.text?, Toml.texts?⟩
  | .dateTime _ => some ⟨fun _ _ => none, Toml.text?, Toml.texts?⟩
  | _ => none

/-- The fields of a record that is a table, or an array of its fields in order. -/
def ofToml? : Toml → Option (Fields Toml)
  | .array items => some ⟨fun _ position => items[position]?, Toml.text?, Toml.texts?⟩
  | value => ofTomlTable? value

end Fields

/-- Where a project takes its tokens from and what becomes of them. -/
structure ProjectConfig where
  /-- The path of the token document. -/
  input : Path := ⟨"token.json"⟩
  /-- The key of the theme set in the document. -/
  rootKey : String := TokenDocument.defaultRootKey
  /-- The directory below which files are generated. -/
  output : Path := ⟨"."⟩
  /-- Where the files of a theme go. -/
  layout : Layout := {}
  /-- How tokens are taken in and named. -/
  tokens : Config := {}
  deriving DecidableEq, Repr

namespace ProjectConfig

/-- Whether two configurations agree, with their paths compared by components. -/
def Same (left right : ProjectConfig) : Prop :=
  left.input.Same right.input ∧ left.rootKey = right.rootKey ∧ left.output.Same right.output ∧
    left.layout = right.layout ∧ left.tokens = right.tokens

instance (left right : ProjectConfig) : Decidable (Same left right) :=
  inferInstanceAs (Decidable (_ ∧ _ ∧ _ ∧ _ ∧ _))

/-- The configuration with its paths below a directory. -/
def anchoredAt (base : Path) (project : ProjectConfig) : ProjectConfig :=
  { project with input := base.join project.input, output := base.join project.output }

/-! ## Reading -/

/-- The document and its root key from the first section. -/
def inputOf? (fields : Fields Toml) : Option (Path × String) := do
  let default : ProjectConfig := {}
  let path ← fields.text "path" 0 default.input.text
  let rootKey ← fields.text "root_key" 1 default.rootKey
  return (⟨path⟩, rootKey)

/-- The output directory and the layout from the second section. -/
def outputOf? (fields : Fields Toml) : Option (Path × Layout) := do
  let default : ProjectConfig := {}
  let path ← fields.text "dir" 0 default.output.text
  let layout ← Layout.ofFields? fields
  return (⟨path⟩, layout)

/-- A section of a settings file, or a default if it is left out. -/
def sectionOf? {α : Type} (settings : Toml) (name : String) (fields? : Toml → Option (Fields Toml))
    (read? : Fields Toml → Option α) (default : α) : Option α :=
  match settings.get? name with
  | some value => (fields? value).bind read?
  | none => some default

/-- The configuration in a table of settings. -/
def ofToml? (settings : Toml) : Option ProjectConfig := do
  let default : ProjectConfig := {}
  let (input, rootKey) ←
    sectionOf? settings "input" Fields.ofToml? inputOf? (default.input, default.rootKey)
  let (output, layout) ←
    sectionOf? settings "output" Fields.ofTomlTable? outputOf? (default.output, default.layout)
  let tokens ← sectionOf? settings "tokens" Fields.ofToml? Config.ofFields? default.tokens
  return { input, rootKey, output, layout, tokens }

/-- The configuration in the text of a settings file. -/
def read? (text : String) : Option ProjectConfig := (Toml.read? text).bind ofToml?

/-! ## Writing -/

/-- The sections of a configuration, with every setting. -/
def sections (project : ProjectConfig) : List Toml.Section :=
  [⟨"input", [("path", .text project.input.text), ("root_key", .text project.rootKey)]⟩,
    ⟨"output", [("dir", .text project.output.text),
      ("palette_dir", .text project.layout.paletteDir),
      ("components_dir", .text project.layout.componentsDir),
      ("stylesheet_ext", .text project.layout.extension)]⟩,
    ⟨"tokens", [("prefix", .text project.tokens.root),
      ("separator", .text project.tokens.separator),
      ("leaf_field", .text project.tokens.leafField),
      ("reference_marker", .text project.tokens.marker),
      ("common_categories", .texts project.tokens.categories)]⟩]

/-- The text of the settings file of a configuration. -/
def write (project : ProjectConfig) : String := Toml.writeSections project.sections

end ProjectConfig
end DesignTokens
