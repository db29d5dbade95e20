import DesignTokens.FileAccess
import DesignTokens.ProjectConfig

/-!
# Projects on disk

A project is a directory with a settings file in it, or such a file itself.  Loading anchors the
paths of the settings at the directory of the file.  Starting a project writes the default settings
and a small token document, and leaves files that are there alone unless it is forced.
-/

namespace DesignTokens

/-- Why a project cannot be loaded or started. -/
inductive ProjectError where
  /-- A directory has no settings file. -/
  | noSettings (path : Path)
  /-- A file cannot be read. -/
  | unreadable (path : Path) (cause : FileError)
  /-- A settings file does not make sense. -/
  | malformed (path : Path)
  /-- A directory cannot be made. -/
  | uncreatable (path : Path) (cause : FileError)
  /-- A file cannot be written. -/
  | unwritable (path : Path) (cause : FileError)
  deriving DecidableEq, Repr

namespace ProjectConfig

/-- The name of the settings file. -/
def fileName : String := "cabin-tokens.toml"

end ProjectConfig

/-- The error and its cause in words. -/
def ProjectError.messages : ProjectError → List String
  | .noSettings path =>
      ["No " ++ ProjectConfig.fileName ++ " found in " ++ path.text ++
        ". Run `cabin-tokens init` to create one."]
  | .unreadable path cause => ["Failed to read " ++ path.text, cause.message]
  | .malformed path => ["Failed to parse " ++ path.text, "TOML parse error in the settings"]
  | .uncreatable path cause => ["Failed to create " ++ path.text, cause.message]
  | .unwritable path cause => ["Failed to write " ++ path.text, cause.message]

namespace Project

variable {m : Type → Type} [Monad m] [FileAccess m]

/-- The outcome of a file operation, its failure told by what was to be done. -/
def attempt {ε α : Type} (told : FileError → ε) (operation : m (Except FileError α)) :
    ExceptT ε m α :=
  ExceptT.mk do return (← operation).mapError told

/-! ## Loading -/

/-- The settings file of a project: the given file, or the one in the given directory. -/
def settingsPath (path : Path) : m Path := do
  if ← FileAccess.isFile path then return path
  else return path.join ⟨ProjectConfig.fileName⟩

/-- The configuration of a project, anchored at the directory of its settings file. -/
def load (path : Path) : ExceptT ProjectError m ProjectConfig := do
  let file ← (settingsPath path : m Path)
  unless ← (FileAccess.isPresent file : m Bool) do
    throw (.noSettings path)
  let text ← attempt (m := m) (.unreadable file) (FileAccess.read file)
  match ProjectConfig.read? text with
  | none => throw (.malformed file)
  | some project =>
      match file.parent? with
      | some base => return project.anchoredAt base
      | none => return project

/-! ## Starting -/

/-- The token document of a new project. -/
def starterTokens : String := r##"{
  "cabin x theme": {
    "light": {
      "palette": {
        "gray": {
          "10": { "value": "#fafafa" },
          "20": { "value": "#f5f5f5" }
        }
      },
      "background": {
        "page": { "color": { "value": "{cabin x theme.cabin x.palette.gray.20}" } }
      },
      "font-color": {
        "title": { "primary": { "value": "rgba(0, 0, 0, 0.88)" } }
      },
      "border": {
        "base": { "width": { "value": 1 } }
      },
      "components": {
        "button": {
          "radius": { "default": { "value": 6 } }
        }
      }
    }
  }
}
"##

/-- Write a file of a new project, unless something is there already and nothing is forced. -/
def writeNew (path : Path) (content : String) (force : Bool) : ExceptT ProjectError m Unit := do
  let present ← (FileAccess.isPresent path : m Bool)
  if present && !force then return ()
  else attempt (m := m) (.unwritable path) (FileAccess.write path content)

/-- Start a project in a directory, which is made if it is missing. -/
def init (path : Path) (force : Bool) : ExceptT ProjectError m Unit := do
  let default : ProjectConfig := {}
  attempt (m := m) (.uncreatable path) (FileAccess.createDirectories path)
  writeNew (path.join ⟨ProjectConfig.fileName⟩) default.write force
  writeNew (path.join default.input) starterTokens force

end Project
end DesignTokens
