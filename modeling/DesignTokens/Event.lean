import DesignTokens.Artifact

/-!
# Events of a compilation

An event notes what a step of a compilation met or made.  The events of a document follow from the
document alone: the steps themselves stay silent, and this module says what an observer of them
would note, in order.
-/

namespace DesignTokens

/-- How much an event matters. -/
inductive Level where
  | debug
  | info
  | warn
  deriving DecidableEq, Repr

namespace Level

/-- The place of a level in the order of weight. -/
def weight : Level → Nat
  | .debug => 0
  | .info => 1
  | .warn => 2

/-- The name of a level. -/
def name : Level → String
  | .debug => "DEBUG"
  | .info => "INFO"
  | .warn => "WARN"

end Level

/-- What a step of a compilation notes. -/
inductive Event where
  /-- A document has no root key. -/
  | rootKeyAbsent (rootKey : String)
  /-- A theme has no palette. -/
  | paletteAbsent (theme : String)
  /-- A theme has no object for a common category. -/
  | categoryAbsent (theme category : String)
  /-- A theme has no components. -/
  | componentsAbsent (theme : String)
  /-- A font metric of a theme is no number. -/
  | metricMisfit (theme : String) (metric : FontMetric) (value : Json)
  /-- The palette tokens of a theme are named. -/
  | paletteNamed (theme : String) (tokens : Nat)
  /-- The common tokens of a theme are named. -/
  | commonNamed (theme : String) (tokens : Nat)
  /-- The component tokens of a theme are named. -/
  | componentsNamed (theme : String) (tokens : Nat)
  /-- A section is resolved. -/
  | resolved (kind : SectionKind) (declarations references : Nat)
  /-- A theme is compiled, with the sizes of its two value maps. -/
  | compiled (theme : String) (palette components : Nat)
  /-- A theme name is refused as a file name. -/
  | nameRefused (theme : String)
  deriving DecidableEq

/-- The word for a kind of section in events. -/
def SectionKind.word : SectionKind → String
  | .palette => "Palette"
  | .common => "Common"
  | .component => "Both"

namespace Event

/-- The level of an event. -/
def level : Event → Level
  | .rootKeyAbsent .. => .debug
  | .paletteAbsent .. => .warn
  | .categoryAbsent .. => .warn
  | .componentsAbsent .. => .warn
  | .metricMisfit .. => .warn
  | .paletteNamed .. => .debug
  | .commonNamed .. => .debug
  | .componentsNamed .. => .debug
  | .resolved .. => .debug
  | .compiled .. => .info
  | .nameRefused .. => .warn

/-- The message of an event. -/
def message : Event → String
  | .rootKeyAbsent .. => "root key absent, using whole document as theme set"
  | .paletteAbsent .. => "theme has no palette"
  | .categoryAbsent .. => "common category missing"
  | .componentsAbsent .. => "theme has no components"
  | .metricMisfit .. => "font metric is not a number, using default"
  | .paletteNamed .. => "formatted palette"
  | .commonNamed .. => "formatted common tokens"
  | .componentsNamed .. => "formatted component tokens"
  | .resolved .. => "resolved token section"
  | .compiled .. => "compiled theme"
  | .nameRefused .. => "refusing theme name as file name"

/-- The named details of an event. -/
def details : Event → List (String × String)
  | .rootKeyAbsent rootKey => [("root_key", rootKey)]
  | .paletteAbsent theme => [("theme", theme)]
  | .categoryAbsent theme category => [("theme", theme), ("category", category)]
  | .componentsAbsent theme => [("theme", theme)]
  | .metricMisfit theme metric value =>
      [("theme", theme), ("field", metric.field), ("value", value.compact)]
  | .paletteNamed theme tokens => [("theme", theme), ("tokens", toString tokens)]
  | .commonNamed theme tokens => [("theme", theme), ("tokens", toString tokens)]
  | .componentsNamed theme tokens => [("theme", theme), ("tokens", toString tokens)]
  | .resolved kind declarations references =>
      [("kind", kind.word), ("declarations", toString declarations),
        ("references", toString references)]
  | .compiled theme palette components =>
      [("theme", theme), ("palette", toString palette), ("components", toString components)]
  | .nameRefused theme => [("theme", theme)]

/-- Whether an event is at or above a level. -/
def reaches (least : Level) (event : Event) : Bool := least.weight ≤ event.level.weight

/-- The event of an optional part, when a theme lacks it. -/
def absence (theme : Json) (key : String) (event : Event) : List Event :=
  if (theme.get? key).isSome then [] else [event]

/-- The events of taking in one theme. -/
def ofTheme (config : Config) (name : String) (theme : Json) : List Event :=
  absence theme "palette" (.paletteAbsent name) ++
    (config.categories.filter fun category =>
      (Theme.groups? config theme category).isNone).map (.categoryAbsent name) ++
    absence theme "components" (.componentsAbsent name) ++
    (FontMetrics.misfits theme).map fun misfit => .metricMisfit name misfit.1 misfit.2

/-- The events of taking in themes, up to the first that is no object. -/
def ofThemes (config : Config) : List (String × Json) → List Event
  | [] => []
  | (name, theme) :: themes =>
      if theme.kind = .object then ofTheme config name theme ++ ofThemes config themes else []

/-- The event of a document that lacks its root key. -/
def ofRoot (rootKey : String) (document : Json) : List Event :=
  if document.kind = .object ∧ (document.get? rootKey).isNone then [.rootKeyAbsent rootKey] else []

/-- The events of taking in a document. -/
def ofDocument (rootKey : String) (config : Config) (document : Json) : List Event :=
  ofRoot rootKey document ++
    match TokenDocument.themeSet rootKey document with
    | .ok themes => ofThemes config themes
    | .error _ => []

/-- The event of resolving a section. -/
def ofSection (kind : SectionKind) (config : Config) (tokens : FlatTokens) : Event :=
  let result := Section.resolve kind config tokens
  .resolved kind result.values.size result.references.size

/-- The events of compiling a theme. -/
def ofCompilation (config : Config) (theme : Theme) : List Event :=
  let palette := theme.paletteTokens config
  let common := theme.commonTokens config
  let components := theme.componentTokens config
  let compiled := theme.compile config
  [.paletteNamed theme.name palette.size, .commonNamed theme.name common.size,
    .componentsNamed theme.name components.size, ofSection .palette config palette,
    ofSection .common config common, ofSection .component config components,
    .compiled theme.name compiled.palette.values.size compiled.components.values.size]

/-- The event of a theme whose name is no file name. -/
def ofName (theme : Theme) : List Event :=
  if Artifact.isPlainName theme.name then [] else [.nameRefused theme.name]

/-- The events of a whole run: taking in, compiling every theme, then making all artifacts. -/
def ofRun (rootKey : String) (config : Config) (document : Json) : List Event :=
  ofDocument rootKey config document ++
    match TokenDocument.ofJson rootKey config document with
    | .ok tokens => tokens.themes.flatMap (ofCompilation config) ++ tokens.themes.flatMap ofName
    | .error _ => []

end Event
end DesignTokens
