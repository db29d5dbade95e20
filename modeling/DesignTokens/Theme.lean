import DesignTokens.Config
import DesignTokens.FontMetrics
import DesignTokens.TokenTree

/-!
# Themes

A theme is split into its palette, its common categories, its components and its font metrics.
Missing parts hold no tokens; only a theme that is no object is refused.  A token document is an
object of themes, either itself or under a root key.
-/

namespace DesignTokens

/-- A named set of tokens. -/
structure Theme where
  /-- The name of the theme. -/
  name : String
  /-- The colour scales. -/
  palette : TokenTree
  /-- The groups of every common category, in configured order. -/
  common : OrderedMap String (OrderedMap String TokenTree)
  /-- The tokens of the components. -/
  components : TokenTree
  /-- The font sizes and line heights. -/
  font : FontMetrics

/-- Why a token document cannot be compiled. -/
inductive TokenError where
  /-- The document, or the value under its root key, is no object. -/
  | notAnObject (found : Json.Kind)
  /-- A theme is no object. -/
  | invalidTheme (name : String)
  /-- A theme name cannot be used as a file name. -/
  | invalidThemeName (name : String)
  /-- The document is not JSON. -/
  | json (cause : Json.ReadError)
  deriving DecidableEq, Repr

/-- The error in words. -/
def TokenError.message : TokenError → String
  | .notAnObject found => "token document must be a JSON object, found " ++ found.description
  | .invalidTheme name => "theme `" ++ name ++ "` must be a JSON object"
  | .invalidThemeName name => "theme name `" ++ name ++ "` is not a plain file name"
  | .json cause => "invalid token JSON: " ++ cause.message

namespace Theme

/-- The tree of an optional part of a theme. -/
def part (config : Config) (theme : Json) (key : String) : TokenTree :=
  match theme.get? key with
  | some value => TokenTree.ofJson config.leafField config.marker value
  | none => .empty

/-- The groups of a common category, which must be an object; every member of it is a group. -/
def groups? (config : Config) (theme : Json) (category : String) :
    Option (OrderedMap String TokenTree) :=
  match theme.get? category with
  | some (.object groups) =>
      some (OrderedMap.ofList (groups.map fun group =>
        (group.1, TokenTree.ofJson config.leafField config.marker group.2)))
  | _ => none

/-- The theme of a JSON object. -/
def ofJson (config : Config) (name : String) (value : Json) : Except TokenError Theme :=
  match value with
  | .object members =>
      let theme := Json.object members
      .ok {
        name
        palette := part config theme "palette"
        common := OrderedMap.ofList (config.categories.filterMap fun category =>
          (groups? config theme category).map fun groups => (category, groups))
        components := part config theme "components"
        font := FontMetrics.ofTheme theme }
  | _ => .error (.invalidTheme name)

/-- The palette tokens under the palette scale. -/
def paletteTokens (config : Config) (theme : Theme) : FlatTokens :=
  theme.palette.flatten config.separator config.namespaces.paletteScale

/-- The name of a group of a common category. -/
def groupName (config : Config) (category group : String) : String :=
  config.namespaces.common ++ config.separator ++ category ++ config.separator ++ group

/-- The tokens of every group of every common category, later ones winning. -/
def commonTokens (config : Config) (theme : Theme) : FlatTokens :=
  theme.common.entries.foldl (fun tokens category =>
    category.2.entries.foldl (fun tokens group =>
      tokens.merge (group.2.flatten config.separator (groupName config category.1 group.1)))
      tokens) .empty

/-- The component tokens under the component namespace. -/
def componentTokens (config : Config) (theme : Theme) : FlatTokens :=
  theme.components.flatten config.separator config.namespaces.component

end Theme

/-- The themes of a token document in declaration order. -/
structure TokenDocument where
  /-- The themes in declaration order. -/
  themes : List Theme

namespace TokenDocument

/-- The root key of documents that name none. -/
def defaultRootKey : String := "cabin x theme"

/-- The members of the theme set: the object under the root key, or else the whole document. -/
def themeSet (rootKey : String) : Json → Except TokenError (List (String × Json))
  | .object members =>
      match Entries.get? rootKey members with
      | some (.object set) => .ok set
      | some other => .error (.notAnObject other.kind)
      | none => .ok members
  | other => .error (.notAnObject other.kind)

/-- The document of a JSON value. -/
def ofJson (rootKey : String) (config : Config) (json : Json) :
    Except TokenError TokenDocument := do
  let set ← themeSet rootKey json
  let themes ← set.mapM fun entry => Theme.ofJson config entry.1 entry.2
  return ⟨themes⟩

/-- The document of a JSON text. -/
def read (rootKey : String) (config : Config) (text : String) :
    Except TokenError TokenDocument :=
  match Json.read text with
  | .ok json => ofJson rootKey config json
  | .error cause => .error (.json cause)

end TokenDocument
end DesignTokens
