import DesignTokens.Config
import DesignTokens.TokenTree

/-!
# Sections of a stylesheet

A section declares the tokens of one kind in order.  Numbers are declared in pixels, references as
`var(…)` of the name they point at, and everything else as literal text.  A header stands in front
of a declaration whenever its label changes: the value map and the reference map of the section
hold the bare values and targets for tooling.
-/

namespace DesignTokens

/-- The kinds of sections. -/
inductive SectionKind where
  | palette
  | common
  /-- Component tokens, grouped by component and then by property. -/
  | component
  deriving DecidableEq, Repr

/-- The namespace that is taken off a name before its labels are read. -/
def SectionKind.stem (kind : SectionKind) (spaces : Namespaces) : String :=
  match kind with
  | .palette => spaces.palette
  | .common => spaces.common
  | .component => spaces.component

namespace Reference

/--
The namespace that a reference points into.  Palette paths point into the palette scale from
anywhere, and so does every path from a palette token; all others point at common tokens.
-/
def targetSpace (reference : Reference) (kind : SectionKind) (spaces : Namespaces) : String :=
  if reference.targetsPalette then spaces.paletteScale
  else
    match kind with
    | .palette => spaces.paletteScale
    | .common => spaces.common
    | .component => spaces.common

/-- The name that a reference points at. -/
def target (reference : Reference) (kind : SectionKind) (config : Config) : String :=
  reference.targetSpace kind config.namespaces ++ config.separator ++
    reference.path config.separator

end Reference

/-- A declared token. -/
structure Declaration where
  /-- The declared name. -/
  name : String
  /-- The literal value, or the name that a reference points at. -/
  value : String
  /-- Whether the value is the target of a reference. -/
  isReference : Bool
  deriving DecidableEq, Repr

namespace Declaration

/-- The value that a token has in the value map of its section. -/
def valueOf (kind : SectionKind) (config : Config) : TokenValue → String
  | .number value => value.toText ++ "px"
  | .reference target => target.target kind config
  | value => value.literal config.separator

/-- The target of a token that is a reference. -/
def targetOf? (kind : SectionKind) (config : Config) : TokenValue → Option String
  | .reference target => some (target.target kind config)
  | _ => none

/-- The declaration of a named token. -/
def ofToken (kind : SectionKind) (config : Config) (token : String × TokenValue) : Declaration where
  name := token.1
  value := valueOf kind config token.2
  isReference := (targetOf? kind config token.2).isSome

/-- The declared text. -/
def declared (declaration : Declaration) : String :=
  if declaration.isReference then "var(" ++ declaration.value ++ ")" else declaration.value

/-- The line of a declaration. -/
def line (declaration : Declaration) : String :=
  declaration.name ++ ": " ++ declaration.declared ++ ";\n"

end Declaration

/-- Declarations of one kind as text and as maps. -/
structure Section where
  /-- The declaration lines with headers between them. -/
  text : String
  /-- The value of every name; references by the bare name of their target. -/
  values : OrderedMap String String
  /-- The target of every name that is declared as a reference. -/
  references : OrderedMap String String
  deriving DecidableEq

namespace Section

/-- The header in front of the declarations with a label. -/
def header (label : String) : String :=
  "\n/* ----------- " ++ label ++ " -----------*/\n"

/-- The segment of a name at a position, counted behind the namespace of its section. -/
def label? (stem separator name : String) (position : Nat) : Option String :=
  (Text.split separator (Text.eraseFirst stem name))[position]?

/-- The labels that the declarations so far were last filed under. -/
structure Labels where
  /-- The last component. -/
  component : Option String
  /-- The last group of properties or tokens. -/
  group : Option String
  deriving DecidableEq, Repr

/-- Labels before the first declaration. -/
def Labels.start : Labels := ⟨none, none⟩

/-- The labels of a name; only component tokens are filed under a component. -/
def labels (kind : SectionKind) (config : Config) (name : String) : Labels :=
  let label? := label? (kind.stem config.namespaces) config.separator name
  ⟨if kind = .component then label? 1 else none, label? 2⟩

/-- The header that a label needs behind the last one. -/
def headerAfter (last label : Option String) : String :=
  match label with
  | none => ""
  | some text => if last = some text then "" else header text

/-- Labels in effect after a declaration; a missing label leaves the last one. -/
def Labels.after (last labels : Labels) : Labels :=
  ⟨labels.component.or last.component, labels.group.or last.group⟩

/-- The text that a declaration adds behind the last labels. -/
def entryText (last labels : Labels) (declaration : Declaration) : String :=
  headerAfter last.component labels.component ++ headerAfter last.group labels.group ++
    declaration.line

/-- The texts of declarations in order, behind the last labels. -/
def entryTexts (kind : SectionKind) (config : Config) (last : Labels) :
    List Declaration → List String
  | [] => []
  | declaration :: declarations =>
      let labels := labels kind config declaration.name
      entryText last labels declaration :: entryTexts kind config (last.after labels) declarations

/-- The section of flat tokens. -/
def resolve (kind : SectionKind) (config : Config) (tokens : FlatTokens) : Section where
  text := String.join (entryTexts kind config .start
    (tokens.entries.map (Declaration.ofToken kind config)))
  values := tokens.mapValues (Declaration.valueOf kind config)
  references := tokens.filterMapValues (Declaration.targetOf? kind config)

end Section
end DesignTokens
