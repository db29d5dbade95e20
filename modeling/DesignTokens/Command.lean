import DesignTokens.Project

/-!
# Commands

Building writes the artifacts of every theme, checking reports dangling references, and starting
makes a new project.  Nothing is written before all themes are compiled and all their names are
known to be good.  The outcome of a command is what it prints and its exit code.
-/

namespace DesignTokens

/-- What can be done with a project. -/
inductive Command where
  /-- Compile all themes and write their files; input and output may be overridden. -/
  | build (path : Path) (input output : Option Path)
  /-- Report dangling references, as JSON if asked, and fail on them if strict. -/
  | check (path : Path) (input : Option Path) (json strict : Bool)
  /-- Start a project, over existing files if forced. -/
  | start (path : Path) (force : Bool)
  deriving DecidableEq, Repr

/-- Why a command fails. -/
inductive CommandError where
  /-- The project cannot be loaded or started. -/
  | project (cause : ProjectError)
  /-- The token document cannot be read. -/
  | unreadable (path : Path) (cause : FileError)
  /-- The token document cannot be compiled. -/
  | uncompilable (path : Path) (cause : TokenError)
  /-- A theme has no files. -/
  | unnamable (cause : TokenError)
  /-- Some of the artifacts are not written. -/
  | unwritten (failures : List WriteError) (total : Nat)
  /-- Some references dangle. -/
  | dangling (count : Nat)
  deriving DecidableEq, Repr

namespace CommandError

/-- The words for an error in a token document and for what is behind it. -/
def tokenMessages (error : TokenError) : List String :=
  match error with
  | .json cause => [error.message, cause.message]
  | _ => [error.message]

/-- The error in words, followed by its causes. -/
def messages : CommandError → List String
  | .project cause => cause.messages
  | .unreadable path cause => ["Failed to read " ++ path.text, cause.message]
  | .uncompilable path cause => ("Failed to load themes from " ++ path.text) :: tokenMessages cause
  | .unnamable cause => tokenMessages cause
  | .unwritten failures total =>
      [toString failures.length ++ " of " ++ toString total ++ " artifacts failed to write"]
  | .dangling count => [toString count ++ " dangling reference(s)"]

/-- The lines about single failures, which come before the error. -/
def details : CommandError → String
  | .unwritten failures _ =>
      String.join (failures.map fun failure => "error: " ++ failure.message ++ "\n")
  | _ => ""

/-- A cause behind its mark, with further lines under its text. -/
def causeText (mark message : String) : String :=
  let indentation := String.ofList (List.replicate mark.length ' ')
  mark ++ ("\n" ++ indentation).intercalate (Text.split "\n" message)

/-- Causes under each other, numbered if there is more than one. -/
def causeTexts (causes : List String) : List String :=
  match causes with
  | [cause] => [causeText "    " cause]
  | causes => causes.mapIdx fun position cause =>
      causeText ("    " ++ toString position ++ ": ") cause

/-- What is printed about the error. -/
def report (error : CommandError) : String :=
  error.details ++
    match error.messages with
    | [] => ""
    | [message] => "Error: " ++ message ++ "\n"
    | message :: causes =>
        "Error: " ++ message ++ "\n\nCaused by:\n" ++ "\n".intercalate (causeTexts causes) ++ "\n"

end CommandError

/-- What a command prints, and its exit code. -/
structure Outcome where
  /-- The exit code. -/
  code : Nat
  /-- What goes to the standard output. -/
  out : String
  /-- What goes to the standard error. -/
  err : String
  deriving DecidableEq, Repr

namespace Outcome

/-- The outcome of a success that prints a text. -/
def success (out : String) : Outcome := ⟨0, out, ""⟩

/-- The outcome of a failure behind a printed text. -/
def failure (out : String) (error : CommandError) : Outcome := ⟨1, out, error.report⟩

end Outcome

namespace Project

variable {m : Type → Type} [Monad m] [FileAccess m]

/-- Whether a project has settings. -/
def hasSettings (path : Path) : m Bool := do
  if ← FileAccess.isFile path then return true
  else FileAccess.isPresent (path.join ⟨ProjectConfig.fileName⟩)

/-- The configuration of a project, or the defaults anchored at its path if it has no settings. -/
def configuration (path : Path) (input : Option Path) : ExceptT CommandError m ProjectConfig := do
  let project ←
    if ← (hasSettings path : m Bool) then
      ExceptT.adapt CommandError.project (Project.load (m := m) path)
    else
      let default : ProjectConfig := {}
      pure (default.anchoredAt path)
  return { project with input := input.getD project.input }

/-- The compiled themes of a project. -/
def compile (project : ProjectConfig) : ExceptT CommandError m (List CompiledTheme) := do
  let text ← Project.attempt (m := m) (.unreadable project.input) (FileAccess.read project.input)
  match TokenDocument.read project.rootKey project.tokens text with
  | .ok document => return document.compile project.tokens
  | .error cause => throw (.uncompilable project.input cause)

/-- The artifacts of all themes, in order. -/
def artifacts (project : ProjectConfig) (themes : List CompiledTheme) :
    Except CommandError (List Artifact) :=
  match themes.mapM (CompiledTheme.artifacts project.layout) with
  | .ok groups => .ok groups.flatten
  | .error cause => .error (.unnamable cause)

/-- The text that a successful build prints. -/
def buildText (project : ProjectConfig) (files themes : Nat) : String :=
  "Wrote " ++ toString files ++ " files for " ++ toString themes ++ " theme(s) to " ++
    project.output.text ++ "\n"

/-- What a build is going to write. -/
structure Build where
  /-- The project with its paths as overridden. -/
  project : ProjectConfig
  /-- The compiled themes. -/
  themes : List CompiledTheme
  /-- The files of all themes. -/
  artifacts : List Artifact
  deriving DecidableEq

/-- Load a project and compile its themes; nothing is written yet. -/
def plan (path : Path) (input output : Option Path) : ExceptT CommandError m Build := do
  let project ← configuration (m := m) path input
  let project := { project with output := output.getD project.output }
  let themes ← compile (m := m) project
  let artifacts ← ExceptT.mk (pure (artifacts project themes) : m _)
  return { project, themes, artifacts }

/-- The text to print behind the reports of all writes. -/
def conclude (build : Build) (reports : List Report) : Except CommandError String :=
  let failures := reports.filterMap Report.failure
  if failures.isEmpty then .ok (buildText build.project reports.length build.themes.length)
  else .error (.unwritten failures reports.length)

/-- Write the artifacts of a project and give the text to print. -/
def build (path : Path) (input output : Option Path) : ExceptT CommandError m String := do
  let build ← plan (m := m) path input output
  let reports ← (emit (OutputRoot.write ⟨build.project.output⟩) build.artifacts : m (List Report))
  ExceptT.mk (pure (conclude build reports) : m _)

/-- A dangling reference on a line. -/
def danglingLine (dangling : DanglingReference) : String :=
  dangling.theme ++ ": " ++ dangling.name ++ " -> " ++ dangling.target ++ " (not declared)\n"

/-- The text that a check prints. -/
def checkText (json : Bool) (themes : Nat) (dangling : List DanglingReference) : String :=
  if json then (Json.array (dangling.map DanglingReference.toJson)).indented 0 ++ "\n"
  else if dangling.isEmpty then
    "No dangling references in " ++ toString themes ++ " theme(s)\n"
  else String.join (dangling.map danglingLine)

/-- The outcome of a check that found some dangling references. -/
def checkOutcome (json strict : Bool) (themes : List CompiledTheme) : Outcome :=
  let dangling := themes.flatMap CompiledTheme.danglingReferences
  let text := checkText json themes.length dangling
  if strict && !dangling.isEmpty then .failure text (.dangling dangling.length)
  else .success text

/-- The outcome of a check. -/
def check (path : Path) (input : Option Path) (json strict : Bool) :
    ExceptT CommandError m Outcome := do
  let project ← configuration (m := m) path input
  let themes ← compile (m := m) project
  return checkOutcome json strict themes

/-- An outcome, or the failure that kept it from coming about. -/
def settle (result : Except CommandError Outcome) : Outcome :=
  match result with
  | .ok outcome => outcome
  | .error error => .failure "" error

end Project

/-- Run a command. -/
def Command.run {m : Type → Type} [Monad m] [FileAccess m] : Command → m Outcome
  | .build path input output => do
      let result ← (Project.build path input output).run
      return Project.settle (result.map Outcome.success)
  | .check path input json strict => do
      let result ← (Project.check path input json strict).run
      return Project.settle result
  | .start path force => do
      let result ← (Project.init path force).run
      return Project.settle ((result.mapError .project).map fun _ => .success "")

end DesignTokens
