import DesignTokens.Command

/-!
# Command line arguments

Options have long names behind two dashes and may have short names behind one, which can be run
together.  An option that takes a value has it attached or in the next argument.  Nothing may be
given twice, two dashes alone end the options, and whatever else is unknown is a misuse.
-/

namespace DesignTokens

/-- What an option does. -/
inductive OptionKind where
  /-- It is on when it is given. -/
  | switch
  /-- It takes a value, which is a path. -/
  | path
  /-- It asks for help. -/
  | help
  /-- It asks for the version. -/
  | version
  deriving DecidableEq, Repr

/-- An option of a command. -/
structure OptionSpec where
  /-- The name behind two dashes. -/
  long : String
  /-- The name behind one dash, if it has one. -/
  short : Option Char
  /-- What it does. -/
  kind : OptionKind
  deriving DecidableEq, Repr

/-- What the arguments ask for. -/
inductive Request where
  /-- A command, with or without verbose output. -/
  | run (command : Command) (verbose : Bool)
  | help
  | version
  /-- The arguments make no sense. -/
  | misuse
  deriving DecidableEq, Repr

/-- What the arguments of one command give. -/
structure Given where
  /-- The options by their long names, with their values or with nothing. -/
  options : List (String × String) := []
  /-- The argument that is no option. -/
  path : Option String := none
  deriving DecidableEq, Repr

namespace Given

/-- Whether an option is given. -/
def has (given : Given) (name : String) : Bool := (Entries.get? name given.options).isSome

/-- The path that an option gives. -/
def pathOf (given : Given) (name : String) : Option Path :=
  (Entries.get? name given.options).map Path.mk

/-- The path argument, or the working directory. -/
def projectPath (given : Given) : Path := ⟨given.path.getD "."⟩

/-- Add an option that is not given yet, with a value. -/
def addOption (given : Given) (name value : String) : Except Request Given :=
  if given.has name then .error .misuse
  else .ok { given with options := given.options ++ [(name, value)] }

/-- Add a path that an option takes; an empty one is no path. -/
def addPathOption (given : Given) (name value : String) : Except Request Given :=
  if value = "" then .error .misuse else given.addOption name value

/-- Add the path argument, if there is none yet. -/
def addPath (given : Given) (value : String) : Except Request Given :=
  if value = "" ∨ given.path.isSome then .error .misuse
  else .ok { given with path := some value }

end Given

namespace Arguments

/-! ## Options -/

/-- The option with a long name. -/
def ofLong? (specs : List OptionSpec) (name : String) : Option OptionSpec :=
  specs.find? fun spec => spec.long = name

/-- The option with a short name. -/
def ofShort? (specs : List OptionSpec) (name : Char) : Option OptionSpec :=
  specs.find? fun spec => spec.short = some name

/-- Give an option that takes no value. -/
def giveSwitch (given : Given) (spec : OptionSpec) : Except Request Given :=
  match spec.kind with
  | .help => .error .help
  | .version => .error .version
  | _ => given.addOption spec.long ""

/--
Read short options that are run together.  A value is the rest of the run, perhaps behind an equals
sign; if nothing is left, the option waits for the next argument.
-/
def readRun (specs : List OptionSpec) (given : Given) :
    List Char → Except Request (Given × Option OptionSpec)
  | [] => .ok (given, none)
  | c :: rest =>
      match ofShort? specs c with
      | none => .error .misuse
      | some spec =>
          if spec.kind = .path then
            match rest with
            | [] => .ok (given, some spec)
            | d :: value =>
                (given.addPathOption spec.long
                  (String.ofList (if d = '=' then value else d :: value))).map (·, none)
          else
            match giveSwitch given spec with
            | .ok given => readRun specs given rest
            | .error request => .error request

/-- Read a long option without its dashes, perhaps with a value behind an equals sign. -/
def readLong (specs : List OptionSpec) (given : Given) (text : List Char) :
    Except Request (Given × Option OptionSpec) :=
  let name := text.takeWhile fun c => c ≠ '='
  let attached := text.dropWhile fun c => c ≠ '='
  match ofLong? specs (String.ofList name) with
  | none => .error .misuse
  | some spec =>
      if spec.kind = .path then
        if attached.isEmpty then .ok (given, some spec)
        else (given.addPathOption spec.long (String.ofList (attached.drop 1))).map (·, none)
      else if attached.isEmpty then (giveSwitch given spec).map (·, none)
      else .error .misuse

/-- Whether an argument is read as options. -/
def isOption (argument : String) : Bool :=
  argument.toList.head? = some '-' && argument ≠ "-"

/-- Read an argument that is read as options. -/
def readOption (specs : List OptionSpec) (given : Given) (argument : String) :
    Except Request (Given × Option OptionSpec) :=
  match argument.toList with
  | '-' :: '-' :: text => readLong specs given text
  | _ :: text => readRun specs given text
  | [] => .error .misuse

/-- Read the arguments of a command, where `ended` tells that the options have ended. -/
def read (specs : List OptionSpec) (ended : Bool) (given : Given) :
    List String → Except Request Given
  | [] => .ok given
  | argument :: arguments =>
      if !ended && argument = "--" then read specs true given arguments
      else if !ended && isOption argument then
        match readOption specs given argument with
        | .error request => .error request
        | .ok (given, none) => read specs false given arguments
        | .ok (given, some spec) =>
            match arguments with
            | [] => .error .misuse
            | value :: arguments =>
                if isOption value then .error .misuse
                else
                  match given.addPathOption spec.long value with
                  | .ok given => read specs false given arguments
                  | .error request => .error request
      else
        match given.addPath argument with
        | .ok given => read specs ended given arguments
        | .error request => .error request

/-! ## Commands -/

/-- The options that every command has. -/
def sharedSpecs : List OptionSpec :=
  [⟨"verbose", some 'v', .switch⟩, ⟨"help", some 'h', .help⟩]

/-- The options in front of a command. -/
def frontSpecs : List OptionSpec := ⟨"version", some 'V', .version⟩ :: sharedSpecs

/-- The option that overrides the token document. -/
def inputSpec : OptionSpec := ⟨"input", some 'i', .path⟩

/-- The option that overrides the output directory. -/
def outputSpec : OptionSpec := ⟨"out-dir", some 'o', .path⟩

/-- The words for commands. -/
inductive Word where
  | build
  | check
  | init
  deriving DecidableEq, Repr

namespace Word

/-- The command word that an argument is. -/
def ofText? (text : String) : Option Word :=
  if text = "build" then some .build
  else if text = "check" then some .check
  else if text = "init" then some .init
  else none

/-- The options of a command. -/
def specs : Word → List OptionSpec
  | .build => [inputSpec, outputSpec] ++ sharedSpecs
  | .check =>
      [inputSpec, ⟨"json", none, .switch⟩, ⟨"strict", none, .switch⟩] ++ sharedSpecs
  | .init => ⟨"force", none, .switch⟩ :: sharedSpecs

/-- The command that given arguments describe. -/
def command (given : Given) : Word → Command
  | .build => .build given.projectPath (given.pathOf "input") (given.pathOf "out-dir")
  | .check =>
      .check given.projectPath (given.pathOf "input") (given.has "json") (given.has "strict")
  | .init => .start given.projectPath (given.has "force")

end Word

/-- The request for help on at most one command. -/
def helpRequest : List String → Request
  | [] => .help
  | [word] => if (Word.ofText? word).isSome ∨ word = "help" then .help else .misuse
  | _ => .misuse

/-- The request of a command word and the arguments behind it. -/
def commandRequest (front : Given) : List String → Request
  | [] => .misuse
  | word :: arguments =>
      if word = "help" then helpRequest arguments
      else
        match Word.ofText? word with
        | none => .misuse
        | some word =>
            match read word.specs false {} arguments with
            | .error request => request
            | .ok given => .run (word.command given) (front.has "verbose" || given.has "verbose")

/-- What arguments ask for. -/
def request (arguments : List String) : Request :=
  let front := arguments.takeWhile isOption
  match read frontSpecs false {} front with
  | .error request => request
  | .ok given =>
      if front.contains "--" then .misuse
      else commandRequest given (arguments.dropWhile isOption)

/-! ## Running -/

/-- How the program is used. -/
def usage : String :=
  "Usage: cabin-tokens [OPTIONS] <COMMAND>\n\nCommands: build, check, init, help\n"

/-- The version of the program. -/
def versionText : String := "cabin-tokens 0.1.0\n"

/-- Run what arguments ask for. -/
def run {m : Type → Type} [Monad m] [FileAccess m] (arguments : List String) : m Outcome :=
  match request arguments with
  | .run command _ => command.run
  | .help => return .success usage
  | .version => return .success versionText
  | .misuse => return ⟨2, "", usage⟩

end Arguments
end DesignTokens
