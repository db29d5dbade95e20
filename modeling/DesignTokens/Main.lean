import DesignTokens.Arguments

/-!
# The program

The command line over the files of the system.
-/

namespace DesignTokens
namespace SystemFiles

/-- The number of a failure that the system reports, if it has one. -/
def failureCode? : IO.Error → Option UInt32
  | .noFileOrDirectory _ code _ => some code
  | .alreadyExists _ code _ => some code
  | .inappropriateType _ code _ => some code
  | .invalidArgument _ code _ => some code
  | .resourceExhausted _ code _ => some code
  | .otherError code _ => some code
  | _ => none

/-- The reason for a failure that the system reports. -/
def fileError (error : IO.Error) : FileError :=
  ((failureCode? error).bind fun code => FileError.ofCode? code.toNat).getD
    (.other (toString error))

/-- The outcome of an operation of the system. -/
def outcomeOf {α : Type} (operation : IO α) : IO (Except FileError α) := do
  match ← operation.toBaseIO with
  | .ok value => return .ok value
  | .error error => return .error (fileError error)

/-- Whether an operation of the system succeeds. -/
def succeeds {α : Type} (operation : IO α) : IO Bool := do
  return (← outcomeOf operation).isOk

end SystemFiles

open SystemFiles in
instance : FileAccess IO where
  isFile path := succeeds do
    let handle ← IO.FS.Handle.mk path.text .read
    handle.read 1
  isPresent path := succeeds (IO.FS.realPath path.text)
  read path := outcomeOf (IO.FS.readFile path.text)
  createDirectories path :=
    if path.text = "" then return .ok () else outcomeOf (IO.FS.createDirAll path.text)
  write path content := outcomeOf (IO.FS.writeFile path.text content)

end DesignTokens

/-- Run the command that the arguments ask for. -/
def main (arguments : List String) : IO UInt32 := do
  let outcome ← DesignTokens.Arguments.run (m := IO) arguments
  (← IO.getStdout).putStr outcome.out
  (← IO.getStderr).putStr outcome.err
  return outcome.code.toUInt32
