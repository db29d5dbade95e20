/-!
# Failures of file operations

The reasons why an operation on files and directories fails, with their numbers and their words.
-/

namespace DesignTokens

/-- Why an operation on files or directories fails. -/
inductive FileError where
  /-- Nothing is there. -/
  | notFound
  /-- Something is there already. -/
  | alreadyExists
  /-- A file stands where a directory is needed. -/
  | notADirectory
  /-- A directory stands where a file is needed. -/
  | isADirectory
  /-- A name or a path is too long. -/
  | nameTooLong
  /-- A path holds the character zero, which no name can have. -/
  | zeroInPath
  /-- Any other reason, in the words of the system. -/
  | other (words : String)
  deriving DecidableEq, Repr

/-- The failure with a number of the system. -/
def FileError.ofCode? (code : Nat) : Option FileError :=
  if code = 2 then some .notFound
  else if code = 17 then some .alreadyExists
  else if code = 20 then some .notADirectory
  else if code = 21 then some .isADirectory
  else if code = 36 then some .nameTooLong
  else none

/-- The failure in words. -/
def FileError.message : FileError → String
  | .notFound => "No such file or directory (os error 2)"
  | .alreadyExists => "File exists (os error 17)"
  | .notADirectory => "Not a directory (os error 20)"
  | .isADirectory => "Is a directory (os error 21)"
  | .nameTooLong => "File name too long (os error 36)"
  | .zeroInPath => "file name contained an unexpected NUL byte"
  | .other words => words

end DesignTokens
