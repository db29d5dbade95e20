import DesignTokens.FileSystem.Operations
import DesignTokens.Report

/-!
# Access to files

Programs reach files through a handful of operations.  A file system that is a value offers them
by passing itself on; a real one offers them at the edge of the program.
-/

namespace DesignTokens

/-- The file operations that a program can run. -/
class FileAccess (m : Type → Type) where
  /-- Whether a path leads to a file. -/
  isFile : Path → m Bool
  /-- Whether a path leads to anything. -/
  isPresent : Path → m Bool
  /-- The content of a file. -/
  read : Path → m (Except FileError String)
  /-- Make a directory and the directories above it, as far as they are missing. -/
  createDirectories : Path → m (Except FileError Unit)
  /-- Write a file, replacing the content of the file that is there. -/
  write : Path → String → m (Except FileError Unit)

instance : FileAccess (StateM FileSystem) where
  isFile path files := (files.isFile path, files)
  isPresent path files := (files.isPresent path, files)
  read path files := (files.read path, files)
  createDirectories path files := files.createDirectories path
  write path content files := files.write path content

/-- A directory below which artifacts are written. -/
structure OutputRoot where
  /-- The path of the directory. -/
  path : Path
  deriving DecidableEq, Repr

namespace OutputRoot

variable {m : Type → Type} [Monad m] [FileAccess m]

/-- Make the directory above an artifact: the first step of writing it. -/
def prepare (root : OutputRoot) (artifact : Artifact) : m (Option WriteError) := do
  match (root.path.join artifact.path).parent? with
  | none => return none
  | some parent =>
      match ← FileAccess.createDirectories (m := m) parent with
      | .ok _ => return none
      | .error cause => return some (.createDirectory parent cause)

/-- Write the content of an artifact: the second step of writing it. -/
def store (root : OutputRoot) (artifact : Artifact) : m (Option WriteError) := do
  let target := root.path.join artifact.path
  match ← FileAccess.write (m := m) target artifact.content with
  | .ok _ => return none
  | .error cause => return some (.write target cause)

/-- Write an artifact, unless the directory above it cannot be made. -/
def write (root : OutputRoot) (artifact : Artifact) : m (Option WriteError) := do
  match ← root.prepare artifact with
  | some failure => return some failure
  | none => root.store artifact

end OutputRoot
end DesignTokens
