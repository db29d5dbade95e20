import DesignTokens.FileSystem.Basic
import DesignTokens.Path

/-!
# Operations on files and directories

Operations find their place by walking a path from the root or from the working directory: every
name but the last has to be that of a directory.  Points stay where they are, two points go up,
and repeated slashes count once.  Each operation gives its outcome together with the file system
after it.
-/

namespace DesignTokens
namespace FileSystem

/-- The greatest number of bytes in a name. -/
def maxNameBytes : Nat := 255

/-- The number of bytes at which a path is too long. -/
def maxPathBytes : Nat := 4096

/-- What the last name of a path says about the place that it leads to. -/
inductive Target where
  /-- The path ends in the root, a point or two points: it leads to a directory. -/
  | directory (location : Location)
  /-- The path ends in a name below a directory, and perhaps a slash behind it. -/
  | child (directory : Location) (name : String) (slash : Bool)
  deriving DecidableEq, Repr

/-- The directory that a part of a path leads to from a directory. -/
def enter (files : FileSystem) (location : Location) (piece : String) :
    Except FileError Location :=
  if piece = "." then .ok location
  else if piece = ".." then .ok location.dropLast
  else if maxNameBytes < piece.utf8ByteSize then .error .nameTooLong
  else
    match files.at? (location ++ [piece]) with
    | some .directory => .ok (location ++ [piece])
    | some (.file _) => .error .notADirectory
    | none => .error .notFound

/-- Walk the parts of a path, the last one excepted. -/
def walk (files : FileSystem) (location : Location) (slash : Bool) :
    List String → Except FileError Target
  | [] => .ok (.directory location)
  | [last] =>
      if last = "." then .ok (.directory location)
      else if last = ".." then .ok (.directory location.dropLast)
      else .ok (.child location last slash)
  | piece :: pieces =>
      match files.enter location piece with
      | .ok next => walk files next slash pieces
      | .error failure => .error failure

/-- Where a path leads. -/
def target (files : FileSystem) (path : Path) : Except FileError Target :=
  if path.text.toList.contains '\x00' then .error .zeroInPath
  else if path.text = "" then .error .notFound
  else if maxPathBytes ≤ path.text.utf8ByteSize then .error .nameTooLong
  else
    walk files (if path.isAbsolute then [] else files.workingDirectory)
      (path.text.toList.getLast? = some '/') (path.pieces.filter fun piece => piece ≠ "")

/-- What a path leads to; behind a slash it must be a directory. -/
def find (files : FileSystem) (path : Path) : Except FileError Entry :=
  match files.target path with
  | .error failure => .error failure
  | .ok (.directory _) => .ok .directory
  | .ok (.child directory name slash) =>
      if maxNameBytes < name.utf8ByteSize then .error .nameTooLong
      else
        match files.at? (directory ++ [name]) with
        | none => .error .notFound
        | some .directory => .ok .directory
        | some (.file content) => if slash then .error .notADirectory else .ok (.file content)

/-- Whether a path leads to anything. -/
def isPresent (files : FileSystem) (path : Path) : Bool := (files.find path).isOk

/-- Whether a path leads to a file. -/
def isFile (files : FileSystem) (path : Path) : Bool :=
  match files.find path with
  | .ok (.file _) => true
  | _ => false

/-- Whether a path leads to a directory. -/
def isDirectory (files : FileSystem) (path : Path) : Bool :=
  match files.find path with
  | .ok .directory => true
  | _ => false

/-- The content of the file at a path. -/
def read (files : FileSystem) (path : Path) : Except FileError String :=
  match files.find path with
  | .ok (.file content) => .ok content
  | .ok .directory => .error .isADirectory
  | .error failure => .error failure

/-- Make one directory, where nothing is yet. -/
def makeDirectory (files : FileSystem) (path : Path) : Except FileError Unit × FileSystem :=
  match files.target path with
  | .error failure => (.error failure, files)
  | .ok (.directory _) => (.error .alreadyExists, files)
  | .ok (.child directory name _) =>
      if maxNameBytes < name.utf8ByteSize then (.error .nameTooLong, files)
      else if house : files.at? directory = some .directory then
        match there : files.at? (directory ++ [name]) with
        | some _ => (.error .alreadyExists, files)
        | none => (.ok (), files.put directory name .directory house (by simp [there]))
      else (.error .notFound, files)

/-- Write a file, replacing the content of the file that is there. -/
def write (files : FileSystem) (path : Path) (content : String) :
    Except FileError Unit × FileSystem :=
  match files.target path with
  | .error failure => (.error failure, files)
  | .ok (.directory _) => (.error .isADirectory, files)
  | .ok (.child directory name slash) =>
      if slash then (.error .isADirectory, files)
      else if maxNameBytes < name.utf8ByteSize then (.error .nameTooLong, files)
      else if house : files.at? directory = some .directory then
        if free : files.at? (directory ++ [name]) = some .directory then
          (.error .isADirectory, files)
        else (.ok (), files.put directory name (.file content) house free)
      else (.error .notFound, files)

/-- Take a directory that is there already for a success. -/
def unlessDirectory (path : Path) (failure : FileError) (files : FileSystem) :
    Except FileError Unit × FileSystem :=
  if files.isDirectory path then (.ok (), files) else (.error failure, files)

/--
Make the first of some directories, each the parent of the one before it.  The parents are made
first if they are missing; the empty path needs nothing.
-/
def createChain (files : FileSystem) : List Path → Except FileError Unit × FileSystem
  | [] => (.error .notFound, files)
  | path :: parents =>
      if path.text = "" then (.ok (), files)
      else
        match files.makeDirectory path with
        | (.ok _, made) => (.ok (), made)
        | (.error .notFound, _) =>
            match createChain files parents with
            | (.error failure, made) => (.error failure, made)
            | (.ok _, made) =>
                match made.makeDirectory path with
                | (.ok _, done) => (.ok (), done)
                | (.error failure, done) => unlessDirectory path failure done
        | (.error failure, _) => unlessDirectory path failure files

/-- Make a directory and the directories above it, as far as they are missing. -/
def createDirectories (files : FileSystem) (path : Path) : Except FileError Unit × FileSystem :=
  createChain files path.ancestors

end FileSystem
end DesignTokens
