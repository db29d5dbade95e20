import DesignTokens.FileError
import DesignTokens.OrderedMap

/-!
# Files and directories

A file system is a finite tree without links.  Every location other than the root holds nothing, a
directory or a file, and whatever is there stands in a directory.  New entries are put below
directories, and no directory is ever replaced.
-/

namespace DesignTokens

/-- The names from the root to a place in a file system. -/
abbrev Location := List String

/-- What can be at a location. -/
inductive Entry where
  | directory
  /-- A file of Unicode text.  There are no files of other bytes, which reading would refuse. -/
  | file (content : String)
  deriving DecidableEq, Repr

/-- What is at a location, the root being a directory. -/
def Entry.at? (entries : OrderedMap Location Entry) (location : Location) : Option Entry :=
  if location = [] then some .directory else entries.get? location

/-- A tree of directories and files, seen from a working directory. -/
structure FileSystem where
  /-- The directory in which relative paths start. -/
  workingDirectory : Location
  /-- What is below the root. -/
  entries : OrderedMap Location Entry
  /-- Whatever is there stands in a directory. -/
  housed : ∀ directory name, (Entry.at? entries (directory ++ [name])).isSome = true →
    Entry.at? entries directory = some .directory

namespace FileSystem

/-- The file system without entries, seen from its root. -/
def empty : FileSystem where
  workingDirectory := []
  entries := .empty
  housed := by
    intro directory name there
    simp [Entry.at?, OrderedMap.empty, OrderedMap.get?, Entries.get?] at there

instance : Inhabited FileSystem := ⟨empty⟩

/-- What is at a location. -/
def at? (files : FileSystem) (location : Location) : Option Entry :=
  Entry.at? files.entries location

@[simp]
theorem at?_root (files : FileSystem) : files.at? [] = some .directory := by
  simp [at?, Entry.at?]

/-- The file system seen from another directory. -/
def seenFrom (files : FileSystem) (location : Location) : FileSystem :=
  { files with workingDirectory := location }

theorem append_singleton_ne (location : Location) (name : String) :
    location ++ [name] ≠ location := by
  intro same
  simpa using congrArg List.length same

/-- Put an entry into a directory where no directory of that name is. -/
def put (files : FileSystem) (directory : Location) (name : String) (entry : Entry)
    (house : files.at? directory = some .directory)
    (free : files.at? (directory ++ [name]) ≠ some .directory) : FileSystem where
  workingDirectory := files.workingDirectory
  entries := files.entries.insert (directory ++ [name]) entry
  housed := by
    have after : ∀ location, location ≠ directory ++ [name] →
        Entry.at? (files.entries.insert (directory ++ [name]) entry) location =
          files.at? location := by
      intro location differ
      simp [Entry.at?, at?, OrderedMap.get?_insert, differ]
    intro above child there
    by_cases new : above ++ [child] = directory ++ [name]
    · obtain ⟨rfl, _⟩ := List.append_inj' new rfl
      rw [after above (append_singleton_ne above name).symm]
      exact house
    · rw [after _ new] at there
      have old := files.housed above child there
      by_cases same : above = directory ++ [name]
      · exact absurd (same ▸ old) free
      · rw [after above same]
        exact old

theorem at?_put (files : FileSystem) {directory : Location} {name : String} {entry : Entry}
    (house : files.at? directory = some .directory)
    (free : files.at? (directory ++ [name]) ≠ some .directory) (location : Location) :
    (files.put directory name entry house free).at? location =
      if location = directory ++ [name] then some entry else files.at? location := by
  by_cases same : location = directory ++ [name]
  · simp [put, at?, Entry.at?, OrderedMap.get?_insert, same]
  · simp [put, at?, Entry.at?, OrderedMap.get?_insert, same]

/-- The entries below a location, with the names that lead to them from there. -/
def below (files : FileSystem) (location : Location) : List (Location × Entry) :=
  files.entries.entries.filterMap fun entry =>
    if location <+: entry.1 ∧ location ≠ entry.1 then
      some (entry.1.drop location.length, entry.2)
    else none

/-- An entry as a line of a listing; the path of a directory ends in a slash. -/
def listed (entry : Location × Entry) : String × String :=
  match entry.2 with
  | .directory => ("/".intercalate entry.1 ++ "/", "")
  | .file content => ("/".intercalate entry.1, content)

/-- The paths below a location in order, each with its content. -/
def listing (files : FileSystem) (location : Location) : List (String × String) :=
  ((files.below location).map listed).mergeSort fun left right => left.1 ≤ right.1

end FileSystem
end DesignTokens
