import DesignTokens.FileSystem.Operations

/-!
# What file operations change

The place that a path leads to depends on its spelling and on the working directory alone, since
there are no links.  Making directories only adds entries, and writing a file changes nothing but
the entry at its place; so whatever can be read stays readable until its place is written again.
-/

namespace DesignTokens

namespace Path

/-- The place that a piece of a path leads to from a place. -/
def follow (location : Location) (piece : String) : Location :=
  if piece = "." then location
  else if piece = ".." then location.dropLast
  else location ++ [piece]

/-- The place that a path names, seen from a working directory. -/
def place (workingDirectory : Location) (path : Path) : Location :=
  (path.pieces.filter fun piece => piece ≠ "").foldl follow
    (if path.isAbsolute then [] else workingDirectory)

end Path

namespace FileSystem

/-- The place that a target stands for. -/
def Target.place : Target → Location
  | .directory location => location
  | .child above name _ => above ++ [name]

/-- A piece that is entered is a point, two points or the name of a directory. -/
theorem enter_eq_ok_iff {files : FileSystem} {location next : Location} {piece : String} :
    files.enter location piece = .ok next ↔
      next = Path.follow location piece ∧
        (piece ≠ "." → piece ≠ ".." →
          piece.utf8ByteSize ≤ maxNameBytes ∧ files.at? next = some .directory) := by
  unfold enter Path.follow
  by_cases point : piece = "."
  · simp [point, eq_comm]
  · by_cases parent : piece = ".."
    · simp [parent, eq_comm]
    · simp only [point, parent, if_false, ne_eq, not_false_eq_true, forall_const]
      by_cases long : maxNameBytes < piece.utf8ByteSize
      · simp [long, Nat.not_le.mpr long]
      · have short := Nat.le_of_not_lt long
        simp only [long, if_false, short, true_and]
        constructor
        · intro entered
          split at entered
          case h_1 there =>
            rw [← Except.ok.inj entered]
            exact ⟨rfl, there⟩
          case h_2 => simp at entered
          case h_3 => simp at entered
        · rintro ⟨rfl, there⟩
          rw [there]

theorem walk_cons_cons (files : FileSystem) (location : Location) (slash : Bool)
    (piece next : String) (pieces : List String) :
    files.walk location slash (piece :: next :: pieces) =
      match files.enter location piece with
      | .ok inner => files.walk inner slash (next :: pieces)
      | .error failure => .error failure := rfl

/-- Walking ends at the place that is spelled. -/
theorem place_of_walk {files : FileSystem} {location : Location} {slash : Bool}
    {pieces : List String} {target : Target}
    (walked : files.walk location slash pieces = .ok target) :
    target.place = pieces.foldl Path.follow location := by
  induction pieces generalizing location with
  | nil =>
      rw [← Except.ok.inj walked]
      rfl
  | cons piece pieces ih =>
      cases pieces with
      | nil =>
          rw [walk] at walked
          rw [List.foldl_cons, List.foldl_nil, Path.follow]
          by_cases point : piece = "."
          · rw [if_pos point] at walked
            rw [if_pos point, ← Except.ok.inj walked, Target.place]
          · by_cases parent : piece = ".."
            · rw [if_neg point, if_pos parent] at walked
              rw [if_neg point, if_pos parent, ← Except.ok.inj walked, Target.place]
            · rw [if_neg point, if_neg parent] at walked
              rw [if_neg point, if_neg parent, ← Except.ok.inj walked, Target.place]
      | cons next pieces =>
          rw [walk_cons_cons] at walked
          split at walked
          case h_1 inner entered =>
            rw [ih walked, (enter_eq_ok_iff.mp entered).1]
            rfl
          case h_2 => simp at walked

/-- A path leads somewhere if its text can be a path and every step on the way can be taken. -/
theorem target_eq_ok_iff {files : FileSystem} {path : Path} {target : Target} :
    files.target path = .ok target ↔
      (path.text.toList.contains '\x00' = false ∧ path.text ≠ "" ∧
        path.text.utf8ByteSize < maxPathBytes) ∧
      files.walk (if path.isAbsolute then [] else files.workingDirectory)
        (path.text.toList.getLast? = some '/') (path.pieces.filter fun piece => piece ≠ "") =
          .ok target := by
  unfold FileSystem.target
  by_cases zero : path.text.toList.contains '\x00' = true
  · rw [if_pos zero, zero]
    simp
  · rw [if_neg zero, Bool.eq_false_iff.mpr zero]
    by_cases blank : path.text = ""
    · rw [if_pos blank]
      simp [blank]
    · rw [if_neg blank]
      by_cases long : maxPathBytes ≤ path.text.utf8ByteSize
      · rw [if_pos long]
        simp [Nat.not_lt.mpr long]
      · rw [if_neg long]
        simp [blank, Nat.lt_of_not_le long]

theorem place_of_target {files : FileSystem} {path : Path} {target : Target}
    (found : files.target path = .ok target) :
    target.place = path.place files.workingDirectory :=
  place_of_walk (target_eq_ok_iff.mp found).2

/-! ## Growth -/

/--
One file system has grown into another: directories and files are still there, except that files
at some places may have been rewritten.
-/
structure GrowsInto (rewritten : Location → Prop) (before after : FileSystem) : Prop where
  /-- The working directory is the same. -/
  view : after.workingDirectory = before.workingDirectory
  /-- Directories stay. -/
  directories : ∀ location, before.at? location = some .directory →
    after.at? location = some .directory
  /-- Files stay as they are, unless they are rewritten. -/
  files : ∀ location content, ¬ rewritten location → before.at? location = some (.file content) →
    after.at? location = some (.file content)

namespace GrowsInto

variable {rewritten : Location → Prop} {before middle after : FileSystem}

theorem refl (files : FileSystem) : GrowsInto rewritten files files :=
  ⟨rfl, fun _ there => there, fun _ _ _ there => there⟩

theorem trans (first : GrowsInto rewritten before middle)
    (second : GrowsInto rewritten middle after) : GrowsInto rewritten before after where
  view := second.view.trans first.view
  directories location there := second.directories location (first.directories location there)
  files location content kept there :=
    second.files location content kept (first.files location content kept there)

theorem enter_eq (grows : GrowsInto rewritten before after) {location next : Location}
    {piece : String} (entered : before.enter location piece = .ok next) :
    after.enter location piece = .ok next := by
  obtain ⟨same, allowed⟩ := enter_eq_ok_iff.mp entered
  refine enter_eq_ok_iff.mpr ⟨same, fun point parent => ?_⟩
  obtain ⟨short, there⟩ := allowed point parent
  exact ⟨short, grows.directories next there⟩

theorem walk_eq (grows : GrowsInto rewritten before after) {location : Location} {slash : Bool}
    {pieces : List String} {target : Target}
    (walked : before.walk location slash pieces = .ok target) :
    after.walk location slash pieces = .ok target := by
  induction pieces generalizing location with
  | nil => exact walked
  | cons piece pieces ih =>
      cases pieces with
      | nil => exact walked
      | cons next pieces =>
          rw [walk_cons_cons] at walked ⊢
          cases entered : before.enter location piece with
          | error failure => simp [entered] at walked
          | ok inner =>
              rw [entered] at walked
              rw [grows.enter_eq entered]
              exact ih walked

/-- A path that leads somewhere goes on leading there. -/
theorem target_eq (grows : GrowsInto rewritten before after) {path : Path} {target : Target}
    (found : before.target path = .ok target) : after.target path = .ok target := by
  obtain ⟨spelled, walked⟩ := target_eq_ok_iff.mp found
  refine target_eq_ok_iff.mpr ⟨spelled, ?_⟩
  rw [grows.view]
  exact grows.walk_eq walked

end GrowsInto

/-! ## Finding and reading -/

theorem at?_cases (files : FileSystem) (location : Location) :
    files.at? location = none ∨ files.at? location = some .directory ∨
      ∃ content, files.at? location = some (.file content) := by
  rcases files.at? location with _ | _ | content
  · exact Or.inl rfl
  · exact Or.inr (Or.inl rfl)
  · exact Or.inr (Or.inr ⟨content, rfl⟩)

section Finding

variable {files : FileSystem} {path : Path} {entry : Entry}

/-- A path that leads to a child finds the entry there; behind a slash it must be a directory. -/
theorem find_of_child {directory : Location} {name : String} {slash : Bool}
    (leads : files.target path = .ok (.child directory name slash)) :
    files.find path = .ok entry ↔
      name.utf8ByteSize ≤ maxNameBytes ∧ files.at? (directory ++ [name]) = some entry ∧
        (slash = true → entry = .directory) := by
  rw [find, leads]
  dsimp only
  by_cases long : maxNameBytes < name.utf8ByteSize
  · rw [if_pos long]
    exact iff_of_false nofun fun found => absurd found.1 (Nat.not_le.mpr long)
  · have short := Nat.le_of_not_lt long
    rw [if_neg long]
    rcases files.at?_cases (directory ++ [name]) with vacant | there | ⟨content, there⟩
    · simp [vacant]
    · simpa [short, there, eq_comm] using fun (same : entry = .directory) _ => same
    · cases slash with
      | false => simp [short, there]
      | true =>
          simp only [there, short, if_true, true_and, forall_const]
          constructor
          · exact nofun
          · rintro ⟨same, rfl⟩
            exact nomatch same

/-- A path leads to a directory that it ends in, or to a child of one. -/
theorem find_eq_ok_iff :
    files.find path = .ok entry ↔
      (∃ location, files.target path = .ok (.directory location) ∧ entry = .directory) ∨
        ∃ directory name slash, files.target path = .ok (.child directory name slash) ∧
          name.utf8ByteSize ≤ maxNameBytes ∧ files.at? (directory ++ [name]) = some entry ∧
          (slash = true → entry = .directory) := by
  cases leads : files.target path with
  | error failure => simp [find, leads]
  | ok target =>
      cases target with
      | directory location => simp [find, leads, eq_comm]
      | child directory name slash =>
          rw [find_of_child leads]
          constructor
          · exact fun found => Or.inr ⟨directory, name, slash, rfl, found⟩
          · rintro (⟨_, other, _⟩ | ⟨_, _, _, same, found⟩)
            · exact nomatch other
            · cases same
              exact found

theorem isPresent_iff : files.isPresent path = true ↔ ∃ entry, files.find path = .ok entry := by
  unfold isPresent
  cases files.find path with
  | error failure => simp [Except.isOk, Except.toBool]
  | ok entry => simp [Except.isOk, Except.toBool]

theorem isDirectory_iff : files.isDirectory path = true ↔ files.find path = .ok .directory := by
  unfold isDirectory
  rcases files.find path with failure | _ | content
  · simp
  · simp
  · simp

theorem isFile_iff :
    files.isFile path = true ↔ ∃ content, files.find path = .ok (.file content) := by
  unfold isFile
  rcases files.find path with failure | _ | content
  · simp
  · simp
  · simp

theorem read_eq_ok_iff_find {content : String} :
    files.read path = .ok content ↔ files.find path = .ok (.file content) := by
  unfold read
  rcases files.find path with failure | _ | other
  · simp
  · simp
  · simp

/-- A path is read if it leads to a file by a name that is not too long. -/
theorem read_eq_ok_iff {content : String} :
    files.read path = .ok content ↔
      ∃ directory name, files.target path = .ok (.child directory name false) ∧
        name.utf8ByteSize ≤ maxNameBytes ∧
        files.at? (directory ++ [name]) = some (.file content) := by
  rw [read_eq_ok_iff_find, find_eq_ok_iff]
  constructor
  · rintro (⟨_, _, other⟩ | ⟨directory, name, slash, found, short, there, must⟩)
    · exact nomatch other
    · cases slash with
      | false => exact ⟨directory, name, found, short, there⟩
      | true => exact nomatch must rfl
  · rintro ⟨directory, name, found, short, there⟩
    exact Or.inr ⟨directory, name, false, found, short, there, nofun⟩

/-- A path goes on leading to what it leads to, except for a file whose place is rewritten. -/
theorem GrowsInto.find_eq {rewritten : Location → Prop} {after : FileSystem}
    (grows : GrowsInto rewritten files after) (found : files.find path = .ok entry)
    (kept : entry = .directory ∨ ¬ rewritten (path.place files.workingDirectory)) :
    after.find path = .ok entry := by
  rw [find_eq_ok_iff] at found ⊢
  rcases found with ⟨location, leads, same⟩ | ⟨directory, name, slash, leads, short, there, must⟩
  · exact Or.inl ⟨location, grows.target_eq leads, same⟩
  · refine Or.inr ⟨directory, name, slash, grows.target_eq leads, short, ?_, must⟩
    cases entry with
    | directory => exact grows.directories _ there
    | file content =>
        have spared := kept.resolve_left nofun
        rw [← place_of_target leads] at spared
        exact grows.files _ content spared there

end Finding

theorem at?_place_of_read {files : FileSystem} {path : Path} {content : String}
    (given : files.read path = .ok content) :
    files.at? (path.place files.workingDirectory) = some (.file content) := by
  obtain ⟨directory, name, found, _, there⟩ := read_eq_ok_iff.mp given
  rw [← place_of_target found]
  exact there

/-- A file is still read if its place is not rewritten. -/
theorem GrowsInto.read_eq {rewritten : Location → Prop} {before after : FileSystem}
    (grows : GrowsInto rewritten before after) {path : Path} {content : String}
    (given : before.read path = .ok content)
    (kept : ¬ rewritten (path.place before.workingDirectory)) :
    after.read path = .ok content := by
  rw [read_eq_ok_iff_find] at given ⊢
  exact grows.find_eq given (Or.inr kept)

/-! ## Putting entries -/

theorem growsInto_put (files : FileSystem) (entry : Entry) {directory : Location} {name : String}
    (house : files.at? directory = some .directory)
    (free : files.at? (directory ++ [name]) ≠ some .directory) :
    GrowsInto (· = directory ++ [name]) files (files.put directory name entry house free) where
  view := rfl
  directories location there := by
    have other : location ≠ directory ++ [name] := fun same => free (same ▸ there)
    rw [at?_put, if_neg other]
    exact there
  files location content kept there := by
    rw [at?_put, if_neg kept]
    exact there

/-- Making one directory fails and changes nothing, or puts it where nothing is. -/
theorem makeDirectory_cases (files : FileSystem) (path : Path) :
    (∃ failure, files.makeDirectory path = (.error failure, files)) ∨
      ∃ directory name slash, ∃ house : files.at? directory = some .directory,
        ∃ vacant : files.at? (directory ++ [name]) = none,
          files.target path = .ok (.child directory name slash) ∧
          name.utf8ByteSize ≤ maxNameBytes ∧
          files.makeDirectory path =
            (.ok (), files.put directory name .directory house (by simp [vacant])) := by
  unfold makeDirectory
  split
  · exact Or.inl ⟨_, rfl⟩
  · exact Or.inl ⟨_, rfl⟩
  · rename_i directory name slash found
    split
    · exact Or.inl ⟨_, rfl⟩
    · rename_i short
      split
      · rename_i house
        split
        · exact Or.inl ⟨_, rfl⟩
        · rename_i vacant
          exact Or.inr
            ⟨directory, name, slash, house, vacant, found, Nat.le_of_not_lt short, rfl⟩
      · exact Or.inl ⟨_, rfl⟩

theorem makeDirectory_of_fst {files : FileSystem} {path : Path} {failure : FileError}
    (failed : (files.makeDirectory path).1 = .error failure) :
    files.makeDirectory path = (.error failure, files) := by
  rcases files.makeDirectory_cases path with ⟨other, same⟩ | ⟨_, _, _, _, _, _, _, made⟩
  · rw [same] at failed
    rw [same, ← failed]
  · rw [made] at failed
    cases failed

theorem growsInto_makeDirectory (files : FileSystem) (path : Path) :
    GrowsInto (fun _ => False) files (files.makeDirectory path).2 := by
  rcases files.makeDirectory_cases path with ⟨failure, failed⟩ | ⟨directory, name, slash, house,
    vacant, _, _, made⟩
  · rw [failed]
    exact .refl files
  · have free : files.at? (directory ++ [name]) ≠ some .directory := by simp [vacant]
    have grows := growsInto_put files .directory house free
    rw [made]
    refine ⟨grows.view, grows.directories, fun location content _ file => ?_⟩
    refine grows.files location content (fun same => ?_) file
    rw [same, vacant] at file
    exact absurd file (by simp)

theorem snd_unlessDirectory (path : Path) (failure : FileError) (files : FileSystem) :
    (unlessDirectory path failure files).2 = files := by
  unfold unlessDirectory
  split
  · rfl
  · rfl

/-- Whatever holds of making one directory holds of making several one after the other. -/
theorem snd_createChain_induction {related : FileSystem → FileSystem → Prop} {paths : List Path}
    (refl : ∀ files, related files files)
    (trans : ∀ {before middle after}, related before middle → related middle after →
      related before after)
    (step : ∀ files, ∀ path ∈ paths, related files (files.makeDirectory path).2)
    (files : FileSystem) : related files (files.createChain paths).2 := by
  induction paths with
  | nil => exact refl files
  | cons path parents ih =>
      have first := step files path List.mem_cons_self
      have above := ih fun files inner inside => step files inner (List.mem_cons_of_mem path inside)
      unfold createChain
      split
      · exact refl files
      · split
        case h_1 same =>
          rw [same] at first
          exact first
        case h_2 =>
          split
          case h_1 same =>
            rw [same] at above
            exact above
          case h_2 made same =>
            rw [same] at above
            have second := step made path List.mem_cons_self
            split
            case h_1 same =>
              rw [same] at second
              exact trans above second
            case h_2 same =>
              rw [same] at second
              rw [snd_unlessDirectory]
              exact trans above second
        case h_3 =>
          rw [snd_unlessDirectory]
          exact refl files

/-- Making directories keeps whatever is there. -/
theorem growsInto_createDirectories (files : FileSystem) (path : Path) :
    GrowsInto (fun _ => False) files (files.createDirectories path).2 :=
  snd_createChain_induction .refl .trans (fun files path _ => files.growsInto_makeDirectory path)
    files

/-! ## Writing -/

/-- A write fails and changes nothing, or puts its content where the path leads. -/
theorem write_cases (files : FileSystem) (path : Path) (content : String) :
    (∃ failure, files.write path content = (.error failure, files)) ∨
      ∃ directory name, ∃ house : files.at? directory = some .directory,
        ∃ free : files.at? (directory ++ [name]) ≠ some .directory,
          files.target path = .ok (.child directory name false) ∧
          name.utf8ByteSize ≤ maxNameBytes ∧
          files.write path content =
            (.ok (), files.put directory name (.file content) house free) := by
  unfold write
  split
  · exact Or.inl ⟨_, rfl⟩
  · exact Or.inl ⟨_, rfl⟩
  · rename_i directory name slash found
    split
    · exact Or.inl ⟨_, rfl⟩
    · rename_i plain
      split
      · exact Or.inl ⟨_, rfl⟩
      · rename_i short
        split
        · split
          · exact Or.inl ⟨_, rfl⟩
          · rename_i house free
            have ends : slash = false := by simpa using plain
            exact Or.inr ⟨directory, name, house, free, ends ▸ found, Nat.le_of_not_lt short, rfl⟩
        · exact Or.inl ⟨_, rfl⟩

/-- A written file is read back. -/
theorem read_of_write {files after : FileSystem} {path : Path} {content : String}
    (written : files.write path content = (.ok (), after)) : after.read path = .ok content := by
  rcases files.write_cases path content with ⟨failure, failed⟩ | ⟨directory, name, house, free,
    found, short, done⟩
  · rw [failed] at written
    exact absurd (congrArg Prod.fst written) (by simp)
  · rw [done] at written
    obtain rfl : _ = after := congrArg Prod.snd written
    have grows := growsInto_put files (.file content) house free
    refine read_eq_ok_iff.mpr ⟨directory, name, grows.target_eq found, short, ?_⟩
    rw [at?_put, if_pos rfl]

/-- Writing rewrites at most the place of its path. -/
theorem growsInto_write (files : FileSystem) (path : Path) (content : String) :
    GrowsInto (· = path.place files.workingDirectory) files (files.write path content).2 := by
  rcases files.write_cases path content with ⟨failure, failed⟩ | ⟨directory, name, house, free,
    found, _, done⟩
  · rw [failed]
    exact .refl files
  · rw [done, ← place_of_target found]
    exact growsInto_put files (.file content) house free

/-- What is read is still read after another write, if that write agrees wherever it meets it. -/
theorem read_write_of_agree {files : FileSystem} {path other : Path} {content written : String}
    (given : files.read path = .ok content)
    (agree : other.place files.workingDirectory = path.place files.workingDirectory →
      written = content) :
    (files.write other written).2.read path = .ok content := by
  by_cases same : path.place files.workingDirectory = other.place files.workingDirectory
  · rcases files.write_cases other written with ⟨failure, failed⟩ | ⟨directory, name, house, free,
      found, _, done⟩
    · rw [failed]
      exact given
    · obtain ⟨above, last, lead, short, _⟩ := read_eq_ok_iff.mp given
      have place : above ++ [last] = directory ++ [name] :=
        (place_of_target lead).trans (same.trans (place_of_target found).symm)
      have grows := files.growsInto_write other written
      refine read_eq_ok_iff.mpr ⟨above, last, grows.target_eq lead, short, ?_⟩
      rw [done, at?_put, if_pos place, agree same.symm]
  · exact (files.growsInto_write other written).read_eq given same

end FileSystem
end DesignTokens
