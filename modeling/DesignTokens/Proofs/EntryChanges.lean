import DesignTokens.Proofs.MakingDirectories

/-!
# Changes of entries

Operations add entries to a file system, and rewrite files if they are forced to.  Directories that
are made for a path are on its route, and a file that is written is at its place.
-/

namespace DesignTokens
namespace FileSystem

open DesignTokens.Path

/-! ## Changes -/

/-- What may become of a place at which only some entries may be put. -/
inductive Change (force : Bool) (due : Entry → Prop) : Option Entry → Option Entry → Prop where
  /-- The place is left alone. -/
  | kept (entry : Option Entry) : Change force due entry entry
  /-- An entry is put where nothing was. -/
  | added {entry : Entry} (allowed : due entry) : Change force due none (some entry)
  /-- A file is rewritten, which takes force. -/
  | rewritten {old new : String} (forced : force = true) (allowed : due (.file new)) :
      Change force due (some (.file old)) (some (.file new))

/-- One file system becomes another one by changes that put only some entries at its places. -/
structure Becomes (force : Bool) (due : Location → Entry → Prop) (before after : FileSystem) :
    Prop where
  /-- The working directory is the same. -/
  view : after.workingDirectory = before.workingDirectory
  /-- Every place is left alone or gets an entry that is due there. -/
  entries : ∀ location, Change force (due location) (before.at? location) (after.at? location)

section Change

variable {force : Bool} {due wider : Entry → Prop} {before middle after : Option Entry}

theorem Change.trans (first : Change force due before middle)
    (second : Change force due middle after) : Change force due before after := by
  cases first with
  | kept => exact second
  | added allowed =>
      cases second with
      | kept => exact .added allowed
      | rewritten forced again => exact .added again
  | rewritten forced allowed =>
      cases second with
      | kept => exact .rewritten forced allowed
      | rewritten _ again => exact .rewritten forced again

theorem Change.mono (change : Change force due before after)
    (widens : ∀ entry, due entry → wider entry) : Change force wider before after := by
  cases change with
  | kept => exact .kept _
  | added allowed => exact .added (widens _ allowed)
  | rewritten forced allowed => exact .rewritten forced (widens _ allowed)

theorem Change.forced (change : Change false due before after) : Change force due before after := by
  cases change with
  | kept => exact .kept _
  | added allowed => exact .added allowed
  | rewritten forced => exact absurd forced Bool.false_ne_true

/-- Files come and go only where files are due. -/
theorem Change.file_iff (change : Change force due before after)
    (spared : ∀ content, ¬ due (.file content)) {content : String} :
    after = some (.file content) ↔ before = some (.file content) := by
  cases change with
  | kept => exact Iff.rfl
  | @added entry allowed =>
      have other : entry ≠ .file content := fun same => spared content (same ▸ allowed)
      simp [other]
  | rewritten _ allowed => exact absurd allowed (spared _)

end Change

namespace Becomes

variable {force : Bool} {due wider : Location → Entry → Prop} {before middle after : FileSystem}

theorem refl (files : FileSystem) : Becomes force due files files :=
  ⟨rfl, fun _ => .kept _⟩

theorem trans (first : Becomes force due before middle) (second : Becomes force due middle after) :
    Becomes force due before after :=
  ⟨second.view.trans first.view, fun location => (first.entries location).trans
    (second.entries location)⟩

theorem mono (becomes : Becomes force due before after)
    (widens : ∀ location entry, due location entry → wider location entry) :
    Becomes force wider before after :=
  ⟨becomes.view, fun location => (becomes.entries location).mono (widens location)⟩

theorem forced (becomes : Becomes false due before after) : Becomes force due before after :=
  ⟨becomes.view, fun location => (becomes.entries location).forced⟩

theorem growsInto (becomes : Becomes force due before after) :
    GrowsInto (fun location => force = true ∧ ∃ content, due location (.file content))
      before after where
  view := becomes.view
  directories location there := by
    have change := becomes.entries location
    rw [there] at change
    generalize after.at? location = now at change ⊢
    cases change with
    | kept => rfl
  files location content spared there := by
    have change := becomes.entries location
    rw [there] at change
    generalize after.at? location = now at change ⊢
    cases change with
    | kept => rfl
    | rewritten forced allowed => exact absurd ⟨forced, _, allowed⟩ spared

/-- Without force, whatever is found goes on being found. -/
theorem find_eq (becomes : Becomes false due before after) {path : Path} {entry : Entry}
    (found : before.find path = .ok entry) : after.find path = .ok entry :=
  becomes.growsInto.find_eq found (Or.inr fun rewritten => Bool.false_ne_true rewritten.1)

theorem isPresent_eq (becomes : Becomes false due before after) {path : Path}
    (present : before.isPresent path = true) : after.isPresent path = true := by
  rw [isPresent_iff] at present ⊢
  exact present.imp fun _ found => becomes.find_eq found

theorem isDirectory_eq (becomes : Becomes force due before after) {path : Path}
    (there : before.isDirectory path = true) : after.isDirectory path = true := by
  rw [isDirectory_iff] at there ⊢
  exact becomes.growsInto.find_eq there (Or.inl rfl)

end Becomes

/-! ## Making directories -/

section Directories

variable {files after : FileSystem} {path : Path}

/-- Directories are made, and only on the way of a path. -/
def MakesWay (path : Path) (before after : FileSystem) : Prop :=
  Becomes false (fun location entry => entry = .directory ∧ location ∈ before.routeOf path)
    before after

theorem MakesWay.trans {before middle after : FileSystem} (first : MakesWay path before middle)
    (second : MakesWay path middle after) : MakesWay path before after := by
  unfold MakesWay at second
  rw [routeOf_congr first.view] at second
  exact Becomes.trans first second

theorem makesWay_makeDirectory (files : FileSystem) (path : Path) :
    MakesWay path files (files.makeDirectory path).2 := by
  rcases files.makeDirectory_cases path with ⟨failure, failed⟩ | ⟨directory, name, slash, house,
    vacant, found, _, made⟩
  · rw [failed]
    exact .refl files
  · obtain ⟨front, last, components, _⟩ := grounded_of_child found house
    have member : directory ++ [name] ∈ files.routeOf path := by
      have place : directory ++ [name] = goal files.workingDirectory path.components :=
        (place_of_target found).trans (place_eq_goal _ path)
      rw [place, routeOf, components, route_append_normal]
      exact List.mem_append_right _ List.mem_cons_self
    rw [made]
    refine ⟨rfl, fun location => ?_⟩
    rw [at?_put]
    split
    · rename_i same
      rw [same, vacant]
      exact .added ⟨rfl, member⟩
    · exact .kept _

theorem makesWay_createDirectories (files : FileSystem) (path : Path) :
    MakesWay path files (files.createDirectories path).2 := by
  refine snd_createChain_induction (fun files => .refl files) .trans (fun files above member => ?_)
    files
  refine (files.makesWay_makeDirectory above).mono fun location entry ⟨made, inside⟩ => ?_
  obtain ⟨back, components⟩ := prefix_of_mem_ancestorsUpTo member
  refine ⟨made, ?_⟩
  rw [routeOf, ← components, route_append]
  exact List.mem_append_left _ inside

theorem isDirectory_of_settle (settled : files.settle path = (.ok (), after)) :
    after.isDirectory path = true := by
  unfold settle at settled
  rcases files.makeDirectory_cases path with ⟨failure, failed⟩ | ⟨directory, name, slash, house,
    vacant, found, short, made⟩
  · rw [failed] at settled
    simp only [unlessDirectory] at settled
    split at settled
    · rename_i there
      cases settled
      exact there
    · cases settled
  · rw [made] at settled
    cases settled
    have free : files.at? (directory ++ [name]) ≠ some .directory := by simp [vacant]
    have grows := growsInto_put files .directory house free
    refine isDirectory_iff.mpr (find_eq_ok_iff.mpr (Or.inr
      ⟨directory, name, slash, grows.target_eq found, short, ?_, fun _ => rfl⟩))
    rw [at?_put, if_pos rfl]

/-- Behind a success there is a directory, unless the path is empty. -/
theorem isDirectory_of_createDirectories (made : files.createDirectories path = (.ok (), after)) :
    path.text = "" ∨ after.isDirectory path = true := by
  by_cases filled : path.text = ""
  · exact Or.inl filled
  · refine Or.inr ?_
    rw [createDirectories, ancestors, ancestorsUpTo] at made
    by_cases missing : (files.makeDirectory path).1 = .error .notFound
    · have failed := makeDirectory_of_fst missing
      rw [createChain_of_notFound filled failed] at made
      split at made
      case h_1 => cases made
      case h_2 => exact isDirectory_of_settle made
    · rw [createChain_of_ne filled missing] at made
      exact isDirectory_of_settle made

theorem isFile_of_isDirectory (there : path.text = "" ∨ files.isDirectory path = true) :
    files.isFile path = false := by
  rcases there with empty | there
  · simp [isFile, find, target_of_empty empty]
  · simp [isFile, isDirectory_iff.mp there]

/-- Making the directories of a path does not succeed if it leads to a file. -/
theorem isFile_of_createDirectories (made : files.createDirectories path = (.ok (), after)) :
    files.isFile path = false := by
  have becomes := files.makesWay_createDirectories path
  have after_file := isFile_of_isDirectory (isDirectory_of_createDirectories made)
  rw [made] at becomes
  rw [Bool.eq_false_iff, Ne, isFile_iff] at after_file ⊢
  exact fun ⟨content, found⟩ => after_file ⟨content, becomes.find_eq found⟩

theorem makeDirectory_of_isDirectory (there : files.isDirectory path = true) :
    files.makeDirectory path = (.error .alreadyExists, files) := by
  unfold makeDirectory
  rcases find_eq_ok_iff.mp (isDirectory_iff.mp there) with
    ⟨location, leads, _⟩ | ⟨directory, name, slash, leads, short, entry, _⟩
  · rw [leads]
  · have house : files.at? directory = some .directory :=
      files.housed directory name (Option.isSome_of_eq_some entry)
    rw [leads]
    dsimp only
    rw [if_neg (Nat.not_lt.mpr short), dif_pos house]
    split
    · rfl
    · rename_i vacant
      cases entry.symm.trans vacant

/-- No directory has to be made for an empty path or where one is. -/
theorem createDirectories_of_isDirectory
    (there : path.text = "" ∨ files.isDirectory path = true) :
    files.createDirectories path = (.ok (), files) := by
  rw [createDirectories, ancestors, ancestorsUpTo]
  by_cases filled : path.text = ""
  · rw [createChain, if_pos filled]
  · replace there := there.resolve_left filled
    have taken := makeDirectory_of_isDirectory there
    rw [createChain_of_ne filled (by simp [taken]), settle, taken]
    simp [unlessDirectory, there]

end Directories

/-! ## Writing -/

/-- A write puts a file at the place of its path, and needs force if something is there. -/
theorem becomes_write {files : FileSystem} {path : Path} {force : Bool}
    (free : force = true ∨ files.isPresent path = false) (content : String) :
    Becomes force
      (fun location entry => location = path.place files.workingDirectory ∧ entry = .file content)
      files (files.write path content).2 := by
  rcases files.write_cases path content with ⟨failure, failed⟩ | ⟨directory, name, house, vacant,
    found, short, done⟩
  · rw [failed]
    exact .refl files
  · rw [done, ← place_of_target found]
    refine ⟨rfl, fun location => ?_⟩
    rw [at?_put]
    split
    case isFalse => exact .kept _
    case isTrue same =>
      rw [same]
      rcases files.at?_cases (directory ++ [name]) with there | there | ⟨old, there⟩
      · rw [there]
        exact .added ⟨rfl, rfl⟩
      · exact absurd there vacant
      · rw [there]
        refine .rewritten (free.resolve_right fun absent => ?_) ⟨rfl, rfl⟩
        have present : files.isPresent path = true := isPresent_iff.mpr ⟨_,
          find_eq_ok_iff.mpr (Or.inr ⟨directory, name, false, found, short, there, nofun⟩)⟩
        rw [absent] at present
        exact Bool.false_ne_true present

end FileSystem
end DesignTokens
