import DesignTokens.Proofs.StartedProjects

/-!
# Configurations that a start keeps

Building and checking use the settings of a project, or the defaults if it has none.  A start leaves
settings alone and writes the defaults where none are, so both find the same configuration after it
as before it.  A path with double points can lead through directories that the start makes, and is
left out here.
-/

namespace DesignTokens

/-- Whether two attempts to find a configuration come to the same, paths being compared by place. -/
def SameOutcome : Except CommandError ProjectConfig → Except CommandError ProjectConfig → Prop
  | .ok left, .ok right => left.Same right
  | .error left, .error right => left = right
  | _, _ => False

theorem SameOutcome.refl (outcome : Except CommandError ProjectConfig) :
    SameOutcome outcome outcome := by
  cases outcome with
  | ok project => exact ⟨rfl, rfl, rfl, rfl, rfl⟩
  | error cause => exact rfl

namespace Project

open DesignTokens.Path FileSystem

variable {path : Path} {input : Option Path} {files made settled after : FileSystem}

theorem same_overridden {left right : ProjectConfig} (same : left.Same right)
    (input : Option Path) : (overridden input left).Same (overridden input right) := by
  obtain ⟨inputs, keys, outputs, layouts, tokens⟩ := same
  cases input with
  | none => exact ⟨inputs, keys, outputs, layouts, tokens⟩
  | some path => exact ⟨rfl, keys, outputs, layouts, tokens⟩

/-! ## Settings that are there -/

theorem read_of_becomes {due : Location → Entry → Prop} (becomes : Becomes false due files after)
    (present : files.isPresent path = true) : after.read path = files.read path := by
  obtain ⟨entry, found⟩ := isPresent_iff.mp present
  rw [FileSystem.read, FileSystem.read, found, becomes.find_eq found]

/-- Settings that are there are loaded as before when entries have been added. -/
theorem loaded_of_becomes {due : Location → Entry → Prop} (becomes : Becomes false due files after)
    (nonfile : files.isFile path = false) (still : after.isFile path = false)
    (present : files.isPresent (path.join ⟨ProjectConfig.fileName⟩) = true) :
    loaded path after = loaded path files := by
  have file : settingsFile path files = path.join ⟨ProjectConfig.fileName⟩ := by
    rw [settingsFile, nonfile]
    rfl
  have same : settingsFile path after = path.join ⟨ProjectConfig.fileName⟩ := by
    rw [settingsFile, still]
    rfl
  rw [loaded_eq, loaded_eq, file, same, read_of_becomes becomes present, present,
    becomes.isPresent_eq present]

/-! ## Settings that are written -/

/-- Behind the directories of a path that goes down only, settings are missing as before. -/
theorem isPresent_of_createDirectories (down : .parent ∉ path.components)
    (directory : files.createDirectories path = (.ok (), made))
    (absent : files.isPresent (path.join ⟨ProjectConfig.fileName⟩) = false) :
    made.isPresent (path.join ⟨ProjectConfig.fileName⟩) = false := by
  rw [Bool.eq_false_iff, Ne, isPresent_iff] at absent ⊢
  rintro ⟨entry, found⟩
  have moved : (files.createDirectories path).2 = made := by rw [directory]
  rw [← moved] at found
  exact absent ⟨entry, ProjectConfig.isName_fileName.find_join_of_createDirectories down found⟩

theorem configured_of_absent (nonfile : files.isFile path = false)
    (absent : files.isPresent (path.join ⟨ProjectConfig.fileName⟩) = false)
    (input : Option Path) :
    configured path input files =
      .ok (overridden input (({} : ProjectConfig).anchoredAt path)) := by
  rw [configured_eq, nonfile, absent]
  rfl

theorem configured_of_present (nonfile : files.isFile path = false)
    (present : files.isPresent (path.join ⟨ProjectConfig.fileName⟩) = true)
    (input : Option Path) :
    configured path input files =
      ((loaded path files).mapError .project).map (overridden input) := by
  rw [configured_eq, nonfile, present]
  rfl

/--
After a start without force at a path that goes down only, the same configuration is found as
before, for every input; and where there are no settings, the defaults that were used are those that
are loaded from the settings that the start writes.
-/
theorem started_keeps_configuration (down : .parent ∉ path.components)
    (done : started path false files = (.ok (), after)) (input : Option Path) :
    SameOutcome (configured path input files) (configured path input after) ∧
      (files.isPresent (path.join ⟨ProjectConfig.fileName⟩) = false →
        configured path none files = .ok (({} : ProjectConfig).anchoredAt path) ∧
          ∃ project, loaded path after = .ok project ∧
            (({} : ProjectConfig).anchoredAt path).Same project) := by
  have becomes := becomes_started path false files
  rw [done] at becomes
  obtain ⟨made, settled, starts⟩ := exists_starts done
  have nonfile := isFile_of_createDirectories starts.directory
  have still := isFile_of_isDirectory starts.isDirectory
  have there : after.isPresent (path.join ⟨ProjectConfig.fileName⟩) = true :=
    starts.becomes_tokens.isPresent_eq (isPresent_of_placed starts.settings)
  cases before : files.isPresent (path.join ⟨ProjectConfig.fileName⟩) with
  | true =>
      refine ⟨?_, fun absent => nomatch absent⟩
      rw [configured_of_present nonfile before, configured_of_present still there,
        loaded_of_becomes becomes nonfile still before]
      exact .refl _
  | false =>
      have missing := isPresent_of_createDirectories down starts.directory before
      obtain ⟨base, _, same, loads⟩ := starts.exists_loaded (Or.inr missing)
      have anchored := ProjectConfig.same_anchoredAt (Path.Same.symm same) {}
      rw [configured_of_absent nonfile before, configured_of_absent nonfile before,
        configured_of_present still there, loads]
      exact ⟨same_overridden anchored input, fun _ => ⟨rfl, _, rfl, anchored⟩⟩

/-- A start in a missing directory with an odd spelling keeps the defaults that were used there. -/
theorem started_keeps_configuration_missing :
    let path : Path := ⟨"./a/.//b//"⟩
    let ended := started path false .empty
    configured path none .empty = .ok (({} : ProjectConfig).anchoredAt path) ∧
      (∃ project, loaded path ended.2 = .ok project ∧
        (({} : ProjectConfig).anchoredAt path).Same project) ∧
      SameOutcome (configured path (some ⟨"x.json"⟩) .empty)
        (configured path (some ⟨"x.json"⟩) ended.2) := by
  intro path ended
  have done : ended = (.ok (), ended.2) := Prod.ext (by decide +kernel) rfl
  have down : .parent ∉ path.components := by decide
  obtain ⟨same, defaults⟩ := started_keeps_configuration down done (some ⟨"x.json"⟩)
  obtain ⟨used, loads⟩ := defaults (by decide +kernel)
  exact ⟨used, loads, same⟩

end Project
end DesignTokens
