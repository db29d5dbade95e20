import DesignTokens.Proofs.Builds
import DesignTokens.Proofs.NamedChildren
import DesignTokens.Proofs.SettingsFiles

/-!
# Loaded projects

A project is loaded from one file, whose text is read and whose directory anchors the paths in it.
The settings file that holds the defaults is loaded as the defaults anchored at the path of the
project, except that their paths may be spelled in another way.
-/

namespace DesignTokens

theorem ProjectConfig.isName_fileName : Path.IsName ProjectConfig.fileName :=
  ⟨by decide, by decide, by decide, by decide⟩

theorem ProjectConfig.same_anchoredAt {base other : Path} (same : base.Same other)
    (project : ProjectConfig) : (project.anchoredAt base).Same (project.anchoredAt other) :=
  ⟨same.join project.input, rfl, same.join project.output, rfl, rfl⟩

namespace Project

open DesignTokens.Path FileSystem

variable {path : Path} {input : Option Path} {files : FileSystem}

/-! ## Loading -/

/-- The project that is loaded from files. -/
def loaded (path : Path) (files : FileSystem) : Except ProjectError ProjectConfig :=
  ((load path : ExceptT ProjectError (StateM FileSystem) ProjectConfig).run.run files).1

/-- The file that settings are looked for in. -/
def settingsFile (path : Path) (files : FileSystem) : Path :=
  if files.isFile path then path else path.join ⟨ProjectConfig.fileName⟩

/-- The project of a settings file with its text. -/
def ofSettings (file : Path) (text : String) : Except ProjectError ProjectConfig :=
  match ProjectConfig.read? text with
  | none => .error (.malformed file)
  | some project => .ok (file.parent?.elim project project.anchoredAt)

theorem fst_settingsPath (path : Path) (files : FileSystem) :
    ((settingsPath path : StateM FileSystem Path).run files).1 = settingsFile path files := by
  have ran : ((settingsPath path : StateM FileSystem Path).run files).1 =
      ((if files.isFile path then pure path else pure (path.join ⟨ProjectConfig.fileName⟩) :
        StateM FileSystem Path).run files).1 := rfl
  rw [ran, settingsFile]
  split
  · rfl
  · rfl

/-- A project is loaded from the file in which its settings are. -/
theorem loaded_eq (path : Path) (files : FileSystem) :
    loaded path files =
      if files.isPresent (settingsFile path files) then do
        let text ← (files.read (settingsFile path files)).mapError
          (.unreadable (settingsFile path files))
        ofSettings (settingsFile path files) text
      else .error (.noSettings path) := by
  have looked : ((FileAccess.isPresent (settingsFile path files) : StateM FileSystem Bool).run
      files).1 = files.isPresent (settingsFile path files) := rfl
  unfold loaded load
  rw [ReadsOnly.fst_bindLift (settingsPath_readsOnly path), fst_settingsPath,
    ReadsOnly.fst_bindLift fun _ => rfl, looked]
  cases files.isPresent (settingsFile path files) with
  | false => rfl
  | true =>
      refine (ReadsOnly.fst_bindAttempt (fun _ => rfl) files).trans ?_
      rw [if_pos rfl]
      refine bind_congr fun text => ?_
      unfold ofSettings
      cases ProjectConfig.read? text with
      | none => rfl
      | some project =>
          cases (settingsFile path files).parent? with
          | none => rfl
          | some base => rfl

/-- A settings file is loaded as what it says, anchored at the directory that it is in. -/
theorem loaded_of_text {text : String} {project : ProjectConfig}
    (nonfile : files.isFile path = false)
    (given : files.read (path.join ⟨ProjectConfig.fileName⟩) = .ok text)
    (meaning : ProjectConfig.read? text = some project) :
    ∃ base, (path.join ⟨ProjectConfig.fileName⟩).parent? = some base ∧ base.Same path ∧
      loaded path files = .ok (project.anchoredAt base) := by
  obtain ⟨base, up, same⟩ := ProjectConfig.isName_fileName.exists_parent?_join path
  have file : settingsFile path files = path.join ⟨ProjectConfig.fileName⟩ := by
    rw [settingsFile, nonfile]
    rfl
  have present : files.isPresent (path.join ⟨ProjectConfig.fileName⟩) = true :=
    isPresent_iff.mpr ⟨_, read_eq_ok_iff_find.mp given⟩
  refine ⟨base, up, same, ?_⟩
  rw [loaded_eq, file, if_pos present, given]
  simp only [Except.mapError, bind, Except.bind, ofSettings, meaning, up, Option.elim_some]

/-! ## Configurations -/

/-- A configuration with its input overridden if asked. -/
def overridden (input : Option Path) (project : ProjectConfig) : ProjectConfig :=
  { project with input := input.getD project.input }

theorem fst_hasSettings (path : Path) (files : FileSystem) :
    ((hasSettings path : StateM FileSystem Bool).run files).1 =
      (files.isFile path || files.isPresent (path.join ⟨ProjectConfig.fileName⟩)) := by
  have ran : ((hasSettings path : StateM FileSystem Bool).run files).1 =
      ((if files.isFile path then pure true
        else FileAccess.isPresent (path.join ⟨ProjectConfig.fileName⟩) :
          StateM FileSystem Bool).run files).1 := rfl
  rw [ran]
  cases files.isFile path with
  | true => rfl
  | false => rfl

/-- The configuration is loaded if there are settings, and else the default one. -/
theorem configured_eq (path : Path) (input : Option Path) (files : FileSystem) :
    configured path input files =
      (if files.isFile path || files.isPresent (path.join ⟨ProjectConfig.fileName⟩) then
        (loaded path files).mapError .project
      else .ok (({} : ProjectConfig).anchoredAt path)).map (overridden input) := by
  unfold configured configuration
  rw [ReadsOnly.fst_bindLift (hasSettings_readsOnly path), fst_hasSettings]
  cases files.isFile path || files.isPresent (path.join ⟨ProjectConfig.fileName⟩) with
  | false => rfl
  | true =>
      simp only [if_true]
      rw [ReadsOnly.fst_bindAdapt (load_readsOnly path), ← loaded]
      cases (loaded path files).mapError CommandError.project with
      | ok project => rfl
      | error cause => rfl

/-! ## Default settings -/

theorem read?_write_default : ProjectConfig.read? ({} : ProjectConfig).write = some {} := by
  rw [ProjectConfig.read?, ProjectConfig.write,
    Toml.read?_writeSections (ProjectConfig.wellNamed_sections {})]
  exact ProjectConfig.ofToml?_settings {}

end Project
end DesignTokens
