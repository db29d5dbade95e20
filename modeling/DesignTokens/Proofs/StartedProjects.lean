import DesignTokens.Proofs.LoadedProjects

/-!
# Started projects

Starting a project makes its directory, then places the settings and then the token document.
Without force a file is placed only where nothing is, so a start that fails half way has done no
harm and a second start finds everything in place.  With force both files are written, and they
make a project that can be loaded and compiled.
-/

namespace DesignTokens

theorem Json.read_ofList (chars : List Char) :
    Json.read (String.ofList chars) =
      (Reader.value (2 * chars.length + 2) maxDepth chars).bind fun step =>
        if (Reader.skipSpaces step.2).isEmpty then .ok step.1
        else .error .unexpectedCharacter := by
  rw [read, String.toList_ofList]
  rfl

namespace Project

open DesignTokens.Path FileSystem

variable {path : Path} {content : String} {force : Bool} {files after : FileSystem}

/-! ## Placing files -/

/-- What placing a file of a new project comes to, with the files after it. -/
def placed (path : Path) (content : String) (force : Bool) (files : FileSystem) :
    Except ProjectError Unit × FileSystem :=
  (writeNew path content force : ExceptT ProjectError (StateM FileSystem) Unit).run.run files

theorem placed_eq (path : Path) (content : String) (force : Bool) (files : FileSystem) :
    placed path content force files =
      if files.isPresent path && !force then (.ok (), files)
      else
        ((files.write path content).1.mapError (.unwritable path),
          (files.write path content).2) := by
  have ran : placed path content force files =
      ((if files.isPresent path && !force then pure ()
        else attempt (.unwritable path) (FileAccess.write path content) :
          ExceptT ProjectError (StateM FileSystem) Unit).run.run files) := rfl
  rw [ran]
  split
  · rfl
  · rfl

/-- A file is placed by leaving alone what is there or by writing it. -/
theorem placed_cases (path : Path) (content : String) (force : Bool) (files : FileSystem) :
    (force = false ∧ files.isPresent path = true ∧
        placed path content force files = (.ok (), files)) ∨
      (force = true ∨ files.isPresent path = false) ∧
        placed path content force files =
          ((files.write path content).1.mapError (.unwritable path),
            (files.write path content).2) := by
  rw [placed_eq]
  cases present : files.isPresent path with
  | false => exact Or.inr ⟨Or.inr rfl, rfl⟩
  | true =>
      cases force with
      | false => exact Or.inl ⟨rfl, rfl, rfl⟩
      | true => exact Or.inr ⟨Or.inl rfl, rfl⟩

theorem placed_of_isPresent (present : files.isPresent path = true) (content : String) :
    placed path content false files = (.ok (), files) := by
  rw [placed_eq, present]
  rfl

theorem becomes_placed (path : Path) (content : String) (force : Bool) (files : FileSystem) :
    Becomes force
      (fun location entry => location = path.place files.workingDirectory ∧ entry = .file content)
      files (placed path content force files).2 := by
  rcases placed_cases path content force files with ⟨_, _, same⟩ | ⟨free, same⟩
  · rw [same]
    exact .refl files
  · rw [same]
    exact becomes_write free content

/-- Unless something was there without force, a placed file is read back. -/
theorem read_of_placed (done : placed path content force files = (.ok (), after))
    (free : force = true ∨ files.isPresent path = false) : after.read path = .ok content := by
  rcases placed_cases path content force files with ⟨gentle, present, _⟩ | ⟨_, same⟩
  · rcases free with forced | absent
    · exact absurd (gentle.symm.trans forced) Bool.false_ne_true
    · exact absurd (absent.symm.trans present) Bool.false_ne_true
  · rw [same] at done
    rcases result : files.write path content with ⟨failure | written, later⟩
    · rw [result] at done
      exact nomatch done
    · rw [result] at done
      cases done
      exact read_of_write result

theorem isPresent_of_placed (done : placed path content force files = (.ok (), after)) :
    after.isPresent path = true := by
  rcases placed_cases path content force files with ⟨_, present, same⟩ | ⟨free, _⟩
  · cases same.symm.trans done
    exact present
  · exact isPresent_iff.mpr ⟨_, read_eq_ok_iff_find.mp (read_of_placed done free)⟩

/-! ## The stages of a start -/

/-- What starting a project comes to, with the files after it. -/
def started (path : Path) (force : Bool) (files : FileSystem) :
    Except ProjectError Unit × FileSystem :=
  (init path force : ExceptT ProjectError (StateM FileSystem) Unit).run.run files

theorem started_eq (path : Path) (force : Bool) (files : FileSystem) :
    started path force files =
      match files.createDirectories path with
      | (.error cause, made) => (.error (.uncreatable path cause), made)
      | (.ok _, made) =>
          match placed (path.join ⟨ProjectConfig.fileName⟩) ({} : ProjectConfig).write force
            made with
          | (.error cause, settled) => (.error cause, settled)
          | (.ok _, settled) => placed (path.join ⟨"token.json"⟩) starterTokens force settled := by
  unfold started init
  rw [run_bindExcept]
  have made : ((attempt (.uncreatable path) (FileAccess.createDirectories path) :
      ExceptT ProjectError (StateM FileSystem) Unit).run.run files) =
        ((files.createDirectories path).1.mapError (.uncreatable path),
          (files.createDirectories path).2) := rfl
  rw [made]
  rcases files.createDirectories path with ⟨cause | done, made⟩
  · rfl
  · dsimp only [Except.mapError]
    rw [run_bindExcept, ← placed]
    rcases placed (path.join ⟨ProjectConfig.fileName⟩) ({} : ProjectConfig).write force made with
      ⟨cause | done, settled⟩
    · rfl
    · rfl

/-! ## What a start changes -/

/-- What starting a project may put where. -/
inductive Starter (path : Path) (files : FileSystem) : Location → Entry → Prop where
  /-- A missing directory of the path. -/
  | directory {location : Location} (onWay : location ∈ files.routeOf path) :
      Starter path files location .directory
  /-- The settings. -/
  | settings : Starter path files (files.goalOf path ++ [ProjectConfig.fileName])
      (.file ({} : ProjectConfig).write)
  /-- The token document. -/
  | tokens : Starter path files (files.goalOf path ++ ["token.json"]) (.file starterTokens)

theorem isName_tokens : IsName "token.json" :=
  ⟨by decide, by decide, by decide, by decide⟩

/-- Placing a file below the path of a project puts it there. -/
theorem becomes_placed_join {name : String} {made : FileSystem} (isName : IsName name)
    (view : made.workingDirectory = files.workingDirectory)
    (due : Starter path files (files.goalOf path ++ [name]) (.file content)) (force : Bool) :
    Becomes force (Starter path files) made (placed (path.join ⟨name⟩) content force made).2 := by
  refine (becomes_placed _ content force made).mono fun location entry => ?_
  rintro ⟨rfl, rfl⟩
  rw [isName.place_join, view]
  exact due

/-- Whether it succeeds or fails, a start puts only what is due, and what it finds takes force. -/
theorem becomes_started (path : Path) (force : Bool) (files : FileSystem) :
    Becomes force (Starter path files) files (started path force files).2 := by
  have first : Becomes force (Starter path files) files (files.createDirectories path).2 :=
    (files.makesWay_createDirectories path).forced.mono fun location entry ⟨made, onWay⟩ =>
      made ▸ .directory onWay
  rw [started_eq]
  split
  case h_1 cause made result =>
    rw [result] at first
    exact first
  case h_2 made result =>
    rw [result] at first
    have second := first.trans
      (becomes_placed_join ProjectConfig.isName_fileName first.view .settings force)
    split
    case h_1 cause settled result =>
      rw [result] at second
      exact second
    case h_2 settled result =>
      rw [result] at second
      exact second.trans (becomes_placed_join isName_tokens second.view .tokens force)

/-- The stages of a start that succeeds. -/
structure Starts (path : Path) (force : Bool) (files made settled after : FileSystem) : Prop where
  /-- The directory is there. -/
  directory : files.createDirectories path = (.ok (), made)
  /-- The settings are placed. -/
  settings : placed (path.join ⟨ProjectConfig.fileName⟩) ({} : ProjectConfig).write force made =
    (.ok (), settled)
  /-- The token document is placed. -/
  tokens : placed (path.join ⟨"token.json"⟩) starterTokens force settled = (.ok (), after)

theorem exists_starts (done : started path force files = (.ok (), after)) :
    ∃ made settled, Starts path force files made settled after := by
  rw [started_eq] at done
  split at done
  case h_1 => exact nomatch done
  case h_2 made directory =>
    split at done
    case h_1 => exact nomatch done
    case h_2 settled settings => exact ⟨made, settled, directory, settings, done⟩

namespace Starts

variable {made settled : FileSystem}

theorem started_eq_ok (starts : Starts path force files made settled after) :
    started path force files = (.ok (), after) := by
  rw [started_eq, starts.directory]
  dsimp only
  rw [starts.settings]
  exact starts.tokens

theorem becomes_settings (starts : Starts path force files made settled after) :
    Becomes force (fun location entry =>
      location = (path.join ⟨ProjectConfig.fileName⟩).place made.workingDirectory ∧
        entry = .file ({} : ProjectConfig).write) made settled := by
  have becomes := becomes_placed (path.join ⟨ProjectConfig.fileName⟩) ({} : ProjectConfig).write
    force made
  rwa [starts.settings] at becomes

theorem becomes_tokens (starts : Starts path force files made settled after) :
    Becomes force (fun location entry =>
      location = (path.join ⟨"token.json"⟩).place settled.workingDirectory ∧
        entry = .file starterTokens) settled after := by
  have becomes := becomes_placed (path.join ⟨"token.json"⟩) starterTokens force settled
  rwa [starts.tokens] at becomes

theorem isDirectory (starts : Starts path force files made settled after) :
    path.text = "" ∨ after.isDirectory path = true :=
  (isDirectory_of_createDirectories starts.directory).imp_right fun there =>
    starts.becomes_tokens.isDirectory_eq (starts.becomes_settings.isDirectory_eq there)

/-- After a start everything is in place, so that another one has nothing to do. -/
theorem again (starts : Starts path false files made settled after) :
    Starts path false after after after after where
  directory := createDirectories_of_isDirectory starts.isDirectory
  settings := placed_of_isPresent
    (starts.becomes_tokens.isPresent_eq (isPresent_of_placed starts.settings)) _
  tokens := placed_of_isPresent (isPresent_of_placed starts.tokens) _

/-- The token document is not written over the settings. -/
theorem read_settings (starts : Starts path force files made settled after)
    (free : force = true ∨ made.isPresent (path.join ⟨ProjectConfig.fileName⟩) = false) :
    after.read (path.join ⟨ProjectConfig.fileName⟩) = .ok ({} : ProjectConfig).write := by
  refine starts.becomes_tokens.growsInto.read_eq (read_of_placed starts.settings free) ?_
  rintro ⟨_, _, same, _⟩
  rw [ProjectConfig.isName_fileName.place_join, isName_tokens.place_join,
    List.append_cancel_left_eq] at same
  exact absurd same (by decide)

/-- Written settings are loaded as the defaults for the path. -/
theorem exists_loaded (starts : Starts path force files made settled after)
    (free : force = true ∨ made.isPresent (path.join ⟨ProjectConfig.fileName⟩) = false) :
    ∃ base, (path.join ⟨ProjectConfig.fileName⟩).parent? = some base ∧ base.Same path ∧
      loaded path after = .ok (({} : ProjectConfig).anchoredAt base) :=
  loaded_of_text (isFile_of_isDirectory starts.isDirectory) (starts.read_settings free)
    read?_write_default

/-- The token document is found from the directory of the settings, however that is spelled. -/
theorem read_input (starts : Starts path true files made settled after) {base : Path}
    (up : (path.join ⟨ProjectConfig.fileName⟩).parent? = some base) (same : base.Same path) :
    after.read (base.join ⟨"token.json"⟩) = .ok starterTokens := by
  have settings := read_eq_ok_iff_find.mp (starts.read_settings (Or.inl rfl))
  have flawless := ((ProjectConfig.isName_fileName.find_join_eq_ok_iff path).mp settings).1
  have tokens := read_eq_ok_iff_find.mp (read_of_placed starts.tokens (Or.inl rfl))
  refine read_eq_ok_iff_find.mpr (isName_tokens.find_join_of_same path tokens same ?_)
  exact isName_tokens.flaw_parent_join up (ProjectConfig.isName_fileName.components_join path)
    flawless (by decide) (by decide)

end Starts

set_option maxRecDepth 10000 in
theorem exists_starterDocument : ∃ document,
    TokenDocument.read TokenDocument.defaultRootKey {} starterTokens = .ok document := by
  have spelled : starterTokens = String.ofList _ := rfl
  have good : (TokenDocument.read TokenDocument.defaultRootKey {} starterTokens).isOk = true := by
    rw [spelled, TokenDocument.read, Json.read_ofList]
    decide +kernel
  cases taken : TokenDocument.read TokenDocument.defaultRootKey {} starterTokens with
  | error cause =>
      rw [taken] at good
      exact nomatch good
  | ok document => exact ⟨document, rfl⟩

/--
A start without force leaves alone what is there, whether it succeeds or fails, and puts nothing but
missing directories of the path, the settings and the token document; after a success another start
succeeds and changes nothing.  A start with force that succeeds leaves a project that is loaded as
the defaults for the path and whose token document is taken in, and no other file is changed.
-/
theorem started_safely (path : Path) (files : FileSystem) :
    Becomes false (Starter path files) files (started path false files).2 ∧
    (∀ after, started path false files = (.ok (), after) →
      started path false after = (.ok (), after)) ∧
    ∀ after, started path true files = (.ok (), after) →
      (∃ project text document, loaded path after = .ok project ∧
        project.Same (({} : ProjectConfig).anchoredAt path) ∧
        after.read project.input = .ok text ∧
        TokenDocument.read project.rootKey project.tokens text = .ok document) ∧
      ∀ location, location ≠ files.goalOf path ++ [ProjectConfig.fileName] →
        location ≠ files.goalOf path ++ ["token.json"] → ∀ content,
          after.at? location = some (.file content) ↔
            files.at? location = some (.file content) := by
  refine ⟨becomes_started path false files, fun after done => ?_, fun after done => ⟨?_, ?_⟩⟩
  · obtain ⟨made, settled, starts⟩ := exists_starts done
    exact starts.again.started_eq_ok
  · obtain ⟨made, settled, starts⟩ := exists_starts done
    obtain ⟨base, up, same, loads⟩ := starts.exists_loaded (Or.inl rfl)
    obtain ⟨document, taken⟩ := exists_starterDocument
    exact ⟨_, _, document, loads, ProjectConfig.same_anchoredAt same {},
      starts.read_input up same, taken⟩
  · intro location other apart content
    have becomes := becomes_started path true files
    rw [done] at becomes
    refine (becomes.entries location).file_iff fun written due => ?_
    generalize entry_eq : Entry.file written = entry at due
    cases due with
    | directory => exact nomatch entry_eq
    | settings => exact other rfl
    | tokens => exact apart rfl

/-- A directory that has a token document but no settings. -/
def halfStarted : FileSystem :=
  (FileSystem.empty.put [] "a" .directory (at?_root _) (by decide)).put ["a"] "token.json"
    (.file "mine") (by decide) (by decide)

/-- A start there keeps the token document, and one with force makes a project of defaults. -/
theorem started_safely_halfStarted :
    let path : Path := ⟨"a/.//"⟩
    let gently := started path false halfStarted
    let forced := started path true halfStarted
    gently.2.at? ["a", "token.json"] = some (.file "mine") ∧
      started path false gently.2 = (.ok (), gently.2) ∧
      ∃ project text document, loaded path forced.2 = .ok project ∧
        project.Same (({} : ProjectConfig).anchoredAt path) ∧
        forced.2.read project.input = .ok text ∧
        TokenDocument.read project.rootKey project.tokens text = .ok document := by
  intro path gently forced
  obtain ⟨kept, again, ready⟩ := started_safely path halfStarted
  have gentle : gently = (.ok (), gently.2) := Prod.ext (by decide +kernel) rfl
  have done : forced = (.ok (), forced.2) := Prod.ext (by decide +kernel) rfl
  refine ⟨?_, again gently.2 gentle, (ready forced.2 done).1⟩
  exact kept.growsInto.files _ _ (fun rewritten => Bool.false_ne_true rewritten.1) (by decide)

end Project
end DesignTokens
