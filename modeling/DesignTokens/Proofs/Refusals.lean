import DesignTokens.Arguments
import DesignTokens.Proofs.Builds
import DesignTokens.Proofs.Documents

/-!
# Commands that write nothing

A build has a plan exactly if its settings and its token document can be read, all themes are
objects and all of their names are plain.  Without a plan it fails and leaves all files alone, also
those of its good themes.  A check never writes; once it has found its themes it fails only if it is
strict and a reference dangles.
-/

namespace DesignTokens

/-- A reference of the theme points at a name that neither of its stylesheets declares. -/
def CompiledTheme.Dangles (compiled : CompiledTheme) : Prop :=
  ∃ reference ∈ compiled.palette.references.entries ++ compiled.components.references.entries,
    compiled.declares reference.2 = false

theorem CompiledTheme.danglingReferences_ne_nil_iff {compiled : CompiledTheme} :
    compiled.danglingReferences ≠ [] ↔ compiled.Dangles := by
  rw [danglingReferences, Ne, List.filterMap_eq_nil_iff, Dangles]
  push Not
  simp

namespace Project

variable {path : Path} {input output : Option Path} {files : FileSystem}

/-! ## What keeps a build from writing -/

/-- What keeps a build from writing anything. -/
inductive Hindered (path : Path) (input : Option Path) (files : FileSystem) : Prop where
  /-- The settings cannot be loaded. -/
  | settings {failure : CommandError} (refused : configured path input files = .error failure)
  /-- The token document cannot be read. -/
  | document {project : ProjectConfig} {failure : FileError}
      (settings : configured path input files = .ok project)
      (unread : files.read project.input = .error failure)
  /-- The token document is no JSON, has no theme set or has a theme that is no object. -/
  | themes {project : ProjectConfig} {text : String}
      (settings : configured path input files = .ok project)
      (given : files.read project.input = .ok text)
      (unfit : TokenDocument.Unfit project.rootKey text)
  /-- The name of a theme is not plain. -/
  | name {project : ProjectConfig} {text : String} {json : Json} {set : List (String × Json)}
      {entry : String × Json} (settings : configured path input files = .ok project)
      (given : files.read project.input = .ok text) (read : Json.read text = .ok json)
      (found : TokenDocument.themeSet project.rootKey json = .ok set) (member : entry ∈ set)
      (odd : Artifact.isPlainName entry.1 = false)

theorem isPlainName_of_artifacts {project : ProjectConfig} {themes : List CompiledTheme}
    {list : List Artifact} (listed : artifacts project themes = .ok list) :
    ∀ theme ∈ themes, Artifact.isPlainName theme.name = true := by
  intro theme member
  unfold artifacts at listed
  split at listed
  case h_1 lists made =>
    obtain ⟨list, done⟩ := exists_ok_of_mapM made theme member
    exact (CompiledTheme.artifacts_eq_ok_iff.mp done).1
  case h_2 => exact nomatch listed

theorem exists_odd_of_artifacts {project : ProjectConfig} {themes : List CompiledTheme}
    {failure : CommandError} (refused : artifacts project themes = .error failure) :
    ∃ theme ∈ themes, Artifact.isPlainName theme.name = false := by
  unfold artifacts at refused
  split at refused
  case h_1 => exact nomatch refused
  case h_2 cause made =>
    obtain ⟨theme, member, failed⟩ := exists_error_of_mapM made
    exact ⟨theme, member, (CompiledTheme.artifacts_eq_error_iff.mp failed).1⟩

theorem not_hindered_of_planned {build : Build}
    (made : planned path input output files = .ok build) : ¬ Hindered path input files := by
  obtain ⟨document, ⟨⟨loaded, settings, same⟩, text, given, taken⟩, themes, listed⟩ :=
    finds_of_planned made
  rw [same] at given taken
  intro hindered
  cases hindered with
  | settings refused =>
      rw [settings] at refused
      exact nomatch refused
  | document again unread =>
      cases settings.symm.trans again
      exact nomatch given.symm.trans unread
  | themes again regiven unfit =>
      cases settings.symm.trans again
      cases given.symm.trans regiven
      exact TokenDocument.not_unfit_of_read taken unfit
  | @name _ _ _ _ entry again regiven read found member odd =>
      cases settings.symm.trans again
      cases given.symm.trans regiven
      obtain ⟨json, set, reread, refound, each⟩ := TokenDocument.exists_set_of_read taken
      cases read.symm.trans reread
      cases found.symm.trans refound
      have there : entry.1 ∈ document.themes.map Theme.name := by
        rw [TokenDocument.names_eq_of_mapM each]
        exact List.mem_map_of_mem member
      obtain ⟨theme, inside, name⟩ := List.mem_map.mp there
      rw [themes] at listed
      have plain := isPlainName_of_artifacts listed (theme.compile build.project.tokens)
        (List.mem_map_of_mem inside)
      rw [Theme.compile, name, odd] at plain
      exact nomatch plain

theorem hindered_of_planned {failure : CommandError}
    (failed : planned path input output files = .error failure) : Hindered path input files := by
  rw [planned_eq] at failed
  rcases bind_eq_error_iff.mp failed with refused | ⟨project, settings, failed⟩
  · exact .settings refused
  rcases bind_eq_error_iff.mp failed with refused | ⟨themes, ready, failed⟩
  · rw [compiled_eq] at refused
    rcases bind_eq_error_iff.mp refused with unread | ⟨text, given, refused⟩
    · obtain ⟨cause, unread, _⟩ := mapError_eq_error_iff.mp unread
      exact .document settings unread
    · rcases bind_eq_error_iff.mp refused with unfit | ⟨_, _, done⟩
      · obtain ⟨cause, unfit, _⟩ := mapError_eq_error_iff.mp unfit
        exact .themes settings (mapError_eq_ok_iff.mp given) (TokenDocument.unfit_of_read unfit)
      · exact nomatch done
  · obtain ⟨text, document, given, taken, rfl⟩ := exists_document_of_compiled ready
    rcases bind_eq_error_iff.mp failed with refused | ⟨_, _, done⟩
    · obtain ⟨compiled, member, odd⟩ := exists_odd_of_artifacts refused
      obtain ⟨theme, inside, rfl⟩ := List.mem_map.mp member
      obtain ⟨json, set, read, found, each⟩ := TokenDocument.exists_set_of_read taken
      have there : theme.name ∈ set.map Prod.fst := by
        rw [← TokenDocument.names_eq_of_mapM each]
        exact List.mem_map_of_mem inside
      obtain ⟨entry, known, name⟩ := List.mem_map.mp there
      exact .name settings given read found known (name ▸ odd)
    · exact nomatch done

theorem run_build_of_hindered (hindered : Hindered path input files) (output : Option Path) :
    ∃ failure, (Command.run (.build path input output) : StateM FileSystem Outcome).run files =
      (.failure "" failure, files) := by
  cases made : planned path input output files with
  | ok build => exact absurd hindered (not_hindered_of_planned made)
  | error failure =>
      refine ⟨failure, ?_⟩
      have ran : (Command.run (.build path input output) : StateM FileSystem Outcome).run files =
          (settle (((build path input output :
              ExceptT CommandError (StateM FileSystem) String).run.run files).1.map
                Outcome.success),
            ((build path input output :
              ExceptT CommandError (StateM FileSystem) String).run.run files).2) := rfl
      rw [ran, run_build, made]
      rfl

/-! ## Checks -/

variable {json strict : Bool}

theorem check_readsOnly (path : Path) (input : Option Path) (json strict : Bool) :
    ReadsOnly (check path input json strict :
      ExceptT CommandError (StateM FileSystem) Outcome).run := by
  unfold check
  refine ReadsOnly.bindExcept (configuration_readsOnly path input) fun project => ?_
  exact ReadsOnly.bindExcept (compile_readsOnly project) fun themes => ReadsOnly.pure _

/-- The outcome that a check comes to among files. -/
def checked (path : Path) (input : Option Path) (json strict : Bool) (files : FileSystem) :
    Except CommandError Outcome :=
  ((check path input json strict :
    ExceptT CommandError (StateM FileSystem) Outcome).run.run files).1

/-- A check takes the settings and the themes and judges these. -/
theorem checked_eq (path : Path) (input : Option Path) (json strict : Bool) (files : FileSystem) :
    checked path input json strict files = do
      let project ← configured path input files
      let themes ← compiled project files
      return checkOutcome json strict themes := by
  unfold checked check
  rw [ReadsOnly.fst_bindExcept (configuration_readsOnly path input)]
  exact bind_congr fun project => ReadsOnly.fst_bindExcept (compile_readsOnly project) files

theorem run_check (path : Path) (input : Option Path) (json strict : Bool) (files : FileSystem) :
    (Command.run (.check path input json strict) : StateM FileSystem Outcome).run files =
      (settle (checked path input json strict files), files) := by
  have ran : (Command.run (.check path input json strict) : StateM FileSystem Outcome).run files =
      (settle (checked path input json strict files),
        ((check path input json strict :
          ExceptT CommandError (StateM FileSystem) Outcome).run.run files).2) := rfl
  rw [ran]
  exact congrArg (Prod.mk _) (check_readsOnly path input json strict files)

theorem code_checkOutcome_ne_iff {themes : List CompiledTheme} :
    (checkOutcome json strict themes).code ≠ 0 ↔
      strict = true ∧ ∃ compiled ∈ themes, compiled.Dangles := by
  have some_iff : themes.flatMap CompiledTheme.danglingReferences ≠ [] ↔
      ∃ compiled ∈ themes, compiled.Dangles := by
    simp [List.flatMap_eq_nil_iff, ← CompiledTheme.danglingReferences_ne_nil_iff]
  rw [← some_iff, checkOutcome]
  cases strict with
  | false => simp [Outcome.success]
  | true =>
      cases themes.flatMap CompiledTheme.danglingReferences with
      | nil => simp [Outcome.success]
      | cons first rest => simp [Outcome.failure]

theorem run_check_of_finds {project : ProjectConfig} {document : TokenDocument}
    (finds : Finds path input none files project document) :
    (Command.run (.check path input json strict) : StateM FileSystem Outcome).run files =
      (checkOutcome json strict (document.compile project.tokens), files) := by
  obtain ⟨⟨loaded, settings, rfl⟩, text, given, taken⟩ := finds
  have ready : compiled loaded files = .ok (document.compile loaded.tokens) := by
    rw [compiled_eq]
    simp [given, taken, Except.mapError, bind, Except.bind, pure, Except.pure]
  rw [run_check, checked_eq]
  simp only [settings, ready, bind, Except.bind]
  rfl

end Project

namespace Arguments

/--
Builds that are hindered fail and leave all files alone, and all others come to a plan.  Checks
leave all files alone, and if they find their themes, they fail only strictly and for a reference
that dangles.
-/
theorem only_plans_write (files : FileSystem) (arguments : List String) :
    let ended := (run arguments : StateM FileSystem Outcome).run files
    (∀ path input output verbose,
      request arguments = .run (.build path input output) verbose →
        (Project.Hindered path input files → ended.1.code = 1 ∧ ended.2 = files) ∧
          (¬ Project.Hindered path input files →
            ∃ build, Project.planned path input output files = .ok build)) ∧
      ∀ path input json strict verbose,
        request arguments = .run (.check path input json strict) verbose →
          ended.2 = files ∧
            ∀ project document, Project.Finds path input none files project document →
              (ended.1.code ≠ 0 ↔
                strict = true ∧
                  ∃ theme ∈ document.themes, (theme.compile project.tokens).Dangles) := by
  refine ⟨fun path input output verbose asked => ⟨fun hindered => ?_, fun free => ?_⟩,
    fun path input json strict verbose asked => ?_⟩
  · obtain ⟨failure, ended⟩ := Project.run_build_of_hindered hindered output
    rw [run, asked]
    dsimp only
    rw [ended]
    exact ⟨rfl, rfl⟩
  · cases made : Project.planned path input output files with
    | ok build => exact ⟨build, rfl⟩
    | error failure => exact absurd (Project.hindered_of_planned made) free
  · rw [run, asked]
    dsimp only
    refine ⟨by rw [Project.run_check], fun project document finds => ?_⟩
    rw [Project.run_check_of_finds finds, Project.code_checkOutcome_ne_iff, TokenDocument.compile]
    simp

/-- The themes of a document: a good one and one whose name is a path and whose token dangles. -/
def misnamedThemes : List (String × Json) :=
  [("light", .object []),
    ("../x", .object [("components",
      .object [("a", .object [("value", .string "\x7bcabin x theme.cabin x.b\x7d")])])])]

/-- The text of that document. -/
def misnamedText : String :=
  "\x7b\"light\": \x7b\x7d, \"../x\": \x7b\"components\": " ++
    "\x7b\"a\": \x7b\"value\": \"\x7bcabin x theme.cabin x.b\x7d\"\x7d\x7d\x7d\x7d"

/-- A project with that document and an earlier output. -/
def misnamed : FileSystem :=
  ((FileSystem.empty.put [] "out" .directory (FileSystem.at?_root _) (by decide)).put
    ["out"] "old.scss" (.file "old") (by decide) (by decide)).put [] "token.json"
      (.file misnamedText) (FileSystem.at?_root _) (by decide)

/-- Its build is refused and its strict check fails, and both leave all files alone. -/
theorem misnamed_only_checked :
    ((run ["build", "-o", "out"] : StateM FileSystem Outcome).run misnamed).1.code = 1 ∧
      ((run ["build", "-o", "out"] : StateM FileSystem Outcome).run misnamed).2 = misnamed ∧
      ((run ["check", "--strict"] : StateM FileSystem Outcome).run misnamed).2 = misnamed ∧
      ∃ project document, Project.Finds ⟨"."⟩ none none misnamed project document ∧
        ∃ theme ∈ document.themes, (theme.compile project.tokens).Dangles := by
  have settings : Project.configured ⟨"."⟩ none misnamed =
      .ok { input := ⟨"./token.json"⟩, output := ⟨"./."⟩ } := by rfl
  have given : misnamed.read ⟨"./token.json"⟩ = .ok misnamedText := by decide +kernel
  have read : Json.read misnamedText = .ok (.object misnamedThemes) := by decide +kernel
  have found : TokenDocument.themeSet TokenDocument.defaultRootKey (.object misnamedThemes) =
      .ok misnamedThemes := by rfl
  have built := (only_plans_write misnamed ["build", "-o", "out"]).1 ⟨"."⟩ none (some ⟨"out"⟩)
    false rfl
  obtain ⟨refused, kept⟩ := built.1
    (.name settings given read found (List.mem_cons_of_mem _ List.mem_cons_self) (by decide))
  obtain ⟨spared, judged⟩ := (only_plans_write misnamed ["check", "--strict"]).2 ⟨"."⟩ none false
    true false rfl
  have failed : ((run ["check", "--strict"] :
      StateM FileSystem Outcome).run misnamed).1.code ≠ 0 := by decide +kernel
  refine ⟨refused, kept, spared, ?_⟩
  cases taken : TokenDocument.read TokenDocument.defaultRootKey {} misnamedText with
  | error cause =>
      rw [TokenDocument.read_eq read found] at taken
      exact nomatch taken
  | ok document =>
      have finds : Project.Finds ⟨"."⟩ none none misnamed
          { input := ⟨"./token.json"⟩, output := ⟨"./."⟩ } document :=
        ⟨⟨_, settings, rfl⟩, _, given, taken⟩
      exact ⟨_, document, finds, ((judged _ document finds).mp failed).2⟩

end Arguments
end DesignTokens
