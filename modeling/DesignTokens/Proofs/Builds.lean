import DesignTokens.Command
import DesignTokens.Proofs.Emission
import DesignTokens.Proofs.ThemeFiles

/-!
# What a successful build leaves behind

A build reads its project and compiles all themes before it writes anything, and then takes the
steps of its writes in any order.  If it succeeds, every file of every theme holds what was
announced exactly if no two of these files with different contents have one place.  Nothing in a
build checks that, so a layout can send two files to one place.
-/

namespace DesignTokens

/-! ## Running programs -/

/-- Behind a program that succeeds, the rest starts from the files that it leaves. -/
theorem run_bindExcept {ε α β : Type} (program : ExceptT ε (StateM FileSystem) α)
    (next : α → ExceptT ε (StateM FileSystem) β) (files : FileSystem) :
    (program >>= next).run.run files =
      match program.run.run files with
      | (.error failure, after) => (.error failure, after)
      | (.ok value, after) => (next value).run.run after := by
  rw [ExceptT.run_bind, StateT.run_bind]
  rcases program.run.run files with ⟨failure | value, after⟩
  · rfl
  · rfl

/-! ## Reading only -/

/-- A program that leaves the files alone. -/
def ReadsOnly {α : Type} (program : StateM FileSystem α) : Prop :=
  ∀ files, (program.run files).2 = files

namespace ReadsOnly

variable {α β ε : Type}

theorem pure (value : α) : ReadsOnly (Pure.pure value) := fun _ => rfl

theorem bind {program : StateM FileSystem α} {next : α → StateM FileSystem β}
    (first : ReadsOnly program) (later : ∀ value, ReadsOnly (next value)) :
    ReadsOnly (program >>= next) := by
  intro files
  change ((next (program.run files).1).run (program.run files).2).2 = files
  rw [later, first]

theorem bindExcept {program : ExceptT ε (StateM FileSystem) α}
    {next : α → ExceptT ε (StateM FileSystem) β} (first : ReadsOnly program.run)
    (later : ∀ value, ReadsOnly (next value).run) : ReadsOnly (program >>= next).run := by
  rw [ExceptT.run_bind]
  refine bind first fun result => ?_
  cases result with
  | ok value => exact later value
  | error failure => exact pure _

theorem attempt {told : FileError → ε} {operation : StateM FileSystem (Except FileError α)}
    (first : ReadsOnly operation) : ReadsOnly (Project.attempt told operation).run :=
  bind first fun _ => pure _

theorem adapt {δ : Type} {told : ε → δ} {program : ExceptT ε (StateM FileSystem) α}
    (first : ReadsOnly program.run) : ReadsOnly (ExceptT.adapt told program).run :=
  bind first fun _ => pure _

theorem lift {program : StateM FileSystem α} (first : ReadsOnly program) :
    ReadsOnly (monadLift program : ExceptT ε (StateM FileSystem) α).run :=
  bind first fun _ => pure _

/-- Behind a program that only reads, the rest starts from the same files. -/
theorem fst_bindExcept {program : ExceptT ε (StateM FileSystem) α}
    {next : α → ExceptT ε (StateM FileSystem) β} (first : ReadsOnly program.run)
    (files : FileSystem) :
    ((program >>= next).run.run files).1 =
      (program.run.run files).1 >>= fun middle => ((next middle).run.run files).1 := by
  have same := first files
  rw [run_bindExcept]
  rcases outcome : program.run.run files with ⟨failure | middle, after⟩
  · rfl
  · rw [outcome] at same
    obtain rfl : after = files := same
    rfl

theorem fst_bindAdapt {δ : Type} {told : ε → δ} {program : ExceptT ε (StateM FileSystem) α}
    {next : α → ExceptT δ (StateM FileSystem) β} (first : ReadsOnly program.run)
    (files : FileSystem) :
    ((ExceptT.adapt told program >>= next).run.run files).1 =
      ((program.run.run files).1.mapError told >>= fun value => ((next value).run.run files).1) :=
  fst_bindExcept (adapt first) files

theorem fst_bindLift {program : StateM FileSystem α} {next : α → ExceptT ε (StateM FileSystem) β}
    (first : ReadsOnly program) (files : FileSystem) :
    (((monadLift program : ExceptT ε (StateM FileSystem) α) >>= next).run.run files).1 =
      ((next (program.run files).1).run.run files).1 :=
  fst_bindExcept (lift first) files

theorem fst_bindAttempt {told : FileError → ε} {operation : StateM FileSystem (Except FileError α)}
    {next : α → ExceptT ε (StateM FileSystem) β} (first : ReadsOnly operation)
    (files : FileSystem) :
    ((Project.attempt told operation >>= next).run.run files).1 =
      (((operation.run files).1).mapError told >>= fun value => ((next value).run.run files).1) :=
  fst_bindExcept (attempt first) files

end ReadsOnly

namespace Project

theorem hasSettings_readsOnly (path : Path) :
    ReadsOnly (hasSettings path : StateM FileSystem Bool) := by
  refine ReadsOnly.bind (fun _ => rfl) fun isFile => ?_
  cases isFile with
  | true => exact ReadsOnly.pure _
  | false => exact fun _ => rfl

theorem settingsPath_readsOnly (path : Path) :
    ReadsOnly (settingsPath path : StateM FileSystem Path) := by
  refine ReadsOnly.bind (fun _ => rfl) fun isFile => ?_
  cases isFile with
  | true => exact ReadsOnly.pure _
  | false => exact ReadsOnly.pure _

theorem load_readsOnly (path : Path) :
    ReadsOnly (load path : ExceptT ProjectError (StateM FileSystem) ProjectConfig).run := by
  unfold load
  refine ReadsOnly.bindExcept (ReadsOnly.lift (settingsPath_readsOnly path)) fun file => ?_
  refine ReadsOnly.bindExcept (ReadsOnly.lift fun _ => rfl) fun present => ?_
  cases present with
  | false => exact ReadsOnly.pure _
  | true =>
      refine ReadsOnly.bindExcept (ReadsOnly.attempt fun _ => rfl) fun text => ?_
      cases ProjectConfig.read? text with
      | none => exact ReadsOnly.pure _
      | some project =>
          cases file.parent? with
          | none => exact ReadsOnly.pure _
          | some base => exact ReadsOnly.pure _

theorem configuration_readsOnly (path : Path) (input : Option Path) :
    ReadsOnly (configuration path input :
      ExceptT CommandError (StateM FileSystem) ProjectConfig).run := by
  unfold configuration
  refine ReadsOnly.bindExcept (ReadsOnly.lift (hasSettings_readsOnly path)) fun settled => ?_
  cases settled with
  | false => exact ReadsOnly.pure _
  | true =>
      exact ReadsOnly.bindExcept (ReadsOnly.adapt (load_readsOnly path)) fun project =>
        ReadsOnly.pure _

theorem compile_readsOnly (project : ProjectConfig) :
    ReadsOnly (compile project :
      ExceptT CommandError (StateM FileSystem) (List CompiledTheme)).run := by
  unfold compile
  refine ReadsOnly.bindExcept (ReadsOnly.attempt fun _ => rfl) fun text => ?_
  cases TokenDocument.read project.rootKey project.tokens text with
  | ok document => exact ReadsOnly.pure _
  | error cause => exact ReadsOnly.pure _

theorem plan_readsOnly (path : Path) (input output : Option Path) :
    ReadsOnly (plan path input output : ExceptT CommandError (StateM FileSystem) Build).run := by
  unfold plan
  refine ReadsOnly.bindExcept (configuration_readsOnly path input) fun project => ?_
  refine ReadsOnly.bindExcept (compile_readsOnly _) fun themes => ?_
  exact ReadsOnly.bindExcept (ReadsOnly.pure _) fun artifacts => ReadsOnly.pure _

/-! ## Plans -/

variable {path : Path} {input output : Option Path} {files : FileSystem}

/-- The configuration that is found among files. -/
def configured (path : Path) (input : Option Path) (files : FileSystem) :
    Except CommandError ProjectConfig :=
  ((configuration path input :
    ExceptT CommandError (StateM FileSystem) ProjectConfig).run.run files).1

/-- The plan that a build makes among files. -/
def planned (path : Path) (input output : Option Path) (files : FileSystem) :
    Except CommandError Build :=
  ((plan path input output : ExceptT CommandError (StateM FileSystem) Build).run.run files).1

theorem run_plan (path : Path) (input output : Option Path) (files : FileSystem) :
    (plan path input output : ExceptT CommandError (StateM FileSystem) Build).run.run files =
      (planned path input output files, files) :=
  Prod.ext rfl (plan_readsOnly path input output files)

/-- A project and its token document, as a build finds them among files. -/
structure Finds (path : Path) (input output : Option Path) (files : FileSystem)
    (project : ProjectConfig) (document : TokenDocument) : Prop where
  /-- The project is the one of the path, with its output directory overridden if asked. -/
  settings : ∃ loaded, configured path input files = .ok loaded ∧
    project = { loaded with output := output.getD loaded.output }
  /-- The document is that of the input file. -/
  tokens : ∃ text, files.read project.input = .ok text ∧
    TokenDocument.read project.rootKey project.tokens text = .ok document

/-- The themes that are compiled from the files of a project. -/
def compiled (project : ProjectConfig) (files : FileSystem) :
    Except CommandError (List CompiledTheme) :=
  ((compile project :
    ExceptT CommandError (StateM FileSystem) (List CompiledTheme)).run.run files).1

theorem compiled_eq (project : ProjectConfig) (files : FileSystem) :
    compiled project files = do
      let text ← (files.read project.input).mapError (.unreadable project.input)
      let document ← (TokenDocument.read project.rootKey project.tokens text).mapError
        (.uncompilable project.input)
      return document.compile project.tokens := by
  unfold compiled compile
  refine (ReadsOnly.fst_bindAttempt (fun _ => rfl) files).trans ?_
  refine bind_congr fun text => ?_
  cases TokenDocument.read project.rootKey project.tokens text with
  | error cause => rfl
  | ok document => rfl

/-- A plan takes the settings, the document, the themes and their names one after the other. -/
theorem planned_eq (path : Path) (input output : Option Path) (files : FileSystem) :
    planned path input output files = do
      let loaded ← configured path input files
      let project := { loaded with output := output.getD loaded.output }
      let themes ← compiled project files
      let artifacts ← artifacts project themes
      return { project, themes, artifacts } := by
  unfold planned plan
  rw [ReadsOnly.fst_bindExcept (configuration_readsOnly path input)]
  refine congrArg (configured path input files >>= ·) (funext fun loaded => ?_)
  refine (ReadsOnly.fst_bindExcept (compile_readsOnly _) files).trans ?_
  refine congrArg (compiled _ files >>= ·) (funext fun themes => ?_)
  exact (ReadsOnly.fst_bindExcept (ReadsOnly.pure _) files).trans rfl

theorem exists_document_of_compiled {project : ProjectConfig} {themes : List CompiledTheme}
    (ready : compiled project files = .ok themes) :
    ∃ text document, files.read project.input = .ok text ∧
      TokenDocument.read project.rootKey project.tokens text = .ok document ∧
      themes = document.compile project.tokens := by
  rw [compiled_eq] at ready
  obtain ⟨text, given, ready⟩ := bind_eq_ok_iff.mp ready
  obtain ⟨document, taken, ready⟩ := bind_eq_ok_iff.mp ready
  cases ready
  exact ⟨text, document, mapError_eq_ok_iff.mp given, mapError_eq_ok_iff.mp taken, rfl⟩

/-- A plan is made for the project and the document that are there. -/
theorem finds_of_planned {build : Build} (made : planned path input output files = .ok build) :
    ∃ document, Finds path input output files build.project document ∧
      build.themes = document.compile build.project.tokens ∧
      artifacts build.project build.themes = .ok build.artifacts := by
  rw [planned_eq] at made
  obtain ⟨loaded, settings, made⟩ := bind_eq_ok_iff.mp made
  obtain ⟨themes, ready, made⟩ := bind_eq_ok_iff.mp made
  obtain ⟨list, listed, made⟩ := bind_eq_ok_iff.mp made
  cases made
  obtain ⟨text, document, given, read, rfl⟩ := exists_document_of_compiled ready
  exact ⟨document, ⟨⟨loaded, settings, rfl⟩, text, given, read⟩, rfl, listed⟩

end Project

/-! ## The files of a theme -/

namespace CompiledTheme

/-- The path of a file of a theme in the output of a project. -/
def filePath (project : ProjectConfig) (directory : String) (compiled : CompiledTheme)
    (extension : String) : Path :=
  project.output.join ((⟨directory⟩ : Path).join ⟨compiled.name ++ "." ++ extension⟩)

/-- The four files of a theme hold what is announced. -/
structure HeldBy (project : ProjectConfig) (files : FileSystem) (compiled : CompiledTheme) :
    Prop where
  /-- The palette stylesheet. -/
  paletteText : files.read (compiled.filePath project project.layout.paletteDir
    project.layout.extension) = .ok compiled.palette.text
  /-- The value map of the palette stylesheet. -/
  paletteValues : files.read (compiled.filePath project project.layout.paletteDir "json") =
    .ok compiled.palette.valuesText
  /-- The component stylesheet. -/
  componentsText : files.read (compiled.filePath project project.layout.componentsDir
    project.layout.extension) = .ok compiled.components.text
  /-- The value map of the component stylesheet. -/
  componentsValues : files.read (compiled.filePath project project.layout.componentsDir "json") =
    .ok compiled.components.valuesText

theorem heldBy_iff {project : ProjectConfig} {files : FileSystem} {compiled : CompiledTheme} :
    compiled.HeldBy project files ↔
      ∀ artifact ∈ compiled.fourFiles project.layout,
        files.read ((⟨project.output⟩ : OutputRoot).pathOf artifact) = .ok artifact.content := by
  simp only [fourFiles, Artifact.ofStylesheet, OutputRoot.pathOf, List.forall_mem_append,
    List.forall_mem_cons, List.not_mem_nil, false_imp_iff, implies_true, and_true, append_json]
  constructor
  · rintro ⟨first, second, third, fourth⟩
    exact ⟨⟨first, second⟩, third, fourth⟩
  · rintro ⟨⟨first, second⟩, third, fourth⟩
    exact ⟨first, second, third, fourth⟩

end CompiledTheme

namespace Project

theorem eq_flatMap_of_artifacts {project : ProjectConfig} {themes : List CompiledTheme}
    {list : List Artifact} (given : artifacts project themes = .ok list) :
    list = themes.flatMap (CompiledTheme.fourFiles project.layout) := by
  unfold artifacts at given
  split at given
  case h_1 lists made =>
    rw [← Except.ok.inj given, (CompiledTheme.files_of_accepted made).1, List.flatMap_def]
  case h_2 => simp at given

/-! ## Ends of a build -/

/-- The ways in which a build can end among files, whatever the order of its writes. -/
inductive Ends (path : Path) (input output : Option Path) (files : FileSystem) :
    Outcome → FileSystem → Prop where
  /-- Nothing is written if there is no plan. -/
  | refused {failure : CommandError} (made : planned path input output files = .error failure) :
      Ends path input output files (.failure "" failure) files
  /-- The steps of the planned writes are taken until all writes are over. -/
  | emitted {build : Build} {outcomes : List (Artifact × Option WriteError)} {after : FileSystem}
      (made : planned path input output files = .ok build)
      (reaches : Emission.Reaches ⟨build.project.output⟩
        (.start files build.artifacts) (.finish after outcomes)) :
      Ends path input output files
        (settle ((conclude build (outcomes.map Emission.report)).map Outcome.success)) after

theorem run_build (path : Path) (input output : Option Path) (files : FileSystem) :
    (build path input output : ExceptT CommandError (StateM FileSystem) String).run.run files =
      match planned path input output files with
      | .error failure => (.error failure, files)
      | .ok build =>
          let emitted := (emit (OutputRoot.write ⟨build.project.output⟩) build.artifacts :
            StateM FileSystem (List Report)).run files
          (conclude build emitted.1, emitted.2) := by
  unfold build
  rw [ExceptT.run_bind, StateT.run_bind, run_plan]
  cases planned path input output files with
  | error failure => rfl
  | ok build => rfl

/-- Running the command is one way for the build to end. -/
theorem ends_run (path : Path) (input output : Option Path) (files : FileSystem) :
    let ended := (Command.run (.build path input output) : StateM FileSystem Outcome).run files
    Ends path input output files ended.1 ended.2 := by
  have ran : (Command.run (.build path input output) : StateM FileSystem Outcome).run files =
      (settle (((build path input output :
          ExceptT CommandError (StateM FileSystem) String).run.run files).1.map Outcome.success),
        ((build path input output :
          ExceptT CommandError (StateM FileSystem) String).run.run files).2) := rfl
  rw [ran, run_build]
  cases made : planned path input output files with
  | error failure => exact .refused made
  | ok build =>
      obtain ⟨outcomes, after, emitted, reaches⟩ :=
        Emission.reaches_emit ⟨build.project.output⟩ build.artifacts files
      simp only [emitted]
      exact .emitted made reaches

/-- A build that succeeds has a plan and no failed write. -/
theorem Ends.of_success {outcome : Outcome} {after : FileSystem}
    (ends : Ends path input output files outcome after) (success : outcome.code = 0) :
    ∃ build outcomes, planned path input output files = .ok build ∧
      Emission.Reaches ⟨build.project.output⟩ (.start files build.artifacts)
        (.finish after outcomes) ∧
      ∀ outcome ∈ outcomes, outcome.2 = none := by
  cases ends with
  | refused made => exact absurd success (by simp [Outcome.failure])
  | @emitted build outcomes _ made reaches =>
      refine ⟨build, outcomes, made, reaches, ?_⟩
      intro written member
      cases failed : written.2 with
      | none => rfl
      | some failure =>
          have there : failure ∈ (outcomes.map Emission.report).filterMap Report.failure :=
            List.mem_filterMap.mpr ⟨Emission.report written, List.mem_map_of_mem member, failed⟩
          have filled :
              ((outcomes.map Emission.report).filterMap Report.failure).isEmpty = false :=
            List.isEmpty_eq_false_iff_exists_mem.mpr ⟨failure, there⟩
          simp only [conclude, filled] at success
          exact absurd success (by simp [settle, Except.map, Outcome.failure])

/--
A successful build leaves every file of every theme as announced, in whatever order its writes
took their steps, exactly if no two of the files with different contents have one place.
-/
theorem build_keeps_files_iff {outcome : Outcome} {after : FileSystem}
    (ends : Ends path input output files outcome after) (success : outcome.code = 0) :
    ∃ project document, Finds path input output files project document ∧
      ((∀ theme ∈ document.themes, (theme.compile project.tokens).HeldBy project after) ↔
        Emission.Agree ⟨project.output⟩ files.workingDirectory
          (document.themes.flatMap fun theme =>
            (theme.compile project.tokens).fourFiles project.layout)) := by
  obtain ⟨build, outcomes, made, reaches, written⟩ := ends.of_success success
  obtain ⟨document, finds, themes, listed⟩ := finds_of_planned made
  refine ⟨build.project, document, finds, ?_⟩
  have artifacts_eq : (document.themes.flatMap fun theme =>
      (theme.compile build.project.tokens).fourFiles build.project.layout) = build.artifacts := by
    rw [eq_flatMap_of_artifacts listed, themes, TokenDocument.compile, List.flatMap_map]
  rw [artifacts_eq, ← reaches.reads_iff_agree written, ← artifacts_eq]
  simp only [CompiledTheme.heldBy_iff, List.mem_flatMap]
  constructor
  · rintro all artifact ⟨theme, member, there⟩
    exact all theme member artifact there
  · intro all theme member artifact there
    exact all artifact ⟨theme, member, there⟩

/-- A project whose stylesheets of both kinds go to one directory. -/
def sharedDirectory : FileSystem :=
  (FileSystem.empty.put [] "token.json" (.file "\x7b\"light\": \x7b\x7d\x7d")
    (FileSystem.at?_root _) (by decide)).put [] "cabin-tokens.toml"
      (.file "[output]\npalette_dir = \"d\"\ncomponents_dir = \"d\"\n")
      (FileSystem.at?_root _) (by decide)

/-- The configuration of that project. -/
def sharedProject : ProjectConfig :=
  { input := ⟨"./token.json"⟩, output := ⟨"./."⟩, layout := ⟨"d", "d", "scss"⟩ }

theorem configured_sharedDirectory :
    configured ⟨"."⟩ none sharedDirectory = .ok sharedProject := by
  have found : (configured ⟨"."⟩ none sharedDirectory).toOption = some sharedProject := by
    decide +kernel
  cases settings : configured ⟨"."⟩ none sharedDirectory with
  | error failure =>
      rw [settings] at found
      exact nomatch found
  | ok project =>
      rw [settings] at found
      rw [Option.some.inj found]

theorem finds_sharedDirectory {project : ProjectConfig} {document : TokenDocument}
    (finds : Finds ⟨"."⟩ none none sharedDirectory project document) :
    project = sharedProject ∧
      TokenDocument.read TokenDocument.defaultRootKey {} "\x7b\"light\": \x7b\x7d\x7d" =
        .ok document := by
  obtain ⟨⟨loaded, settings, same⟩, text, given, read⟩ := finds
  rw [configured_sharedDirectory] at settings
  obtain rfl := Except.ok.inj settings
  have shared : project = sharedProject := same
  subst shared
  have content : sharedDirectory.read sharedProject.input =
      .ok "\x7b\"light\": \x7b\x7d\x7d" := by rfl
  rw [content] at given
  rw [← Except.ok.inj given] at read
  exact ⟨rfl, read⟩

/-- The build of that project succeeds and loses files. -/
theorem build_sharedDirectory_loses_files :
    ((Command.run (.build ⟨"."⟩ none none) :
        StateM FileSystem Outcome).run sharedDirectory).1.code = 0 ∧
      ∃ document, Finds ⟨"."⟩ none none sharedDirectory sharedProject document ∧
        ¬ ∀ theme ∈ document.themes,
          (theme.compile sharedProject.tokens).HeldBy sharedProject
            ((Command.run (.build ⟨"."⟩ none none) :
              StateM FileSystem Outcome).run sharedDirectory).2 := by
  have success : ((Command.run (.build ⟨"."⟩ none none) :
      StateM FileSystem Outcome).run sharedDirectory).1.code = 0 := by decide +kernel
  obtain ⟨project, document, finds, held⟩ :=
    build_keeps_files_iff (ends_run ⟨"."⟩ none none sharedDirectory) success
  obtain ⟨rfl, read⟩ := finds_sharedDirectory finds
  refine ⟨success, document, finds, ?_⟩
  rw [held]
  have clash : ((TokenDocument.read TokenDocument.defaultRootKey {}
      "\x7b\"light\": \x7b\x7d\x7d").toOption.map fun document =>
        decide (Emission.Agree ⟨sharedProject.output⟩ sharedDirectory.workingDirectory
          (document.themes.flatMap fun theme =>
            (theme.compile sharedProject.tokens).fourFiles sharedProject.layout))) =
              some false := by
    decide +kernel
  rw [read] at clash
  exact of_decide_eq_false (Option.some.inj clash)

end Project
end DesignTokens
