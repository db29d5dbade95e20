import DesignTokens.Proofs.Attempts
import DesignTokens.Proofs.JoinedPaths
import DesignTokens.Proofs.StoreRuns
import Mathlib.Data.List.Flatten
import Mathlib.Data.List.Pairwise

/-!
# The files of themes

Every accepted theme has four files, two in each directory of a layout.  The files of themes with
different names are at different places exactly if the two directories are and no stylesheet takes
the name of a value map; then a store keeps all of them, whatever the order of their writes.
-/

namespace DesignTokens

namespace CompiledTheme

variable {layout : Layout}

/-- The four files of a theme. -/
def fourFiles (layout : Layout) (compiled : CompiledTheme) : List Artifact :=
  Artifact.ofStylesheet layout layout.paletteDir compiled.name compiled.palette ++
    Artifact.ofStylesheet layout layout.componentsDir compiled.name compiled.components

/-! ## Accepted themes -/

theorem isName_of_isPlainName {name : String} (plain : Artifact.isPlainName name = true) :
    Path.IsName name := by
  simp only [Artifact.isPlainName, Bool.and_eq_true, Bool.not_eq_true', decide_eq_true_eq,
    List.contains_eq_mem, decide_eq_false_iff_not] at plain
  obtain ⟨⟨slashless, _⟩, single⟩ := plain
  refine ⟨slashless, ?_, ?_, ?_⟩
  all_goals
    rintro rfl
    exact absurd single (by decide)

theorem artifacts_eq_ok_iff {compiled : CompiledTheme} {list : List Artifact} :
    compiled.artifacts layout = .ok list ↔
      Artifact.isPlainName compiled.name = true ∧ list = compiled.fourFiles layout := by
  unfold artifacts
  split
  case isTrue plain =>
    exact ⟨fun given => ⟨plain, (Except.ok.inj given).symm⟩, fun given => given.2 ▸ rfl⟩
  case isFalse odd => exact ⟨nofun, fun given => absurd given.1 odd⟩

theorem artifacts_eq_error_iff {compiled : CompiledTheme} {cause : TokenError} :
    compiled.artifacts layout = .error cause ↔
      Artifact.isPlainName compiled.name = false ∧ cause = .invalidThemeName compiled.name := by
  unfold artifacts
  split
  case isTrue plain => exact ⟨nofun, fun given => absurd (plain.symm.trans given.1) (by decide)⟩
  case isFalse odd =>
    exact ⟨fun given => ⟨Bool.eq_false_iff.mpr odd, (Except.error.inj given).symm⟩,
      fun given => given.2 ▸ rfl⟩

/-- Accepted themes are named like files and have four files each. -/
theorem files_of_accepted {themes : List CompiledTheme} {lists : List (List Artifact)}
    (accepted : themes.mapM (artifacts layout) = .ok lists) :
    lists = themes.map (fourFiles layout) ∧ ∀ theme ∈ themes, Path.IsName theme.name := by
  constructor
  · have same : List.Forall₂ (· = ·) lists (themes.map (fourFiles layout)) :=
      List.forall₂_map_right_iff.mpr
        ((forall₂_of_mapM accepted).flip.imp fun _ _ given => (artifacts_eq_ok_iff.mp given).2)
    rwa [List.forall₂_eq_eq_eq] at same
  · intro theme member
    obtain ⟨list, given⟩ := exists_ok_of_mapM accepted theme member
    exact isName_of_isPlainName (artifacts_eq_ok_iff.mp given).1

/-! ## Places -/

theorem append_json (name : String) : name ++ ".json" = name ++ "." ++ "json" := by
  rw [String.append_assoc]
  rfl

theorem isName_json {name : String} (isName : Path.IsName name) :
    Path.IsName (name ++ ".json") := by
  rw [append_json]
  exact isName.withExtension (by decide)

/-- The stylesheets of one theme would take the names of the value maps of another one. -/
def Clashes (layout : Layout) (first second : CompiledTheme) : Prop :=
  first.name ++ "." ++ layout.extension = second.name ++ ".json"

section Places

variable {first second : CompiledTheme} (slashless : '/' ∉ layout.extension.toList)
  (firstName : Path.IsName first.name) (secondName : Path.IsName second.name)

include slashless firstName in
/-- The files of one theme are apart if the directories are and it does not clash with itself. -/
theorem pathsDiffer_fourFiles_iff :
    Artifact.PathsDiffer (first.fourFiles layout) ↔
      ¬ (⟨layout.paletteDir⟩ : Path).Same ⟨layout.componentsDir⟩ ∧ ¬ Clashes layout first first := by
  have sheet := firstName.withExtension slashless
  have values := isName_json firstName
  have mirrored : first.name ++ ".json" = first.name ++ "." ++ layout.extension ↔
      Clashes layout first first := eq_comm
  have clashes : first.name ++ "." ++ layout.extension = first.name ++ ".json" ↔
      Clashes layout first first := Iff.rfl
  simp only [Artifact.PathsDiffer, fourFiles, Artifact.ofStylesheet, List.cons_append,
    List.nil_append, List.pairwise_cons, List.forall_mem_cons, List.not_mem_nil, false_imp_iff,
    implies_true, List.Pairwise.nil, and_true, sheet.same_join_iff sheet,
    sheet.same_join_iff values, values.same_join_iff sheet, values.same_join_iff values,
    Path.Same.refl, clashes, mirrored]
  tauto

theorem exists_of_mem_fourFiles {file : Artifact} (member : file ∈ first.fourFiles layout) :
    ∃ (directory : Path) (name : String), file.path = directory.join ⟨name⟩ ∧
      (name = first.name ++ "." ++ layout.extension ∨ name = first.name ++ ".json") := by
  simp only [fourFiles, Artifact.ofStylesheet, List.cons_append, List.nil_append, List.mem_cons,
    List.not_mem_nil, or_false] at member
  rcases member with rfl | rfl | rfl | rfl
  · exact ⟨_, _, rfl, .inl rfl⟩
  · exact ⟨_, _, rfl, .inr rfl⟩
  · exact ⟨_, _, rfl, .inl rfl⟩
  · exact ⟨_, _, rfl, .inr rfl⟩

include slashless firstName secondName in
/-- The files of two themes with different names are apart if neither clashes with the other. -/
theorem fourFiles_apart_iff (differ : first.name ≠ second.name) :
    (∀ file ∈ first.fourFiles layout, ∀ other ∈ second.fourFiles layout,
        ¬ file.path.Same other.path) ↔
      ¬ Clashes layout first second ∧ ¬ Clashes layout second first := by
  have sheet := firstName.withExtension slashless
  have otherSheet := secondName.withExtension slashless
  have values := isName_json firstName
  have otherValues := isName_json secondName
  constructor
  · intro apart
    refine ⟨fun clash => ?_, fun clash => ?_⟩
    · exact apart _ List.mem_cons_self _ (List.mem_cons_of_mem _ List.mem_cons_self)
        ((sheet.same_join_iff otherValues).mpr ⟨.refl _, clash⟩)
    · exact apart _ (List.mem_cons_of_mem _ List.mem_cons_self) _ List.mem_cons_self
        ((values.same_join_iff otherSheet).mpr ⟨.refl _, clash.symm⟩)
  · rintro ⟨ahead, behind⟩ file member other there same
    obtain ⟨directory, name, path, name_eq⟩ := exists_of_mem_fourFiles member
    obtain ⟨below, otherName, otherPath, other_eq⟩ := exists_of_mem_fourFiles there
    rw [path, otherPath] at same
    rcases name_eq with rfl | rfl
    · rcases other_eq with rfl | rfl
      · have equal := ((sheet.same_join_iff otherSheet).mp same).2
        exact differ (by simpa using equal)
      · exact ahead ((sheet.same_join_iff otherValues).mp same).2
    · rcases other_eq with rfl | rfl
      · exact behind ((values.same_join_iff otherSheet).mp same).2.symm
      · have equal := ((values.same_join_iff otherValues).mp same).2
        exact differ (by simpa using equal)

end Places

/-- The files of themes are apart if the directories are and no theme clashes with a theme. -/
theorem pathsDiffer_flatMap_iff {themes : List CompiledTheme} (some : themes ≠ [])
    (names : (themes.map CompiledTheme.name).Nodup) (slashless : '/' ∉ layout.extension.toList)
    (accepted : ∀ theme ∈ themes, Path.IsName theme.name) :
    Artifact.PathsDiffer (themes.flatMap (fourFiles layout)) ↔
      ¬ (⟨layout.paletteDir⟩ : Path).Same ⟨layout.componentsDir⟩ ∧
        ∀ first ∈ themes, ∀ second ∈ themes, ¬ Clashes layout first second := by
  have different : themes.Pairwise fun first second => first.name ≠ second.name :=
    List.pairwise_map.mp names
  rw [Artifact.PathsDiffer, List.pairwise_flatMap]
  constructor
  · rintro ⟨each, between⟩
    have own : ∀ theme ∈ themes, ¬ (⟨layout.paletteDir⟩ : Path).Same ⟨layout.componentsDir⟩ ∧
        ¬ Clashes layout theme theme := fun theme member =>
      (pathsDiffer_fourFiles_iff slashless (accepted theme member)).mp (each theme member)
    have free : themes.Pairwise fun first second =>
        ¬ Clashes layout first second ∧ ¬ Clashes layout second first :=
      (different.and between).imp_of_mem fun here there apart =>
        (fourFiles_apart_iff slashless (accepted _ here) (accepted _ there) apart.1).mp apart.2
    have : Std.Symm fun first second : CompiledTheme =>
        ¬ Clashes layout first second ∧ ¬ Clashes layout second first := ⟨fun _ _ => And.symm⟩
    obtain ⟨theme, member⟩ := List.exists_mem_of_ne_nil themes some
    refine ⟨(own theme member).1, fun first here second there => ?_⟩
    exact (free.forall_of_forall (fun _ inside => ⟨(own _ inside).2, (own _ inside).2⟩)
      here there).1
  · rintro ⟨directories, free⟩
    refine ⟨fun theme member => ?_, different.imp_of_mem fun here there differ => ?_⟩
    · exact (pathsDiffer_fourFiles_iff slashless (accepted theme member)).mpr
        ⟨directories, free theme member theme member⟩
    · exact (fourFiles_apart_iff slashless (accepted _ here) (accepted _ there) differ).mpr
        ⟨free _ here _ there, free _ there _ here⟩

/--
The files of accepted themes with different names are at different places if and only if the two
directories are and no theme clashes with a theme.  A store then keeps all files in whatever order
they are written.
-/
theorem pathsDiffer_artifacts_iff {themes : List CompiledTheme} {lists : List (List Artifact)}
    (some : themes ≠ []) (names : (themes.map CompiledTheme.name).Nodup)
    (slashless : '/' ∉ layout.extension.toList)
    (accepted : themes.mapM (artifacts layout) = .ok lists) :
    lists.flatten.length = 4 * themes.length ∧
      (Artifact.PathsDiffer lists.flatten ↔
        ¬ (⟨layout.paletteDir⟩ : Path).Same ⟨layout.componentsDir⟩ ∧
          ∀ first ∈ themes, ∀ second ∈ themes, ¬ Clashes layout first second) ∧
      (Artifact.PathsDiffer lists.flatten → ∀ order, order.Perm lists.flatten →
        let after := (((Store.Action.emit order).run {}).run .empty).2
        after.files.length = 4 * themes.length ∧
          ∀ artifact ∈ lists.flatten, after.get? artifact.path = artifact.content) := by
  obtain ⟨files, named⟩ := files_of_accepted accepted
  replace files : lists.flatten = themes.flatMap (fourFiles layout) := by
    rw [files, List.flatMap_def]
  have length : lists.flatten.length = 4 * themes.length := by
    rw [files, List.length_flatMap]
    simp [fourFiles, Artifact.ofStylesheet, Nat.mul_comm]
  refine ⟨length, ?_, fun differ order same => ?_⟩
  · rw [files]
    exact pathsDiffer_flatMap_iff some names slashless named
  · have ordered : Artifact.PathsDiffer order :=
      (same.pairwise_iff fun {_ _} apart clash => apart clash.symm).mpr differ
    have run : ((Store.Action.emit order).run {}).run .empty =
        (order.map fun artifact => ⟨artifact.path, none⟩, Store.ofLog order) :=
      Store.run_emit_unbarred order []
    obtain ⟨count, contents⟩ := Store.ofLog_keeps ordered
    rw [run]
    refine ⟨?_, fun artifact member => contents artifact (same.mem_iff.mpr member)⟩
    rw [count, same.length_eq, length]

/-- A theme without declarations. -/
def bare (name : String) : CompiledTheme :=
  ⟨name, ⟨"", .empty, .empty⟩, ⟨"", .empty, .empty⟩⟩

/-- Two themes whose stylesheets have the extension of value maps, without a clash. -/
theorem pathsDiffer_bare :
    let layout : Layout := { paletteDir := "parts//palette", extension := "x.json" }
    let themes := [bare "dark", bare "light.x"]
    let files := themes.flatMap (fourFiles layout)
    themes ≠ [] ∧ (themes.map CompiledTheme.name).Nodup ∧ '/' ∉ layout.extension.toList ∧
      themes.mapM (artifacts layout) = .ok (themes.map (fourFiles layout)) ∧
      Artifact.PathsDiffer files ∧
      (((Store.Action.emit files.reverse).run {}).run .empty).2.files.length = 8 := by
  intro layout themes files
  have some : themes ≠ [] := List.cons_ne_nil _ _
  have names : (themes.map CompiledTheme.name).Nodup := by decide
  have slashless : '/' ∉ layout.extension.toList := by decide
  have accepted : themes.mapM (artifacts layout) = .ok (themes.map (fourFiles layout)) := by
    decide
  obtain ⟨_, differ, kept⟩ := pathsDiffer_artifacts_iff some names slashless accepted
  have free : ∀ first ∈ themes, ∀ second ∈ themes,
      first.name ++ "." ++ layout.extension ≠ second.name ++ ".json" := by decide
  have apart := differ.mpr ⟨by decide, free⟩
  exact ⟨some, names, slashless, accepted, apart,
    (kept apart files.reverse (List.reverse_perm files)).1⟩

end CompiledTheme
end DesignTokens
