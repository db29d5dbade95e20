import DesignTokens.Proofs.Routes
import DesignTokens.Proofs.ThemeFiles
import Mathlib.Data.List.Forall2

/-!
# Where the files of a theme lie

The name of a theme becomes a part of four file names.  It is accepted exactly if it is one name and
has no slash of either direction; then each of the four files lies directly in its directory,
however the directory and the root above it are spelled.
-/

namespace DesignTokens

namespace Artifact

/-- A name is plain if it names one thing and has no slash of either direction. -/
theorem isPlainName_iff {name : String} :
    isPlainName name = true ↔
      name ≠ "" ∧ name ≠ "." ∧ name ≠ ".." ∧ '/' ∉ name.toList ∧ '\\' ∉ name.toList := by
  constructor
  · intro plain
    obtain ⟨slashless, filled, point, double⟩ := CompiledTheme.isName_of_isPlainName plain
    refine ⟨filled, point, double, slashless, ?_⟩
    simp only [isPlainName, Bool.and_eq_true, Bool.not_eq_true', List.contains_eq_mem,
      decide_eq_false_iff_not] at plain
    exact plain.1.2
  · rintro ⟨filled, point, double, slashless, straight⟩
    have isName : Path.IsName name := ⟨slashless, filled, point, double⟩
    simp [isPlainName, isName.components, slashless, straight]

/-- A file lies directly in a directory under a name, below whatever root the two are put. -/
structure LiesIn (directory : Path) (name : String) (file : Artifact) : Prop where
  /-- The path has one component more than the directory. -/
  components : file.path.components = directory.components ++ [.normal name]
  /-- Below a root, it still has. -/
  below : ∀ root : Path,
    (root.join file.path).components = (root.join directory).components ++ [.normal name]
  /-- The place of the file is in the directory. -/
  place : ∀ (root : Path) (workingDirectory : Location),
    (root.join file.path).place workingDirectory =
      (root.join directory).place workingDirectory ++ [name]

/-- A file whose name is joined to a directory lies in it. -/
theorem liesIn_of_isName {name : String} (isName : Path.IsName name) (directory : Path)
    (content : String) : LiesIn directory name ⟨directory.join ⟨name⟩, content⟩ := by
  have below (root : Path) : (root.join (directory.join ⟨name⟩)).components =
      (root.join directory).components ++ [.normal name] := by
    rw [← Path.join_join isName.plain.relative, isName.components_join]
  refine ⟨isName.components_join directory, below, fun root workingDirectory => ?_⟩
  rw [Path.place_eq_goal, below, Path.goal_append_normal, ← Path.place_eq_goal]

end Artifact

/-- The directories and the names of the files of a theme. -/
def Layout.spots (layout : Layout) (name : String) : List (Path × String) :=
  [(⟨layout.paletteDir⟩, name ++ "." ++ layout.extension),
    (⟨layout.paletteDir⟩, name ++ ".json"),
    (⟨layout.componentsDir⟩, name ++ "." ++ layout.extension),
    (⟨layout.componentsDir⟩, name ++ ".json")]

namespace CompiledTheme

variable {layout : Layout} {compiled : CompiledTheme}

theorem fourFiles_lieIn (slashless : '/' ∉ layout.extension.toList)
    (isName : Path.IsName compiled.name) :
    List.Forall₂ (fun file spot => file.LiesIn spot.1 spot.2) (compiled.fourFiles layout)
      (layout.spots compiled.name) := by
  have sheet := isName.withExtension slashless
  have values := isName_json isName
  exact .cons (Artifact.liesIn_of_isName sheet _ _) (.cons (Artifact.liesIn_of_isName values _ _)
    (.cons (Artifact.liesIn_of_isName sheet _ _)
      (.cons (Artifact.liesIn_of_isName values _ _) .nil)))

/--
A theme has files exactly if its name is one name without slashes; else it is told that name.  Its
files lie directly in the two directories of the layout.
-/
theorem files_lie_in_directories (slashless : '/' ∉ layout.extension.toList)
    (compiled : CompiledTheme) :
    ((∃ files, compiled.artifacts layout = .ok files) ↔
        compiled.name ≠ "" ∧ compiled.name ≠ "." ∧ compiled.name ≠ ".." ∧
          '/' ∉ compiled.name.toList ∧ '\\' ∉ compiled.name.toList) ∧
      (∀ cause, compiled.artifacts layout = .error cause →
        cause = .invalidThemeName compiled.name) ∧
      ∀ files, compiled.artifacts layout = .ok files →
        List.Forall₂ (fun file spot => file.LiesIn spot.1 spot.2) files
          (layout.spots compiled.name) := by
  simp only [← Artifact.isPlainName_iff, artifacts_eq_ok_iff, artifacts_eq_error_iff]
  refine ⟨?_, fun cause failed => failed.2, ?_⟩
  · exact ⟨fun ⟨_, plain, _⟩ => plain, fun plain => ⟨_, plain, rfl⟩⟩
  · rintro files ⟨plain, rfl⟩
    exact fourFiles_lieIn slashless (isName_of_isPlainName plain)

/-- A theme named by three points, in directories with odd spellings, one of them the root. -/
theorem files_lie_in_oddDirectories :
    let layout : Layout := ⟨"./parts//x/..", "/", "min..json"⟩
    let files := (bare "...").fourFiles layout
    '/' ∉ layout.extension.toList ∧ (bare "...").artifacts layout = .ok files ∧
      List.Forall₂ (fun file spot => file.LiesIn spot.1 spot.2) files (layout.spots "...") ∧
      files.map (fun file => ((⟨"out/"⟩ : Path).join file.path).text) =
        ["out/./parts//x/../....min..json", "out/./parts//x/../....json", "/....min..json",
          "/....json"] := by
  intro layout files
  have slashless : '/' ∉ layout.extension.toList := by decide
  have accepted : (bare "...").artifacts layout = .ok files := by decide
  obtain ⟨_, _, lie⟩ := files_lie_in_directories slashless (bare "...")
  exact ⟨slashless, accepted, lie files accepted, by decide⟩

end CompiledTheme
end DesignTokens
