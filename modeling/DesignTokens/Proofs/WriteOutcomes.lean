import DesignTokens.Proofs.Emission
import DesignTokens.Proofs.JoinedPaths
import DesignTokens.Proofs.MakingDirectories

/-!
# What the outcome of a write depends on

The first step of a write looks at the barred places on the way to its artifact, and the second
one at what can be entered up to the artifact itself.  Artifacts below one root, none of which is
above another one, stay out of each other's way.
-/

namespace DesignTokens

/-- Outcomes of a write that are the same up to how a file in the way of a directory is told. -/
def WriteError.Alike (left right : Option WriteError) : Prop :=
  left = right ∨
    ∃ path cause known, left = some (.createDirectory path cause) ∧
      right = some (.createDirectory path known) ∧ cause.Alike known

theorem WriteError.alike_none_iff {left right : Option WriteError}
    (alike : WriteError.Alike left right) : left = none ↔ right = none := by
  rcases alike with rfl | ⟨path, cause, known, rfl, rfl, _⟩
  · rfl
  · simp

namespace OutputRoot

open DesignTokens.Path FileSystem

variable (root : OutputRoot) (artifact : Artifact) (files : FileSystem)

/-- The places on the way to an artifact. -/
def way (workingDirectory : Location) : List Location :=
  (root.pathOf artifact).parent?.elim [] fun above => route workingDirectory above.components

/-- The places on the way to an artifact that become directories. -/
def cleared : List Location :=
  (root.pathOf artifact).parent?.elim [] fun above =>
    if flaw above = none then files.passed (files.routeOf above) else []

/-- Whether the way to an artifact starts in a directory. -/
def Grounded : Prop :=
  files.Grounded files.workingDirectory (root.pathOf artifact).components

/-- What the first step of a write tells of making the directories above its artifact. -/
def toldAbove (above : Path) : Except FileError Unit → Option WriteError
  | .ok _ => none
  | .error cause => some (.createDirectory above cause)

/-- What the first step of a write comes to. -/
structure Prepares (failure : Option WriteError) (after : FileSystem) : Prop where
  /-- The cleared places become directories, and nothing else changes. -/
  entries : ∀ location, after.at? location =
    if location ∈ root.cleared artifact files ∧ files.at? location = none then some .directory
    else files.at? location
  /-- The cleared places can be entered afterwards. -/
  passes : ∀ place ∈ root.cleared artifact files, after.refusal place = none
  /-- The whole way is cleared by a success. -/
  whole : failure = none →
    root.cleared artifact files = root.way artifact files.workingDirectory

variable {root artifact files}

theorem toldAbove_eq_none_iff {above : Path} {outcome : Except FileError Unit} :
    toldAbove above outcome = none ↔ outcome = .ok () := by
  cases outcome with
  | ok done => simp [toldAbove]
  | error cause => simp [toldAbove]

theorem alike_toldAbove {left right : Except FileError Unit} (above : Path)
    (agree : right = .ok () ↔ left = .ok ())
    (alike : ∀ cause known, left = .error cause → right = .error known → cause.Alike known) :
    WriteError.Alike (toldAbove above left) (toldAbove above right) := by
  cases left with
  | ok done =>
      rw [agree.mpr rfl]
      exact Or.inl rfl
  | error cause =>
      cases right with
      | ok redone => cases agree.mp rfl
      | error known => exact Or.inr ⟨above, cause, known, rfl, rfl, alike cause known rfl rfl⟩

theorem prepared_of_top (top : (root.pathOf artifact).parent? = none) (files : FileSystem) :
    root.prepared artifact files = (none, files) := by
  rw [prepared_eq, top]

theorem prepared_of_above {above : Path} (up : (root.pathOf artifact).parent? = some above)
    (files : FileSystem) :
    root.prepared artifact files =
      (toldAbove above (files.createDirectories above).1, (files.createDirectories above).2) := by
  rw [prepared_eq, up]
  dsimp only
  rcases files.createDirectories above with ⟨cause | done, after⟩
  · rfl
  · rfl

theorem fst_stored (root : OutputRoot) (artifact : Artifact) (files : FileSystem) :
    (root.stored artifact files).1 =
      match (files.write (root.pathOf artifact) artifact.content).1 with
      | .ok _ => none
      | .error cause => some (.write (root.pathOf artifact) cause) := by
  rw [stored_eq]
  rcases files.write (root.pathOf artifact) artifact.content with ⟨cause | done, after⟩
  · rfl
  · rfl

theorem grounded_above {above : Path} (grounded : root.Grounded artifact files)
    (up : (root.pathOf artifact).parent? = some above) :
    files.Grounded files.workingDirectory above.components := by
  obtain ⟨component, components⟩ := components_of_parent? up
  unfold Grounded at grounded
  rw [components] at grounded
  exact grounded.of_append

theorem grounded_of_grows {rewritten : Location → Prop} {later : FileSystem}
    (grows : GrowsInto rewritten files later) (grounded : root.Grounded artifact files) :
    root.Grounded artifact later := by
  unfold Grounded at grounded ⊢
  rw [grows.view]
  exact grounded.mono grows.directories

theorem mem_way_of_mem_cleared {place : Location} (member : place ∈ root.cleared artifact files) :
    place ∈ root.way artifact files.workingDirectory := by
  unfold cleared at member
  unfold way
  cases up : (root.pathOf artifact).parent? with
  | none =>
      rw [up] at member
      exact member
  | some above =>
      rw [up, Option.elim_some] at member
      split at member
      · exact mem_of_mem_passed member
      · exact absurd member List.not_mem_nil

theorem prepares (grounded : root.Grounded artifact files) :
    Prepares root artifact files (root.prepared artifact files).1
      (root.prepared artifact files).2 := by
  cases up : (root.pathOf artifact).parent? with
  | none =>
      have nothing : root.cleared artifact files = [] := by rw [cleared, up, Option.elim_none]
      rw [prepared_of_top up]
      exact ⟨by simp [nothing], by simp [nothing], fun _ => by rw [nothing, way, up]; rfl⟩
  | some above =>
      rw [prepared_of_above up]
      cases flawed : flaw above with
      | some failure =>
          have nothing : root.cleared artifact files = [] := by simp [cleared, up, flawed]
          rw [createDirectories_of_flaw flawed]
          exact ⟨by simp [nothing], by simp [nothing], by simp [toldAbove]⟩
      | none =>
          have passes : root.cleared artifact files = files.passed (files.routeOf above) := by
            simp [cleared, up, flawed]
          have clears := clears_createDirectories flawed (ends_of_parent? up)
            (grounded_above grounded up)
          constructor
          · rw [passes]
            exact clears.entries
          · rw [passes]
            exact fun place => clears.refusal_eq_none
          · intro told
            rw [toldAbove_eq_none_iff.mp told] at clears
            rw [passes, clears.passed_eq, way, up, Option.elim_some, routeOf]

section Congruence

variable {other : FileSystem}

theorem cleared_congr (view : other.workingDirectory = files.workingDirectory)
    (same : ∀ place ∈ root.way artifact files.workingDirectory,
      other.bars place = files.bars place) :
    root.cleared artifact other = root.cleared artifact files := by
  unfold cleared
  unfold way at same
  cases up : (root.pathOf artifact).parent? with
  | none => rfl
  | some above =>
      rw [up, Option.elim_some] at same
      have places := routeOf_congr view above
      have passes : other.passed (files.routeOf above) = files.passed (files.routeOf above) :=
        passed_congr same
      simp only [Option.elim_some, places, passes]

/-- Where the same places on the way are barred, the first step comes to the same. -/
theorem prepared_alike (grounded : root.Grounded artifact files)
    (again : root.Grounded artifact other)
    (view : other.workingDirectory = files.workingDirectory)
    (same : ∀ place ∈ root.way artifact files.workingDirectory,
      other.bars place = files.bars place) :
    WriteError.Alike (root.prepared artifact files).1 (root.prepared artifact other).1 ∧
      (.parent ∉ (root.pathOf artifact).components →
        (root.prepared artifact files).1 = (root.prepared artifact other).1) := by
  unfold way at same
  cases up : (root.pathOf artifact).parent? with
  | none =>
      rw [prepared_of_top up, prepared_of_top up]
      exact ⟨Or.inl rfl, fun _ => rfl⟩
  | some above =>
      rw [up, Option.elim_some] at same
      rw [prepared_of_above up, prepared_of_above up]
      cases flawed : flaw above with
      | some failure =>
          rw [createDirectories_of_flaw flawed, createDirectories_of_flaw flawed]
          exact ⟨Or.inl rfl, fun _ => rfl⟩
      | none =>
          have first := clears_createDirectories flawed (ends_of_parent? up)
            (grounded_above grounded up)
          have second := clears_createDirectories flawed (ends_of_parent? up)
            (grounded_above again up)
          refine ⟨alike_toldAbove above (first.done_iff second view same) ?_, fun down => ?_⟩
          · intro cause known failed refailed
            rw [failed] at first
            rw [refailed] at second
            exact (first.alike second view same).1
          · have above_down : .parent ∉ above.components := by
              obtain ⟨component, components⟩ := components_of_parent? up
              exact fun there => down (components ▸ List.mem_append_left [component] there)
            rw [first.eq_of_down second view same above_down]

/-- Where the same places can be entered, the second step comes to the same. -/
theorem fst_stored_congr (grounded : root.Grounded artifact files)
    (again : root.Grounded artifact other)
    (view : other.workingDirectory = files.workingDirectory)
    (same : ∀ place ∈ files.routeOf (root.pathOf artifact),
      files.refusal place = other.refusal place) :
    (root.stored artifact files).1 = (root.stored artifact other).1 := by
  rw [fst_stored, fst_stored, fst_write_congr grounded again view same artifact.content]

end Congruence

theorem written_of_prepared {files : FileSystem}
    (done : (root.prepared artifact files).1 = none) :
    root.written artifact files = root.stored artifact (root.prepared artifact files).2 := by
  rw [written_eq]
  rcases first : root.prepared artifact files with ⟨failure | failure, middle⟩
  · rfl
  · rw [first] at done
    cases done

theorem fst_written_of_failed {files : FileSystem} {failure : WriteError}
    (failed : (root.prepared artifact files).1 = some failure) :
    (root.written artifact files).1 = some failure := by
  rw [written_eq]
  rcases first : root.prepared artifact files with ⟨other | other, middle⟩
  · rw [first] at failed
    cases failed
  · rw [first] at failed
    exact failed

theorem prepared_of_written {files : FileSystem}
    (done : (root.written artifact files).1 = none) :
    (root.prepared artifact files).1 = none := by
  cases first : (root.prepared artifact files).1 with
  | none => rfl
  | some failure =>
      rw [fst_written_of_failed first] at done
      cases done

/-- A second step changes nothing if it fails, and else the place of its artifact. -/
theorem stored_cases (root : OutputRoot) (artifact : Artifact) (files : FileSystem) :
    (∃ failure, root.stored artifact files = (some failure, files)) ∨
      (root.stored artifact files).1 = none ∧
        ∀ location, (root.stored artifact files).2.at? location =
          if location = root.placeOf artifact files.workingDirectory then
            some (.file artifact.content)
          else files.at? location := by
  rw [stored_eq]
  rcases files.write_cases (root.pathOf artifact) artifact.content with ⟨failure, failed⟩ |
    ⟨directory, name, house, free, found, _, done⟩
  · rw [failed]
    exact Or.inl ⟨_, rfl⟩
  · rw [done]
    refine Or.inr ⟨rfl, fun location => ?_⟩
    rw [placeOf, ← place_of_target found, at?_put]
    rfl

end OutputRoot

/-! ## Artifacts apart from each other -/

/-- Artifacts neither of which is the other one or above it. -/
def Artifact.Apart (left right : Artifact) : Prop :=
  ¬ left.path.components <+: right.path.components ∧
    ¬ right.path.components <+: left.path.components

instance (left right : Artifact) : Decidable (Artifact.Apart left right) :=
  inferInstanceAs (Decidable (_ ∧ _))

theorem Artifact.Apart.symm {left right : Artifact} (apart : left.Apart right) :
    right.Apart left :=
  ⟨apart.2, apart.1⟩

instance : Std.Symm Artifact.Apart := ⟨fun _ _ apart => apart.symm⟩

theorem Path.Plain.exists_names {path : Path} (plain : path.Plain) :
    ∃ names : List String, path.components = names.map .normal := by
  have named := plain.named
  generalize path.components = components at named
  induction components with
  | nil => exact ⟨[], rfl⟩
  | cons component components ih =>
      obtain ⟨name, rfl⟩ := named component List.mem_cons_self
      obtain ⟨names, rfl⟩ := ih fun inner inside => named inner (List.mem_cons_of_mem _ inside)
      exact ⟨name :: names, rfl⟩

theorem Path.Plain.of_names {path : Path} (names : List String)
    (relative : path.isAbsolute = false) (spelled : path.components = names.map .normal) :
    path.Plain where
  relative := relative
  named component member := by
    rw [spelled] at member
    obtain ⟨name, _, same⟩ := List.mem_map.mp member
    exact ⟨name, same.symm⟩

namespace OutputRoot

open DesignTokens.Path

section Apart

variable {root : OutputRoot} {artifact other : Artifact} {workingDirectory place : Location}

theorem components_pathOf (plain : artifact.path.Plain) :
    (root.pathOf artifact).components = root.path.components ++ artifact.path.components :=
  components_join plain

theorem down_pathOf (plain : artifact.path.Plain) (down : .parent ∉ root.path.components) :
    .parent ∉ (root.pathOf artifact).components := by
  rw [components_pathOf plain]
  intro member
  rcases List.mem_append.mp member with above | below
  · exact down above
  · obtain ⟨name, same⟩ := plain.named _ below
    cases same

theorem placeOf_eq (plain : artifact.path.Plain) :
    root.placeOf artifact workingDirectory =
      goal (goal workingDirectory root.path.components) artifact.path.components := by
  rw [placeOf, place_eq_goal, components_pathOf plain, goal_append]

/-- The way to an artifact goes along the route of the root and past the directories below it. -/
theorem way_eq (plain : artifact.path.Plain) (filled : artifact.path.components ≠ []) :
    root.way artifact workingDirectory =
      route workingDirectory (root.path.components ++ artifact.path.components.dropLast) := by
  obtain ⟨names, spelled⟩ := plain.exists_names
  rcases List.eq_nil_or_concat' names with rfl | ⟨front, name, rfl⟩
  · exact absurd spelled filled
  · have components : (root.pathOf artifact).components =
        (root.path.components ++ front.map .normal) ++ [.normal name] := by
      rw [components_pathOf plain, spelled, List.map_append, List.append_assoc]
      rfl
    have ends : artifact.path.components.dropLast = front.map .normal := by
      rw [spelled, List.map_append, List.map_singleton, List.dropLast_concat]
    rw [way, ends]
    obtain ⟨above, up, same⟩ := exists_parent?_of_normal components
    rw [up, Option.elim_some, same]

theorem mem_way_or_eq (member : place ∈ route workingDirectory (root.pathOf artifact).components) :
    place ∈ root.way artifact workingDirectory ∨
      place = root.placeOf artifact workingDirectory := by
  rw [way, placeOf, place_eq_goal]
  cases up : (root.pathOf artifact).parent? with
  | none =>
      rw [parent?_eq_none up, Path.front] at member
      split at member
      · exact absurd member List.not_mem_nil
      · exact absurd member List.not_mem_nil
  | some above =>
      obtain ⟨component, split⟩ := components_of_parent? up
      rw [split] at member ⊢
      exact mem_route_append_singleton member

theorem placeOf_ne_of_apart (apart : artifact.Apart other) (plain : artifact.path.Plain)
    (also : other.path.Plain) :
    root.placeOf artifact workingDirectory ≠ root.placeOf other workingDirectory := by
  obtain ⟨names, spelled⟩ := plain.exists_names
  obtain ⟨others, respelled⟩ := also.exists_names
  intro same
  rw [placeOf_eq plain, placeOf_eq also, spelled, respelled, goal_map_normal, goal_map_normal,
    List.append_cancel_left_eq] at same
  have equal : artifact.path.components = other.path.components := by
    rw [spelled, respelled, same]
  exact apart.1 (equal ▸ List.prefix_rfl)

/-- An artifact is on the way to another one only if it is on the way to itself. -/
theorem mem_way_of_apart (apart : artifact.Apart other) (plain : artifact.path.Plain)
    (also : other.path.Plain)
    (member : root.placeOf other workingDirectory ∈ root.way artifact workingDirectory) :
    root.placeOf other workingDirectory ∈ root.way other workingDirectory := by
  have filled : artifact.path.components ≠ [] := fun empty => apart.1 (empty ▸ List.nil_prefix)
  have refilled : other.path.components ≠ [] := fun empty => apart.2 (empty ▸ List.nil_prefix)
  rw [way_eq plain filled, route_append] at member
  rw [way_eq also refilled, route_append]
  rcases List.mem_append.mp member with shared | below
  · exact List.mem_append_left _ shared
  · obtain ⟨names, spelled⟩ := plain.exists_names
    obtain ⟨others, respelled⟩ := also.exists_names
    rw [spelled, ← List.map_dropLast, placeOf_eq also, respelled, goal_map_normal] at below
    obtain ⟨front, begins, same⟩ := exists_of_mem_route_map_normal below
    rw [List.append_cancel_left_eq] at same
    refine absurd ?_ apart.2
    rw [spelled, respelled, same]
    exact (begins.trans (List.dropLast_prefix names)).map _

end Apart

end OutputRoot
end DesignTokens
