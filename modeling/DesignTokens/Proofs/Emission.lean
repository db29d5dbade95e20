import DesignTokens.FileAccess
import DesignTokens.Proofs.FileOperations
import Mathlib.Logic.Relation

/-!
# Writes side by side

Every artifact is written in two steps, first the directory above it and then its content, and
the steps of different artifacts may be taken in any order.  As long as artifacts with one place
have one content, an artifact that is written can be read ever after.
-/

namespace DesignTokens

namespace OutputRoot

variable (root : OutputRoot) (artifact : Artifact) (files : FileSystem)

/-- The path of the file of an artifact. -/
def pathOf : Path := root.path.join artifact.path

/-- The place of the file of an artifact, seen from a working directory. -/
def placeOf (workingDirectory : Location) : Location :=
  (root.pathOf artifact).place workingDirectory

/-- The first step of a write, on files that are a value. -/
def prepared : Option WriteError × FileSystem :=
  (root.prepare artifact : StateM FileSystem (Option WriteError)).run files

/-- The second step of a write, on files that are a value. -/
def stored : Option WriteError × FileSystem :=
  (root.store artifact : StateM FileSystem (Option WriteError)).run files

/-- Both steps of a write, on files that are a value. -/
def written : Option WriteError × FileSystem :=
  (root.write artifact : StateM FileSystem (Option WriteError)).run files

theorem prepared_eq :
    root.prepared artifact files =
      match (root.pathOf artifact).parent? with
      | none => (none, files)
      | some parent =>
          match files.createDirectories parent with
          | (.ok _, after) => (none, after)
          | (.error cause, after) => (some (.createDirectory parent cause), after) := by
  unfold prepared prepare pathOf
  cases (root.path.join artifact.path).parent? with
  | none => rfl
  | some parent =>
      simp only [FileAccess.createDirectories, StateT.run, bind, StateT.bind, pure]
      rcases files.createDirectories parent with ⟨cause | done, after⟩
      · rfl
      · rfl

theorem stored_eq :
    root.stored artifact files =
      match files.write (root.pathOf artifact) artifact.content with
      | (.ok _, after) => (none, after)
      | (.error cause, after) => (some (.write (root.pathOf artifact) cause), after) := by
  unfold stored store pathOf
  simp only [FileAccess.write, StateT.run, bind, StateT.bind, pure]
  rcases files.write (root.path.join artifact.path) artifact.content with ⟨cause | done, after⟩
  · rfl
  · rfl

theorem snd_stored :
    (root.stored artifact files).2 =
      (files.write (root.pathOf artifact) artifact.content).2 := by
  rw [stored_eq]
  rcases files.write (root.pathOf artifact) artifact.content with ⟨cause | done, after⟩
  · rfl
  · rfl

/-- The first step keeps whatever is there. -/
theorem growsInto_prepared :
    FileSystem.GrowsInto (fun _ => False) files (root.prepared artifact files).2 := by
  rw [prepared_eq]
  cases (root.pathOf artifact).parent? with
  | none => exact .refl files
  | some parent =>
      have grows := files.growsInto_createDirectories parent
      rcases made : files.createDirectories parent with ⟨cause | done, after⟩
      · rw [made] at grows
        simpa only [made] using grows
      · rw [made] at grows
        simpa only [made] using grows

/-- The second step rewrites at most the place of the artifact. -/
theorem growsInto_stored :
    FileSystem.GrowsInto (· = root.placeOf artifact files.workingDirectory) files
      (root.stored artifact files).2 := by
  rw [snd_stored]
  exact files.growsInto_write (root.pathOf artifact) artifact.content

theorem read_of_stored (done : (root.stored artifact files).1 = none) :
    (root.stored artifact files).2.read (root.pathOf artifact) = .ok artifact.content := by
  rw [snd_stored]
  rw [stored_eq] at done
  rcases written : files.write (root.pathOf artifact) artifact.content with ⟨cause | empty, after⟩
  · rw [written] at done
    exact absurd done (by simp)
  · exact FileSystem.read_of_write written

/-- A write takes the second step behind the first, unless that fails. -/
theorem written_eq :
    root.written artifact files =
      match root.prepared artifact files with
      | (some failure, after) => (some failure, after)
      | (none, after) => root.stored artifact after := by
  unfold written write
  rcases first : root.prepared artifact files with ⟨failure | failure, after⟩
  · simp only [prepared, StateT.run] at first
    simp only [StateT.run, bind, StateT.bind, first]
    rfl
  · simp only [prepared, StateT.run] at first
    simp only [StateT.run, bind, StateT.bind, first]
    rfl

theorem run_write :
    (root.write artifact : StateM FileSystem (Option WriteError)).run files =
      root.written artifact files := rfl

attribute [irreducible] prepared stored written

end OutputRoot

/-- How far the write of an artifact has come. -/
inductive WriteStage where
  /-- Nothing is done yet. -/
  | waiting
  /-- The directory above the artifact is there. -/
  | prepared
  /-- The write is over, perhaps with a failure. -/
  | over (failure : Option WriteError)
  deriving DecidableEq, Repr

/-- The stage behind the first step. -/
def WriteStage.behind : Option WriteError → WriteStage
  | some failure => .over (some failure)
  | none => .prepared

/-- Artifacts on their way into files. -/
structure Emission where
  /-- The files at this moment. -/
  files : FileSystem
  /-- The artifacts in order, each with the stage of its write. -/
  writes : List (Artifact × WriteStage)

namespace Emission

/-- The artifacts of an emission. -/
def artifacts (emission : Emission) : List Artifact := emission.writes.map Prod.fst

/-- An emission before its first step. -/
def start (files : FileSystem) (artifacts : List Artifact) : Emission :=
  ⟨files, artifacts.map fun artifact => (artifact, .waiting)⟩

/-- An emission whose writes are all over. -/
def finish (files : FileSystem) (outcomes : List (Artifact × Option WriteError)) : Emission :=
  ⟨files, outcomes.map fun outcome => (outcome.1, .over outcome.2)⟩

/-- One of the writes takes its next step. -/
inductive Step (root : OutputRoot) : Emission → Emission → Prop where
  | prepare (files : FileSystem) (front back : List (Artifact × WriteStage))
      (artifact : Artifact) :
      Step root ⟨files, front ++ (artifact, .waiting) :: back⟩
        ⟨(root.prepared artifact files).2,
          front ++ (artifact, .behind (root.prepared artifact files).1) :: back⟩
  | store (files : FileSystem) (front back : List (Artifact × WriteStage))
      (artifact : Artifact) :
      Step root ⟨files, front ++ (artifact, .prepared) :: back⟩
        ⟨(root.stored artifact files).2,
          front ++ (artifact, .over (root.stored artifact files).1) :: back⟩

/-- Steps in any order. -/
def Reaches (root : OutputRoot) : Emission → Emission → Prop :=
  Relation.ReflTransGen (Step root)

variable {root : OutputRoot} {before after : Emission}

theorem Step.artifacts_eq (step : Step root before after) :
    after.artifacts = before.artifacts := by
  cases step with
  | prepare files front back artifact => simp [artifacts]
  | store files front back artifact => simp [artifacts]

theorem Step.view_eq (step : Step root before after) :
    after.files.workingDirectory = before.files.workingDirectory := by
  cases step with
  | prepare files front back artifact => exact (root.growsInto_prepared artifact files).view
  | store files front back artifact => exact (root.growsInto_stored artifact files).view

theorem Reaches.artifacts_eq (reaches : Reaches root before after) :
    after.artifacts = before.artifacts := by
  induction reaches with
  | refl => rfl
  | tail _ step ih => exact step.artifacts_eq.trans ih

theorem Reaches.view_eq (reaches : Reaches root before after) :
    after.files.workingDirectory = before.files.workingDirectory := by
  induction reaches with
  | refl => rfl
  | tail _ step ih => exact step.view_eq.trans ih

/-! ## Nothing written is lost -/

/-- Artifacts with one place have one content. -/
def Agree (root : OutputRoot) (workingDirectory : Location) (artifacts : List Artifact) : Prop :=
  ∀ first ∈ artifacts, ∀ second ∈ artifacts,
    root.placeOf first workingDirectory = root.placeOf second workingDirectory →
      first.content = second.content

instance (root : OutputRoot) (workingDirectory : Location) (artifacts : List Artifact) :
    Decidable (Agree root workingDirectory artifacts) :=
  inferInstanceAs (Decidable (∀ first ∈ artifacts, ∀ second ∈ artifacts, _ → _))

/-- Every artifact that is written can be read. -/
def Kept (root : OutputRoot) (emission : Emission) : Prop :=
  ∀ write ∈ emission.writes, write.2 = .over none →
    emission.files.read (root.pathOf write.1) = .ok write.1.content

theorem mem_of_mem_replaced {α : Type} {item old new : α} {front back : List α}
    (member : item ∈ front ++ new :: back) : item = new ∨ item ∈ front ++ old :: back := by
  rcases List.mem_append.mp member with there | there
  · exact Or.inr (List.mem_append_left _ there)
  · rcases List.mem_cons.mp there with rfl | there
    · exact Or.inl rfl
    · exact Or.inr (List.mem_append_right _ (List.mem_cons_of_mem old there))

/-- A step of one write takes no other written artifact away. -/
theorem Step.kept (step : Step root before after)
    (agree : Agree root before.files.workingDirectory before.artifacts)
    (kept : before.Kept root) : after.Kept root := by
  cases step with
  | prepare files front back artifact =>
      intro write member done
      rcases mem_of_mem_replaced member with rfl | old
      · cases outcome : (root.prepared artifact files).1 with
        | none => simp [outcome, WriteStage.behind] at done
        | some failure => simp [outcome, WriteStage.behind] at done
      · exact (root.growsInto_prepared artifact files).read_eq (kept write old done) not_false
  | store files front back artifact =>
      intro write member done
      rcases mem_of_mem_replaced member with rfl | old
      · exact root.read_of_stored artifact files (WriteStage.over.inj done)
      · have first : artifact ∈ artifacts ⟨files, front ++ (artifact, .prepared) :: back⟩ := by
          simp [artifacts]
        have second : write.1 ∈ artifacts ⟨files, front ++ (artifact, .prepared) :: back⟩ :=
          List.mem_map_of_mem old
        -- The store may meet the place of another written artifact, but then the contents agree.
        rw [OutputRoot.snd_stored]
        exact FileSystem.read_write_of_agree (kept write old done)
          (agree artifact first write.1 second)

/-- No order of steps takes a written artifact away. -/
theorem Reaches.kept (reaches : Reaches root before after)
    (agree : Agree root before.files.workingDirectory before.artifacts)
    (kept : before.Kept root) : after.Kept root := by
  induction reaches with
  | refl => exact kept
  | tail front step ih =>
      refine step.kept ?_ ih
      rw [Reaches.artifacts_eq front, Reaches.view_eq front]
      exact agree

theorem start_kept (root : OutputRoot) (files : FileSystem) (artifacts : List Artifact) :
    (start files artifacts).Kept root := by
  intro write member done
  obtain ⟨artifact, _, rfl⟩ := List.mem_map.mp member
  exact absurd done (by simp)

theorem artifacts_start (files : FileSystem) (artifacts : List Artifact) :
    (start files artifacts).artifacts = artifacts := by
  simp [start, Emission.artifacts, Function.comp_def]

theorem artifacts_finish (files : FileSystem) (outcomes : List (Artifact × Option WriteError)) :
    (finish files outcomes).artifacts = outcomes.map Prod.fst := by
  simp [finish, Emission.artifacts, Function.comp_def]

/-- If all artifacts are written, all of them can be read exactly if those with one place agree. -/
theorem Reaches.reads_iff_agree {files after : FileSystem} {artifacts : List Artifact}
    {outcomes : List (Artifact × Option WriteError)}
    (reaches : Reaches root (start files artifacts) (finish after outcomes))
    (written : ∀ outcome ∈ outcomes, outcome.2 = none) :
    (∀ artifact ∈ artifacts, after.read (root.pathOf artifact) = .ok artifact.content) ↔
      Agree root files.workingDirectory artifacts := by
  have view : after.workingDirectory = files.workingDirectory := reaches.view_eq
  have outcomes_eq : outcomes.map Prod.fst = artifacts := by
    rw [← artifacts_finish after, reaches.artifacts_eq, artifacts_start]
  constructor
  · intro all first member second there same
    have left := FileSystem.at?_place_of_read (all first member)
    have right := FileSystem.at?_place_of_read (all second there)
    rw [OutputRoot.placeOf, OutputRoot.placeOf] at same
    rw [view] at left right
    rw [same, right] at left
    exact (Entry.file.inj (Option.some.inj left)).symm
  · intro agree artifact member
    have kept : (finish after outcomes).Kept root := by
      refine reaches.kept ?_ (start_kept root files artifacts)
      rw [artifacts_start]
      exact agree
    rw [← outcomes_eq] at member
    obtain ⟨outcome, there, rfl⟩ := List.mem_map.mp member
    refine kept (outcome.1, .over none) ?_ rfl
    exact List.mem_map.mpr ⟨outcome, there, by rw [written outcome there]⟩

/-! ## One write after the other -/

/-- Steps of some writes are steps among more writes. -/
theorem Reaches.frame (reaches : Reaches root before after)
    (front back : List (Artifact × WriteStage)) :
    Reaches root ⟨before.files, front ++ before.writes ++ back⟩
      ⟨after.files, front ++ after.writes ++ back⟩ := by
  induction reaches with
  | refl => exact .refl
  | tail _ step ih =>
      refine ih.tail ?_
      cases step with
      | prepare files left right artifact =>
          simpa using Step.prepare files (front ++ left) (right ++ back) artifact
      | store files left right artifact =>
          simpa using Step.store files (front ++ left) (right ++ back) artifact

/-- The report about a write that is over. -/
def report (outcome : Artifact × Option WriteError) : Report := ⟨outcome.1.path, outcome.2⟩

theorem reaches_write (root : OutputRoot) (artifact : Artifact) (files : FileSystem) :
    Reaches root (start files [artifact])
      (finish (root.written artifact files).2 [(artifact, (root.written artifact files).1)]) := by
  have first : Step root (start files [artifact]) _ := Step.prepare files [] [] artifact
  rw [OutputRoot.written_eq]
  rcases outcome : root.prepared artifact files with ⟨failure | failure, after⟩
  · rw [outcome] at first
    exact (Relation.ReflTransGen.single first).tail (Step.store after [] [] artifact)
  · rw [outcome] at first
    exact Relation.ReflTransGen.single first

/-- Writing one artifact after the other is one order of the steps. -/
theorem reaches_emit (root : OutputRoot) (artifacts : List Artifact) (files : FileSystem) :
    ∃ outcomes after,
      (emit (OutputRoot.write root) artifacts : StateM FileSystem (List Report)).run files =
        (outcomes.map report, after) ∧
      Reaches root (start files artifacts) (finish after outcomes) := by
  induction artifacts generalizing files with
  | nil => exact ⟨[], files, rfl, .refl⟩
  | cons artifact artifacts ih =>
      obtain ⟨outcomes, after, emitted, later⟩ := ih (root.written artifact files).2
      refine ⟨(artifact, (root.written artifact files).1) :: outcomes, after, ?_, ?_⟩
      · rw [run_emit_cons, OutputRoot.run_write, emitted]
        rfl
      · have first := (reaches_write root artifact files).frame []
          (artifacts.map fun artifact => (artifact, .waiting))
        have second := later.frame [(artifact, .over (root.written artifact files).1)] []
        rw [List.append_nil, List.append_nil] at second
        exact first.trans second

end Emission
end DesignTokens
