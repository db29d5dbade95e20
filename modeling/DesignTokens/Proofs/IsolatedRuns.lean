import DesignTokens.Proofs.Isolation
import Mathlib.Data.List.Pairwise

/-!
# Complete emissions

An emission can always be completed.  If its artifacts are separate, it leaves behind what each
artifact leaves behind alone, so the order of the steps does not show in the files.
-/

namespace DesignTokens
namespace Emission

open DesignTokens.Path FileSystem OutputRoot

variable {root : OutputRoot} {initial after : FileSystem} {emission before : Emission}
  {artifacts : List Artifact} {artifact : Artifact}
  {outcomes : List (Artifact × Option WriteError)}

/-! ## Completion -/

theorem exists_over (root : OutputRoot) (files : FileSystem) (write : Artifact × WriteStage) :
    ∃ after failure, Reaches root ⟨files, [write]⟩ ⟨after, [(write.1, .over failure)]⟩ := by
  obtain ⟨artifact, _ | _ | failure⟩ := write
  · have first : Step root ⟨files, [(artifact, .waiting)]⟩ _ := .prepare files [] [] artifact
    rcases outcome : root.prepared artifact files with ⟨failure | failure, middle⟩
    · rw [outcome] at first
      exact ⟨_, _, (Relation.ReflTransGen.single first).tail (.store middle [] [] artifact)⟩
    · rw [outcome] at first
      exact ⟨middle, some failure, .single first⟩
  · exact ⟨_, _, .single (.store files [] [] artifact)⟩
  · exact ⟨files, failure, .refl⟩

/-- Every emission can be completed. -/
theorem exists_finish (root : OutputRoot) (emission : Emission) :
    ∃ after outcomes, Reaches root emission (finish after outcomes) := by
  obtain ⟨files, writes⟩ := emission
  induction writes generalizing files with
  | nil => exact ⟨files, [], .refl⟩
  | cons write writes ih =>
      obtain ⟨middle, failure, first⟩ := exists_over root files write
      obtain ⟨after, outcomes, later⟩ := ih middle
      refine ⟨after, (write.1, failure) :: outcomes, ?_⟩
      have early := first.frame [] writes
      have late := later.frame [(write.1, .over failure)] []
      rw [List.append_nil, List.append_nil] at late
      exact early.trans late

/-! ## Emissions that start nowhere -/

theorem grounded_iff_of_apart {other : Artifact} (plain : artifact.path.Plain)
    (also : other.path.Plain) (apart : artifact.Apart other) :
    root.Grounded artifact initial ↔ root.Grounded other initial := by
  obtain ⟨names, spelled⟩ := plain.exists_names
  obtain ⟨others, respelled⟩ := also.exists_names
  unfold OutputRoot.Grounded
  rw [components_pathOf plain, components_pathOf also]
  cases names with
  | nil => exact absurd (spelled ▸ List.nil_prefix) apart.1
  | cons name names =>
      cases others with
      | nil => exact absurd (respelled ▸ List.nil_prefix) apart.2
      | cons first others =>
          rw [spelled, respelled]
          exact grounded_append_normal_iff

/-- The ways to separate artifacts all start in a directory, or none of them does. -/
theorem allGrounded_or (separate : Separate artifacts) (root : OutputRoot)
    (initial : FileSystem) :
    AllGrounded root initial artifacts ∨
      ∀ artifact ∈ artifacts, ¬ root.Grounded artifact initial := by
  cases artifacts with
  | nil => exact Or.inl fun artifact member => absurd member List.not_mem_nil
  | cons first artifacts =>
      have same : ∀ artifact ∈ first :: artifacts,
          (root.Grounded first initial ↔ root.Grounded artifact initial) := by
        intro artifact member
        rcases List.mem_cons.mp member with rfl | later
        · exact Iff.rfl
        · exact grounded_iff_of_apart (separate.plain first List.mem_cons_self)
            (separate.plain artifact member)
            ((List.pairwise_cons.mp separate.apart).1 artifact later)
      by_cases grounded : root.Grounded first initial
      · exact Or.inl fun artifact member => (same artifact member).mp grounded
      · exact Or.inr fun artifact member => mt (same artifact member).mpr grounded

theorem snd_prepared_of_ungrounded (ungrounded : ¬ root.Grounded artifact initial) :
    (root.prepared artifact initial).2 = initial := by
  cases up : (root.pathOf artifact).parent? with
  | none => rw [prepared_of_top up]
  | some above =>
      obtain ⟨component, components⟩ := components_of_parent? up
      have begins : above.components <+: (root.pathOf artifact).components :=
        ⟨[component], components.symm⟩
      rw [prepared_of_above up]
      exact snd_createDirectories_of_ungrounded ungrounded begins

theorem snd_stored_of_ungrounded (ungrounded : ¬ root.Grounded artifact initial) :
    (root.stored artifact initial).2 = initial := by
  rw [snd_stored]
  exact snd_write_of_ungrounded ungrounded artifact.content

/-- What holds at every moment of an emission that starts nowhere. -/
structure Still (root : OutputRoot) (initial : FileSystem) (emission : Emission) : Prop where
  /-- Nothing changes. -/
  same : emission.files = initial
  /-- Every write has come as far as it does alone. -/
  stages : ∀ write ∈ emission.writes, Faithful root initial write.1 write.2

theorem Still.step {later : Emission} (still : Still root initial before)
    (ungrounded : ∀ artifact ∈ before.artifacts, ¬ root.Grounded artifact initial)
    (step : Step root before later) : Still root initial later := by
  cases step with
  | prepare files front back artifact =>
      obtain rfl : files = initial := still.same
      have nowhere := ungrounded artifact (by simp [Emission.artifacts])
      refine ⟨snd_prepared_of_ungrounded nowhere, fun write member => ?_⟩
      rcases mem_of_mem_replaced member with rfl | old
      · exact faithful_behind (Or.inl rfl) fun _ => rfl
      · exact still.stages write old
  | store files front back artifact =>
      obtain rfl : files = initial := still.same
      have nowhere := ungrounded artifact (by simp [Emission.artifacts])
      refine ⟨snd_stored_of_ungrounded nowhere, fun write member => ?_⟩
      rcases mem_of_mem_replaced member with rfl | old
      · have done : (root.prepared artifact files).1 = none :=
          still.stages (artifact, .prepared) (by simp)
        have alone : (root.stored artifact files).1 = (root.written artifact files).1 := by
          rw [written_of_prepared done, snd_prepared_of_ungrounded nowhere]
        exact ⟨Or.inl alone, fun _ => alone⟩
      · exact still.stages write old

theorem Still.reaches {later : Emission} (still : Still root initial before)
    (ungrounded : ∀ artifact ∈ before.artifacts, ¬ root.Grounded artifact initial)
    (reaches : Reaches root before later) : Still root initial later := by
  induction reaches with
  | refl => exact still
  | tail front step ih => exact ih.step (Reaches.artifacts_eq front ▸ ungrounded) step

theorem still_start (root : OutputRoot) (initial : FileSystem) (artifacts : List Artifact) :
    Still root initial (start initial artifacts) :=
  ⟨rfl, (isolated_start root initial artifacts).stages⟩

/-! ## What is left behind -/

/-- What a complete emission leaves behind. -/
structure Undisturbed (root : OutputRoot) (initial : FileSystem) (artifacts : List Artifact)
    (after : FileSystem) (outcomes : List (Artifact × Option WriteError)) : Prop where
  /-- There is one outcome for every artifact, in order. -/
  listed : outcomes.map Prod.fst = artifacts
  /-- Every report is the one that the artifact gets alone. -/
  reports : ∀ outcome ∈ outcomes, ∃ alone : Report,
    ((emit (OutputRoot.write root) [outcome.1] : StateM FileSystem (List Report)).run initial).1 =
        [alone] ∧
      alone.path = outcome.1.path ∧ WriteError.Alike outcome.2 alone.failure ∧
        (.parent ∉ root.path.components → report outcome = alone)
  /-- A written artifact is read back. -/
  contents : ∀ outcome ∈ outcomes, outcome.2 = none →
    after.read (root.pathOf outcome.1) = .ok outcome.1.content
  /-- Whatever is not the place of a written artifact stays. -/
  kept : ∀ location, initial.at? location ≠ none →
    (∀ outcome ∈ outcomes, outcome.2 = none →
      location ≠ root.placeOf outcome.1 initial.workingDirectory) →
    after.at? location = initial.at? location
  /-- The only files that are new are the written artifacts. -/
  files : ∀ location content, after.at? location = some (.file content) →
    initial.at? location = some (.file content) ∨
      ∃ outcome ∈ outcomes, outcome.2 = none ∧
        location = root.placeOf outcome.1 initial.workingDirectory ∧ content = outcome.1.content
  /-- The only directories that are new are above artifacts. -/
  directories : ∀ location, after.at? location = some .directory →
    initial.at? location = some .directory ∨
      ∃ artifact ∈ artifacts, ∃ above ∈ (root.pathOf artifact).ancestors.tail,
        location = above.place initial.workingDirectory

theorem emit_alone (root : OutputRoot) (artifact : Artifact) (files : FileSystem) :
    ((emit (OutputRoot.write root) [artifact] : StateM FileSystem (List Report)).run files).1 =
      [⟨artifact.path, (root.written artifact files).1⟩] := by
  rw [run_emit_cons, run_write]
  rfl

theorem exists_above_of_mem_cleared {location : Location}
    (member : location ∈ root.cleared artifact initial) :
    ∃ above ∈ (root.pathOf artifact).ancestors.tail,
      location = above.place initial.workingDirectory := by
  have inside := mem_way_of_mem_cleared member
  have short := length_components_le (root.pathOf artifact)
  rw [ancestors, ancestorsUpTo, List.tail_cons]
  unfold way at inside
  cases up : (root.pathOf artifact).parent? with
  | none =>
      rw [up] at inside
      exact absurd inside List.not_mem_nil
  | some above =>
      rw [up, Option.elim_some] at inside
      obtain ⟨component, components⟩ := components_of_parent? up
      rw [components, List.length_append] at short
      exact exists_ancestor_of_mem_route _ (Nat.le_of_add_right_le short) inside

theorem mem_finish {write : Artifact × WriteStage}
    (member : write ∈ (finish after outcomes).writes) :
    ∃ outcome ∈ outcomes, write = (outcome.1, .over outcome.2) := by
  obtain ⟨outcome, inside, same⟩ := List.mem_map.mp member
  exact ⟨outcome, inside, same.symm⟩

theorem agree_of_separate (separate : Separate artifacts) (root : OutputRoot)
    (workingDirectory : Location) : Agree root workingDirectory artifacts := by
  intro first member second there same
  by_cases differ : first = second
  · rw [differ]
  · have apart := separate.apart.forall member there differ
    exact absurd same
      (placeOf_ne_of_apart apart (separate.plain first member) (separate.plain second there))

section Complete

variable (separate : Separate artifacts)
  (reaches : Reaches root (start initial artifacts) (finish after outcomes))

include separate reaches

theorem contents_of_separate : ∀ outcome ∈ outcomes, outcome.2 = none →
    after.read (root.pathOf outcome.1) = .ok outcome.1.content := by
  intro outcome member done
  have agree := agree_of_separate separate root initial.workingDirectory
  rw [← artifacts_start initial artifacts] at agree
  have kept := reaches.kept agree (start_kept root initial artifacts)
  exact kept (outcome.1, .over outcome.2) (List.mem_map_of_mem member) (by rw [done])

theorem accounted_of_separate :
    (∀ location, Difference root initial (finish after outcomes) location) ∧
      ∀ write ∈ (finish after outcomes).writes, Faithful root initial write.1 write.2 := by
  have listed := artifacts_start initial artifacts
  rcases allGrounded_or separate root initial with grounded | ungrounded
  · have isolated := (isolated_start root initial artifacts).reaches
      (listed.symm ▸ separate) (listed.symm ▸ grounded) reaches
    exact ⟨isolated.entries, isolated.stages⟩
  · have still := (still_start root initial artifacts).reaches
      (listed.symm ▸ ungrounded) reaches
    exact ⟨fun location => .kept (congrArg (FileSystem.at? · location) still.same), still.stages⟩

/-- Separate artifacts are written as if each were alone. -/
theorem undisturbed_of_separate : Undisturbed root initial artifacts after outcomes := by
  obtain ⟨entries, stages⟩ := accounted_of_separate separate reaches
  have listed : outcomes.map Prod.fst = artifacts := by
    rw [← artifacts_finish after, reaches.artifacts_eq, artifacts_start]
  refine ⟨listed, fun outcome member => ?_, contents_of_separate separate reaches,
    fun location there free => ?_, fun location content there => ?_, fun location there => ?_⟩
  · obtain ⟨alike, equal⟩ := stages (outcome.1, .over outcome.2) (List.mem_map_of_mem member)
    refine ⟨_, emit_alone root outcome.1 initial, rfl, alike, fun down => ?_⟩
    rw [report, equal down]
  · cases entries location with
    | kept same => exact same
    | made vacant _ _ _ _ _ => exact absurd vacant there
    | written write member done place _ =>
        obtain ⟨outcome, inside, rfl⟩ := mem_finish member
        exact absurd place (free outcome inside (WriteStage.over.inj done))
  · cases entries location with
    | kept same => exact Or.inl (same ▸ there)
    | made _ directory _ _ _ _ => exact absurd (there.symm.trans directory) (by simp)
    | written write member done place file =>
        obtain ⟨outcome, inside, rfl⟩ := mem_finish member
        have same : content = outcome.1.content := by simpa using there.symm.trans file
        exact Or.inr ⟨outcome, inside, WriteStage.over.inj done, place, same⟩
  · cases entries location with
    | kept same => exact Or.inl (same ▸ there)
    | made _ _ write member _ cleared =>
        obtain ⟨outcome, inside, rfl⟩ := mem_finish member
        exact Or.inr ⟨outcome.1, listed ▸ List.mem_map_of_mem inside,
          exists_above_of_mem_cleared cleared⟩
    | written _ _ _ _ file => exact absurd (there.symm.trans file) (by simp)

end Complete

/-! ## Two orders -/

section Orders

variable {other : FileSystem} {results : List (Artifact × Option WriteError)}

theorem exists_result_of_mem
    (reaches : Reaches root (start initial artifacts) (finish after outcomes))
    (again : Reaches root (start initial artifacts) (finish other results))
    {outcome : Artifact × Option WriteError} (member : outcome ∈ outcomes) :
    ∃ failure, (outcome.1, failure) ∈ results := by
  have same : outcomes.map Prod.fst = results.map Prod.fst := by
    rw [← artifacts_finish after, ← artifacts_finish other, reaches.artifacts_eq,
      again.artifacts_eq]
  have listed : outcome.1 ∈ results.map Prod.fst := same ▸ List.mem_map_of_mem member
  obtain ⟨⟨artifact, failure⟩, inside, rfl⟩ := List.mem_map.mp listed
  exact ⟨failure, inside⟩

/-- What one order changes is the same behind another one. -/
theorem at?_eq_of_changed (separate : Separate artifacts)
    (reaches : Reaches root (start initial artifacts) (finish after outcomes))
    (again : Reaches root (start initial artifacts) (finish other results))
    (first : Isolated root initial (finish after outcomes))
    (second : Isolated root initial (finish other results)) {location : Location}
    (changed : after.at? location ≠ initial.at? location) :
    other.at? location = after.at? location := by
  -- A change is a directory that its write needs in every order, or a file that is written in all.
  cases first.entries location with
  | kept same => exact absurd same changed
  | made vacant there write member started cleared =>
      obtain ⟨outcome, inside, rfl⟩ := mem_finish member
      obtain ⟨failure, result⟩ := exists_result_of_mem reaches again inside
      have open_ := second.passes (outcome.1, .over failure) (List.mem_map_of_mem result)
        (by simp) location cleared
      exact (refusal_eq_none_iff.mp open_).2.trans there.symm
  | written write member done place there =>
      obtain ⟨outcome, inside, rfl⟩ := mem_finish member
      obtain ⟨failure, result⟩ := exists_result_of_mem reaches again inside
      have alone : (root.written outcome.1 initial).1 = none := by
        obtain ⟨alike, _⟩ := first.stages _ member
        exact (WriteError.alike_none_iff alike).mp (WriteStage.over.inj done)
      have succeeded : failure = none := by
        obtain ⟨alike, _⟩ := second.stages (outcome.1, .over failure) (List.mem_map_of_mem result)
        exact (WriteError.alike_none_iff alike).mpr alone
      have read := contents_of_separate separate again (outcome.1, failure) result succeeded
      have file := at?_place_of_read read
      rw [show other.workingDirectory = initial.workingDirectory from second.view] at file
      rw [place]
      exact file.trans (place ▸ there).symm

/-- The files behind separate artifacts do not depend on the order of the steps. -/
theorem at?_eq_of_separate (separate : Separate artifacts)
    (reaches : Reaches root (start initial artifacts) (finish after outcomes))
    (again : Reaches root (start initial artifacts) (finish other results))
    (location : Location) : other.at? location = after.at? location := by
  have listed := artifacts_start initial artifacts
  rcases allGrounded_or separate root initial with grounded | ungrounded
  · have isolated := isolated_start root initial artifacts
    have first := isolated.reaches (listed.symm ▸ separate) (listed.symm ▸ grounded) reaches
    have second := isolated.reaches (listed.symm ▸ separate) (listed.symm ▸ grounded) again
    by_cases changed : after.at? location = initial.at? location
    · by_cases rechanged : other.at? location = initial.at? location
      · exact rechanged.trans changed.symm
      · exact (at?_eq_of_changed separate again reaches second first rechanged).symm
    · exact at?_eq_of_changed separate reaches again first second changed
  · have still := still_start root initial artifacts
    have first := (still.reaches (listed.symm ▸ ungrounded) reaches).same
    have second := (still.reaches (listed.symm ▸ ungrounded) again).same
    exact congrArg (FileSystem.at? · location) (second.trans first.symm)

end Orders

/--
Separate artifacts are written as if each were alone: every order of the steps can be completed,
leaves behind what the artifacts leave behind alone, and ends in the same files.
-/
theorem separate_writes_isolated (root : OutputRoot) (initial : FileSystem)
    (artifacts : List Artifact) (separate : Separate artifacts) :
    (∀ middle, Reaches root (start initial artifacts) middle →
      ∃ after outcomes, Reaches root middle (finish after outcomes)) ∧
    (∀ after outcomes, Reaches root (start initial artifacts) (finish after outcomes) →
      Undisturbed root initial artifacts after outcomes) ∧
    ∀ after outcomes other results,
      Reaches root (start initial artifacts) (finish after outcomes) →
      Reaches root (start initial artifacts) (finish other results) →
        ∀ location, other.at? location = after.at? location := by
  refine ⟨fun middle _ => exists_finish root middle, fun after outcomes => ?_,
    fun after outcomes other results => ?_⟩
  · exact undisturbed_of_separate separate
  · exact at?_eq_of_separate separate

/-- A directory with a file where an artifact needs a directory. -/
def crossed : FileSystem :=
  ((FileSystem.empty.put [] "r" .directory (at?_root _) (by decide)).put ["r"] "palette" .directory
    (by decide) (by decide)).put ["r", "palette"] "z.d" (.file "file") (by decide) (by decide)

/-- An artifact that can be written next to the file. -/
def beside : Artifact := ⟨⟨"palette/t.json"⟩, "0"⟩

/-- An artifact that would have to go through the file. -/
def behind : Artifact := ⟨⟨"palette/z.d/e/scss"⟩, "1"⟩

theorem separate_crossed : Separate [beside, behind] where
  plain artifact member := by
    rcases List.mem_pair.mp member with rfl | rfl
    · exact .of_names ["palette", "t.json"] (by decide +kernel) (by decide +kernel)
    · exact .of_names ["palette", "z.d", "e", "scss"] (by decide +kernel) (by decide +kernel)
  apart := by decide +kernel

theorem isolated_crossed :
    Separate [beside, behind] ∧
      ∃ after outcomes,
        Reaches ⟨⟨"r"⟩⟩ (start crossed [beside, behind]) (finish after outcomes) ∧
        Undisturbed ⟨⟨"r"⟩⟩ crossed [beside, behind] after outcomes := by
  obtain ⟨completes, undisturbed, _⟩ :=
    separate_writes_isolated ⟨⟨"r"⟩⟩ crossed [beside, behind] separate_crossed
  obtain ⟨after, outcomes, reaches⟩ := completes _ .refl
  exact ⟨separate_crossed, after, outcomes, reaches, undisturbed after outcomes reaches⟩

/-- A root whose path comes through a directory that is missing. -/
def detour : OutputRoot := ⟨⟨"./m/../r"⟩⟩

/--
Below a root with double points, the cause of a failure can depend on another artifact.  Alone, the
artifact meets the file when the directories above it are made; behind another artifact, which has
made the missing directory of the root, it meets the file on its way.
-/
theorem cause_depends_on_sibling :
    let failed := fun cause => WriteError.createDirectory ⟨"./m/../r/palette/z.d/e"⟩ cause
    Separate [beside, behind] ∧
      ((emit (OutputRoot.write detour) [behind] : StateM FileSystem (List Report)).run crossed).1 =
        [⟨behind.path, some (failed .alreadyExists)⟩] ∧
      ∃ after, Reaches detour (start crossed [beside, behind])
        (finish after [(beside, none), (behind, some (failed .notADirectory))]) := by
  intro failed
  have alone : (detour.written behind crossed).1 = some (failed .alreadyExists) := by
    decide +kernel
  have first : (detour.written beside crossed).1 = none := by decide +kernel
  have second : (detour.written behind (detour.written beside crossed).2).1 =
      some (failed .notADirectory) := by
    decide +kernel
  have early := (reaches_write detour beside crossed).frame [] [(behind, .waiting)]
  have late := (reaches_write detour behind (detour.written beside crossed).2).frame
    [(beside, .over none)] []
  rw [first] at early
  rw [second] at late
  refine ⟨separate_crossed, ?_, _, early.trans late⟩
  rw [emit_alone, alone]

end Emission
end DesignTokens
