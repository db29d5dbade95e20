import DesignTokens.Proofs.WriteOutcomes

/-!
# Writes leave each other alone

Below one root, artifacts none of which is above another one are written as if each were alone,
whatever the order of the steps.  At every moment the files differ from the first ones by the
directories that the artifacts need and by the artifacts that are written, and neither is in the
way of a write that is still to come.
-/

namespace DesignTokens
namespace Emission

open DesignTokens.Path FileSystem OutputRoot

/-- Artifacts that can be written side by side. -/
structure Separate (artifacts : List Artifact) : Prop where
  /-- Every artifact goes below the root. -/
  plain : ∀ artifact ∈ artifacts, artifact.path.Plain
  /-- None of them is above another one. -/
  apart : artifacts.Pairwise Artifact.Apart

/-- Whether the ways to all artifacts start in a directory. -/
def AllGrounded (root : OutputRoot) (initial : FileSystem) (artifacts : List Artifact) : Prop :=
  ∀ artifact ∈ artifacts, root.Grounded artifact initial

/-- Whether the write of an artifact has come as far as it does alone. -/
def Faithful (root : OutputRoot) (initial : FileSystem) (artifact : Artifact) : WriteStage → Prop
  | .waiting => True
  | .prepared => (root.prepared artifact initial).1 = none
  | .over failure =>
      WriteError.Alike failure (root.written artifact initial).1 ∧
        (.parent ∉ root.path.components → failure = (root.written artifact initial).1)

/-- How the entry at a place may differ from the first one. -/
inductive Difference (root : OutputRoot) (initial : FileSystem) (emission : Emission)
    (location : Location) : Prop where
  /-- It does not. -/
  | kept (same : emission.files.at? location = initial.at? location)
  /-- A directory was made for an artifact. -/
  | made (vacant : initial.at? location = none)
      (there : emission.files.at? location = some .directory)
      (write : Artifact × WriteStage) (member : write ∈ emission.writes)
      (started : write.2 ≠ .waiting) (cleared : location ∈ root.cleared write.1 initial)
  /-- An artifact was written. -/
  | written (write : Artifact × WriteStage) (member : write ∈ emission.writes)
      (done : write.2 = .over none)
      (place : location = root.placeOf write.1 initial.workingDirectory)
      (there : emission.files.at? location = some (.file write.1.content))

/-- What holds at every moment of an emission. -/
structure Isolated (root : OutputRoot) (initial : FileSystem) (emission : Emission) : Prop where
  /-- The working directory is the same. -/
  view : emission.files.workingDirectory = initial.workingDirectory
  /-- Directories stay. -/
  directories : ∀ location, initial.at? location = some .directory →
    emission.files.at? location = some .directory
  /-- Nothing differs but what is made for artifacts. -/
  entries : ∀ location, Difference root initial emission location
  /-- Behind its first step, a write has its way cleared. -/
  passes : ∀ write ∈ emission.writes, write.2 ≠ .waiting →
    ∀ place ∈ root.cleared write.1 initial, emission.files.refusal place = none
  /-- Every write has come as far as it does alone. -/
  stages : ∀ write ∈ emission.writes, Faithful root initial write.1 write.2

section Invariant

variable {root : OutputRoot} {initial : FileSystem} {emission before after : Emission}
  {artifacts : List Artifact} {artifact : Artifact} {write : Artifact × WriteStage}

theorem Isolated.grounded (isolated : Isolated root initial emission)
    (grounded : root.Grounded artifact initial) : root.Grounded artifact emission.files := by
  unfold OutputRoot.Grounded at grounded ⊢
  rw [isolated.view]
  exact grounded.mono isolated.directories

/-- Alone, a write that succeeds has cleared its whole way. -/
theorem cleared_of_prepared (grounded : root.Grounded artifact initial)
    (done : (root.prepared artifact initial).1 = none) :
    root.cleared artifact initial = root.way artifact initial.workingDirectory :=
  (prepares grounded).whole done

theorem Isolated.prepared_of_done (isolated : Isolated root initial emission)
    (member : write ∈ emission.writes) (done : write.2 = .over none) :
    (root.prepared write.1 initial).1 = none := by
  have faithful := isolated.stages write member
  rw [done] at faithful
  exact prepared_of_written ((WriteError.alike_none_iff faithful.1).mp rfl)

/-- A written artifact is on no way that is cleared. -/
theorem Isolated.not_mem_way_of_done (isolated : Isolated root initial emission)
    (grounded : root.Grounded write.1 initial) (member : write ∈ emission.writes)
    (done : write.2 = .over none) {location : Location} {content : String}
    (there : emission.files.at? location = some (.file content)) :
    location ∉ root.way write.1 initial.workingDirectory := by
  intro inside
  rw [← cleared_of_prepared grounded (isolated.prepared_of_done member done)] at inside
  have open_ := isolated.passes write member (by simp [done]) location inside
  rw [(refusal_eq_none_iff.mp open_).2] at there
  cases there

/-- No step of another write bars the way to an artifact. -/
theorem Isolated.bars_eq (isolated : Isolated root initial emission)
    (separate : Separate emission.artifacts)
    (grounded : AllGrounded root initial emission.artifacts) (plain : artifact.path.Plain)
    (apart : ∀ write ∈ emission.writes, write.2 = .over none → artifact.Apart write.1)
    {place : Location} (member : place ∈ root.way artifact initial.workingDirectory) :
    initial.bars place = emission.files.bars place := by
  rw [bars, bars, holdsFile, holdsFile]
  cases isolated.entries place with
  | kept same => rw [same]
  | made vacant there _ _ _ _ => rw [vacant, there]
  | written write inside done same there =>
      have listed : write.1 ∈ emission.artifacts := List.mem_map_of_mem inside
      have away := apart write inside done
      subst same
      exact absurd (mem_way_of_apart away plain (separate.plain _ listed) member)
        (isolated.not_mem_way_of_done (grounded _ listed) inside done there)

/-- A write that has its way cleared meets what it meets alone. -/
theorem Isolated.refusal_eq (isolated : Isolated root initial emission)
    (separate : Separate emission.artifacts)
    (grounded : AllGrounded root initial emission.artifacts)
    (member : (artifact, .prepared) ∈ emission.writes)
    (apart : ∀ write ∈ emission.writes, write = (artifact, .prepared) ∨ artifact.Apart write.1)
    {place : Location}
    (inside : place ∈ emission.files.routeOf (root.pathOf artifact)) :
    emission.files.refusal place = (root.prepared artifact initial).2.refusal place := by
  have listed : artifact ∈ emission.artifacts := List.mem_map_of_mem member
  have done : (root.prepared artifact initial).1 = none := isolated.stages _ member
  have alone := prepares (grounded artifact listed)
  have whole := alone.whole done
  rw [routeOf, isolated.view] at inside
  by_cases ahead : place ∈ root.way artifact initial.workingDirectory
  · rw [← whole] at ahead
    rw [alone.passes place ahead, isolated.passes _ member (by simp) place ahead]
  · -- The place of the artifact is nobody's business but its own.
    have own := (mem_way_or_eq inside).resolve_left ahead
    have same : emission.files.at? place = (root.prepared artifact initial).2.at? place := by
      rw [alone.entries, whole, if_neg fun both => ahead both.1]
      cases isolated.entries place with
      | kept same => exact same
      | made vacant there write other started cleared =>
          have theirs := mem_way_of_mem_cleared cleared
          rcases apart write other with rfl | away
          · exact absurd theirs ahead
          · have listed_other : write.1 ∈ emission.artifacts := List.mem_map_of_mem other
            subst own
            exact absurd (mem_way_of_apart away.symm (separate.plain _ listed_other)
              (separate.plain _ listed) theirs) ahead
      | written write other done same there =>
          rcases apart write other with rfl | away
          · cases done
          · have listed_other : write.1 ∈ emission.artifacts := List.mem_map_of_mem other
            exact absurd (own.symm.trans same) (placeOf_ne_of_apart away
              (separate.plain _ listed) (separate.plain _ listed_other))
    rw [refusal, refusal, same]

/-! ## One step -/

theorem apart_of_mem {front back : List (Artifact × WriteStage)} {stage : WriteStage}
    (apart : ((front ++ (artifact, stage) :: back).map Prod.fst).Pairwise Artifact.Apart)
    (member : write ∈ front ++ (artifact, stage) :: back) :
    write = (artifact, stage) ∨ artifact.Apart write.1 := by
  rw [List.map_append, List.map_cons, List.pairwise_append, List.pairwise_cons] at apart
  obtain ⟨_, ⟨behind, _⟩, across⟩ := apart
  rcases List.mem_append.mp member with before | later
  · exact Or.inr (across _ (List.mem_map_of_mem before) _ List.mem_cons_self).symm
  · rcases List.mem_cons.mp later with rfl | after
    · exact Or.inl rfl
    · exact Or.inr (behind _ (List.mem_map_of_mem after))

theorem mem_replaced_of_ne {α : Type} {item old new : α} {front back : List α}
    (member : item ∈ front ++ old :: back) (differ : item ≠ old) :
    item ∈ front ++ new :: back := by
  rcases List.mem_append.mp member with before | later
  · exact List.mem_append_left _ before
  · exact List.mem_append_right _
      (List.mem_cons_of_mem new ((List.mem_cons.mp later).resolve_left differ))

/-- Every write that is under way goes on, and none is taken back. -/
def GoesOn (before after : List (Artifact × WriteStage)) : Prop :=
  ∀ write ∈ before, write.2 ≠ .waiting → ∃ later ∈ after,
    later.1 = write.1 ∧ later.2 ≠ .waiting ∧ (write.2 = .over none → later.2 = .over none)

theorem goesOn_replaced {front back : List (Artifact × WriteStage)} {old new : WriteStage}
    (unfinished : old ≠ .over none) (started : new ≠ .waiting) :
    GoesOn (front ++ (artifact, old) :: back) (front ++ (artifact, new) :: back) := by
  intro write member underWay
  by_cases own : write = (artifact, old)
  · subst own
    exact ⟨(artifact, new), by simp, rfl, started, fun done => absurd done unfinished⟩
  · exact ⟨write, mem_replaced_of_ne member own, rfl, underWay, id⟩

/-- A difference stays as long as its place does and the writes behind it go on. -/
theorem Difference.of_same {location : Location}
    (difference : Difference root initial before location)
    (same : after.files.at? location = before.files.at? location)
    (goesOn : GoesOn before.writes after.writes) : Difference root initial after location := by
  cases difference with
  | kept old => exact .kept (same.trans old)
  | made vacant there write member started cleared =>
      obtain ⟨later, inside, artifact, started, _⟩ := goesOn write member started
      exact .made vacant (same.trans there) later inside started (artifact ▸ cleared)
  | written write member done place there =>
      obtain ⟨later, inside, artifact, _, still⟩ := goesOn write member (by simp [done])
      exact .written later inside (still done) (artifact ▸ place) (artifact ▸ same.trans there)

/-- The first step comes as far as alone if it fails or succeeds alike. -/
theorem faithful_behind {failure : Option WriteError}
    (alike : WriteError.Alike failure (root.prepared artifact initial).1)
    (equal : .parent ∉ root.path.components → failure = (root.prepared artifact initial).1) :
    Faithful root initial artifact (.behind failure) := by
  cases failure with
  | none => exact (WriteError.alike_none_iff alike).mp rfl
  | some error =>
      have same : (root.written artifact initial).1 = (root.prepared artifact initial).1 := by
        cases first : (root.prepared artifact initial).1 with
        | none =>
            rw [first] at alike
            exact absurd ((WriteError.alike_none_iff alike).mpr rfl) (by simp)
        | some alone => exact fst_written_of_failed first
      exact ⟨same ▸ alike, fun down => (equal down).trans same.symm⟩

theorem behind_ne_waiting (failure : Option WriteError) : WriteStage.behind failure ≠ .waiting := by
  cases failure with
  | none => simp [WriteStage.behind]
  | some error => simp [WriteStage.behind]

theorem refusal_eq_none_of_grows {rewritten : Location → Prop} {files later : FileSystem}
    (grows : GrowsInto rewritten files later) {place : Location}
    (open_ : files.refusal place = none) : later.refusal place = none := by
  obtain ⟨short, there⟩ := refusal_eq_none_iff.mp open_
  exact refusal_eq_none_iff.mpr ⟨short, grows.directories place there⟩

section Replaced

variable {files later : FileSystem} {front back : List (Artifact × WriteStage)}
  {old new : WriteStage}

/-- One write goes a step further, and the files grow with it. -/
theorem Isolated.replaced {rewritten : Location → Prop}
    (isolated : Isolated root initial ⟨files, front ++ (artifact, old) :: back⟩)
    (grows : GrowsInto rewritten files later)
    (entries : ∀ location,
      Difference root initial ⟨later, front ++ (artifact, new) :: back⟩ location)
    (passes : ∀ place ∈ root.cleared artifact initial, later.refusal place = none)
    (faithful : Faithful root initial artifact new) :
    Isolated root initial ⟨later, front ++ (artifact, new) :: back⟩ where
  view := grows.view.trans isolated.view
  directories location there := grows.directories location (isolated.directories location there)
  entries := entries
  passes write member started place cleared := by
    rcases mem_of_mem_replaced member with rfl | other
    · exact passes place cleared
    · exact refusal_eq_none_of_grows grows (isolated.passes write other started place cleared)
  stages write member := by
    rcases mem_of_mem_replaced member with rfl | other
    · exact faithful
    · exact isolated.stages write other

/-- Behind the first step of a write, the files differ by the directories on its way. -/
theorem Isolated.difference_prepare
    (isolated : Isolated root initial ⟨files, front ++ (artifact, .waiting) :: back⟩)
    (grounded : root.Grounded artifact files)
    (same : root.cleared artifact files = root.cleared artifact initial) (location : Location) :
    Difference root initial
      ⟨(root.prepared artifact files).2,
        front ++ (artifact, .behind (root.prepared artifact files).1) :: back⟩ location := by
  have entry := (prepares grounded).entries location
  have started := behind_ne_waiting (root.prepared artifact files).1
  by_cases makes : location ∈ root.cleared artifact files ∧ files.at? location = none
  · rw [if_pos makes] at entry
    have vacant : initial.at? location = none := by
      cases isolated.entries location with
      | kept old => exact old.symm.trans makes.2
      | made vacant _ _ _ _ _ => exact vacant
      | written _ _ _ _ there =>
          rw [makes.2] at there
          cases there
    exact .made vacant entry (artifact, .behind (root.prepared artifact files).1) (by simp)
      started (same ▸ makes.1)
  · rw [if_neg makes] at entry
    exact (isolated.entries location).of_same entry (goesOn_replaced (by simp) started)

/-- Behind the second step of a write, the files differ by its artifact. -/
theorem Isolated.difference_store
    (isolated : Isolated root initial ⟨files, front ++ (artifact, .prepared) :: back⟩)
    (location : Location) :
    Difference root initial
      ⟨(root.stored artifact files).2,
        front ++ (artifact, .over (root.stored artifact files).1) :: back⟩ location := by
  have view : files.workingDirectory = initial.workingDirectory := isolated.view
  have goesOn : GoesOn (front ++ (artifact, .prepared) :: back)
      (front ++ (artifact, .over (root.stored artifact files).1) :: back) :=
    goesOn_replaced (by simp) (by simp)
  rcases root.stored_cases artifact files with ⟨failure, failed⟩ | ⟨done, entries⟩
  · refine (isolated.entries location).of_same ?_ goesOn
    rw [failed]
  · by_cases own : location = root.placeOf artifact files.workingDirectory
    · refine .written (artifact, .over (root.stored artifact files).1) (by simp) (by rw [done])
        (view ▸ own) ?_
      rw [entries, if_pos own]
    · refine (isolated.entries location).of_same ?_ goesOn
      rw [entries, if_neg own]

/-- The first step of a write keeps the writes isolated. -/
theorem Isolated.prepare
    (isolated : Isolated root initial ⟨files, front ++ (artifact, .waiting) :: back⟩)
    (separate : Separate (Emission.artifacts ⟨files, front ++ (artifact, .waiting) :: back⟩))
    (grounded : AllGrounded root initial
      (Emission.artifacts ⟨files, front ++ (artifact, .waiting) :: back⟩)) :
    Isolated root initial
      ⟨(root.prepared artifact files).2,
        front ++ (artifact, .behind (root.prepared artifact files).1) :: back⟩ := by
  have listed : artifact ∈ Emission.artifacts ⟨files, front ++ (artifact, .waiting) :: back⟩ := by
    simp [Emission.artifacts]
  have plain := separate.plain artifact listed
  have view : files.workingDirectory = initial.workingDirectory := isolated.view
  have first := grounded artifact listed
  have again : root.Grounded artifact files := isolated.grounded first
  have away : ∀ write ∈ front ++ (artifact, .waiting) :: back, write.2 = .over none →
      artifact.Apart write.1 := by
    intro write member done
    refine (apart_of_mem separate.apart member).resolve_left ?_
    rintro rfl
    cases done
  have bars : ∀ place ∈ root.way artifact files.workingDirectory,
      initial.bars place = files.bars place := by
    rw [view]
    exact fun place => isolated.bars_eq separate grounded plain away
  -- The same places on the way are barred as at first, so the step comes to the same.
  have same := cleared_congr view.symm bars
  obtain ⟨alike, equal⟩ := prepared_alike again first view.symm bars
  refine isolated.replaced (root.growsInto_prepared artifact files)
    (isolated.difference_prepare again same.symm) ?_ ?_
  · rw [same]
    exact (prepares again).passes
  · exact faithful_behind alike fun down => equal (down_pathOf plain down)

/-- The second step of a write keeps the writes isolated. -/
theorem Isolated.store
    (isolated : Isolated root initial ⟨files, front ++ (artifact, .prepared) :: back⟩)
    (separate : Separate (Emission.artifacts ⟨files, front ++ (artifact, .prepared) :: back⟩))
    (grounded : AllGrounded root initial
      (Emission.artifacts ⟨files, front ++ (artifact, .prepared) :: back⟩)) :
    Isolated root initial
      ⟨(root.stored artifact files).2,
        front ++ (artifact, .over (root.stored artifact files).1) :: back⟩ := by
  have listed : artifact ∈ Emission.artifacts ⟨files, front ++ (artifact, .prepared) :: back⟩ := by
    simp [Emission.artifacts]
  have member : (artifact, .prepared) ∈ front ++ (artifact, WriteStage.prepared) :: back := by simp
  have view : files.workingDirectory = initial.workingDirectory := isolated.view
  have first := grounded artifact listed
  have alone := root.growsInto_prepared artifact initial
  have grows := root.growsInto_stored artifact files
  have outcome : (root.stored artifact files).1 = (root.written artifact initial).1 := by
    have done : (root.prepared artifact initial).1 = none := isolated.stages _ member
    have equal := fst_stored_congr (isolated.grounded first) (grounded_of_grows alone first)
      (alone.view.trans view.symm) fun place inside =>
        isolated.refusal_eq separate grounded member (fun _ => apart_of_mem separate.apart) inside
    rw [equal, written_of_prepared done]
  refine isolated.replaced grows isolated.difference_store (fun place cleared => ?_)
    ⟨Or.inl outcome, fun _ => outcome⟩
  exact refusal_eq_none_of_grows grows (isolated.passes _ member (by simp) place cleared)

end Replaced

theorem isolated_start (root : OutputRoot) (initial : FileSystem) (artifacts : List Artifact) :
    Isolated root initial (start initial artifacts) where
  view := rfl
  directories _ there := there
  entries _ := .kept rfl
  passes write member started := by
    obtain ⟨artifact, _, rfl⟩ := List.mem_map.mp member
    exact absurd rfl started
  stages write member := by
    obtain ⟨artifact, _, rfl⟩ := List.mem_map.mp member
    trivial

theorem Isolated.step (isolated : Isolated root initial before)
    (separate : Separate before.artifacts) (grounded : AllGrounded root initial before.artifacts)
    (step : Step root before after) : Isolated root initial after := by
  cases step with
  | prepare files front back artifact => exact isolated.prepare separate grounded
  | store files front back artifact => exact isolated.store separate grounded

/-- Writes stay isolated whatever the order of their steps. -/
theorem Isolated.reaches (isolated : Isolated root initial before)
    (separate : Separate before.artifacts) (grounded : AllGrounded root initial before.artifacts)
    (reaches : Reaches root before after) : Isolated root initial after := by
  induction reaches with
  | refl => exact isolated
  | tail front step ih =>
      have same := Reaches.artifacts_eq front
      exact ih.step (same ▸ separate) (same ▸ grounded) step

end Invariant

end Emission
end DesignTokens
