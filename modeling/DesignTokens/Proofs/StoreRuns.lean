import DesignTokens.Proofs.OrderedMaps
import DesignTokens.Store
import Mathlib.Data.List.Induction

/-!
# What a run leaves in a store

A run takes turns: direct writes, and emissions whose tasks are stored, rejected or panic.  Every
task is reported with its own outcome.  The store holds what the log of the successful writes
says: one file for every place, in the order of the first writes and under their spellings, each
with the content of the last write to its place.
-/

namespace DesignTokens

/-- No two of the artifacts have one place. -/
def Artifact.PathsDiffer (artifacts : List Artifact) : Prop :=
  artifacts.Pairwise fun first second => ¬ first.path.Same second.path

namespace Store

variable {path : Path} {log : List Artifact}

/-! ## Logs -/

/-- The last write to the place of a path. -/
def lastWrite? (path : Path) (log : List Artifact) : Option Artifact :=
  log.reverse.find? fun write => write.path.Same path

/-- The first write to every place, in order. -/
def firstWrites : List Artifact → List Artifact
  | [] => []
  | first :: later => first :: (firstWrites later).filter fun write => ¬ first.path.Same write.path

theorem lastWrite?_concat (path : Path) (log : List Artifact) (write : Artifact) :
    lastWrite? path (log ++ [write]) =
      if write.path.Same path then some write else lastWrite? path log := by
  rw [lastWrite?, List.reverse_append, List.reverse_singleton, List.singleton_append,
    List.find?_cons]
  by_cases same : write.path.Same path
  · simp [same]
  · simp [same, lastWrite?]

theorem mem_of_mem_firstWrites {write : Artifact} (member : write ∈ firstWrites log) :
    write ∈ log := by
  induction log with
  | nil => exact member
  | cons first later ih =>
      rcases List.mem_cons.mp member with rfl | inside
      · exact List.mem_cons_self
      · exact List.mem_cons_of_mem first (ih (List.mem_filter.mp inside).1)

theorem exists_firstWrite {write : Artifact} (member : write ∈ log) :
    ∃ first ∈ firstWrites log, first.path.Same write.path := by
  induction log with
  | nil => exact absurd member List.not_mem_nil
  | cons head later ih =>
      by_cases same : head.path.Same write.path
      · exact ⟨head, List.mem_cons_self, same⟩
      · have inside : write ∈ later :=
          (List.mem_cons.mp member).resolve_left fun here => same (here ▸ rfl)
        obtain ⟨first, there, place⟩ := ih inside
        refine ⟨first, List.mem_cons_of_mem head (List.mem_filter.mpr ⟨there, ?_⟩), place⟩
        exact decide_eq_true fun clash => same (clash.trans place)

/-- A write counts as a first one if no earlier write has its place. -/
theorem firstWrites_concat (log : List Artifact) (write : Artifact) :
    firstWrites (log ++ [write]) =
      if ∃ earlier ∈ log, earlier.path.Same write.path then firstWrites log
      else firstWrites log ++ [write] := by
  induction log with
  | nil => simp [firstWrites]
  | cons first later ih =>
      rw [List.cons_append, firstWrites, ih]
      by_cases met : ∃ earlier ∈ later, earlier.path.Same write.path
      · have either : ∃ earlier ∈ first :: later, earlier.path.Same write.path :=
          met.imp fun earlier found => ⟨List.mem_cons_of_mem first found.1, found.2⟩
        rw [if_pos met, if_pos either, firstWrites]
      · rw [if_neg met, List.filter_append]
        by_cases same : first.path.Same write.path
        · rw [if_pos ⟨first, List.mem_cons_self, same⟩, firstWrites]
          simp [same]
        · have neither : ¬ ∃ earlier ∈ first :: later, earlier.path.Same write.path := by
            rintro ⟨earlier, member, place⟩
            rcases List.mem_cons.mp member with rfl | inside
            · exact same place
            · exact met ⟨earlier, inside, place⟩
          rw [if_neg neither, firstWrites]
          simp [same]

theorem firstWrites_of_pathsDiffer (differ : Artifact.PathsDiffer log) : firstWrites log = log := by
  induction log with
  | nil => rfl
  | cons first later ih =>
      obtain ⟨apart, differ⟩ := List.pairwise_cons.mp differ
      rw [firstWrites, ih differ, List.filter_eq_self.mpr (by simpa using apart)]

theorem lastWrite?_of_pathsDiffer (differ : Artifact.PathsDiffer log) {write : Artifact}
    (member : write ∈ log) : lastWrite? write.path log = some write := by
  induction log using List.reverseRecOn with
  | nil => exact absurd member List.not_mem_nil
  | append_singleton log last ih =>
      obtain ⟨differ, _, apart⟩ := List.pairwise_append.mp differ
      rw [lastWrite?_concat]
      rcases List.mem_append.mp member with earlier | here
      · have other : ¬ last.path.Same write.path := fun same =>
          apart write earlier last List.mem_cons_self same.symm
        rw [if_neg other, ih differ earlier]
      · rw [List.mem_singleton.mp here, if_pos (.refl _)]

/-! ## Stores -/

theorem get?_write (store : Store) (path other : Path) (content : String) :
    (store.write path content).get? other =
      if path.Same other then some content else store.get? other := by
  unfold get? write OrderedMap.get? OrderedMap.alter
  simp only [Entries.get?_alter]
  by_cases same : path.Same other
  · have key : other.components = path.components := same.symm
    simp [same, key, replaced]
  · have key : other.components ≠ path.components := fun equal => same equal.symm
    simp [same, key]

/-- A write to a new place appends a file, and any other write only replaces a content. -/
theorem files_write (store : Store) (path : Path) (content : String) :
    (store.write path content).files =
      if ∃ file ∈ store.files, file.path.Same path then
        store.files.map fun file => if file.path.Same path then ⟨file.path, content⟩ else file
      else store.files ++ [⟨path, content⟩] := by
  have found : (∃ file ∈ store.files, file.path.Same path) ↔
      path.components ∈ Entries.keys store.entries.entries := by
    rw [Entries.mem_keys]
    constructor
    · rintro ⟨file, member, same⟩
      obtain ⟨⟨key, stored⟩, there, rfl⟩ := List.mem_map.mp member
      obtain rfl : key = path.components := (store.placed _ there).symm.trans same
      exact ⟨stored, there⟩
    · rintro ⟨file, there⟩
      exact ⟨file, List.mem_map_of_mem there, store.placed (path.components, file) there⟩
  have files : (store.write path content).files =
      (Entries.alter path.components (replaced path content) store.entries.entries).map Prod.snd :=
    rfl
  by_cases there : path.components ∈ Entries.keys store.entries.entries
  · rw [files, if_pos (found.mpr there), Entries.alter_of_mem _ store.entries.distinct there,
      Store.files, List.map_map, List.map_map]
    refine List.map_congr_left fun entry member => ?_
    have placed := store.placed entry member
    by_cases same : entry.2.path.Same path
    · have key : entry.1 = path.components := placed.symm.trans same
      simp [same, key, replaced]
    · have key : entry.1 ≠ path.components := fun equal => same (placed.trans equal)
      simp [same, key]
  · rw [files, if_neg (found.not.mpr there), Entries.alter_of_not_mem _ there]
    simp [Store.files, replaced]

/-- The store after the writes of a log, which starts without files. -/
def ofLog (log : List Artifact) : Store :=
  log.foldl (fun store write => store.write write.path write.content) .empty

theorem ofLog_concat (log : List Artifact) (write : Artifact) :
    ofLog (log ++ [write]) = (ofLog log).write write.path write.content := by
  rw [ofLog, List.foldl_append]
  rfl

/-- What is read at a path is the content of the last write to its place. -/
theorem get?_ofLog (path : Path) (log : List Artifact) :
    (ofLog log).get? path = (lastWrite? path log).map Artifact.content := by
  induction log using List.reverseRecOn with
  | nil => rfl
  | append_singleton log write ih =>
      rw [ofLog_concat, get?_write, lastWrite?_concat, ih]
      split
      · rfl
      · rfl

/-- The file of a first write, with the content of the last write to its place. -/
def fileOf (log : List Artifact) (first : Artifact) : StoredFile :=
  ⟨first.path, ((lastWrite? first.path log).getD first).content⟩

/-- The files are those of the first writes. -/
theorem files_ofLog (log : List Artifact) :
    (ofLog log).files = (firstWrites log).map (fileOf log) := by
  induction log using List.reverseRecOn with
  | nil => rfl
  | append_singleton log write ih =>
      rw [ofLog_concat, files_write, firstWrites_concat, ih]
      have met : (∃ file ∈ (firstWrites log).map (fileOf log), file.path.Same write.path) ↔
          ∃ earlier ∈ log, earlier.path.Same write.path := by
        constructor
        · rintro ⟨file, member, same⟩
          obtain ⟨first, there, rfl⟩ := List.mem_map.mp member
          exact ⟨first, mem_of_mem_firstWrites there, same⟩
        · rintro ⟨earlier, member, same⟩
          obtain ⟨first, there, place⟩ := exists_firstWrite member
          exact ⟨fileOf log first, List.mem_map_of_mem there, place.trans same⟩
      have kept : ∀ first : Artifact, ¬ first.path.Same write.path →
          fileOf (log ++ [write]) first = fileOf log first := by
        intro first differ
        rw [fileOf, lastWrite?_concat, if_neg fun same => differ same.symm, fileOf]
      by_cases there : ∃ earlier ∈ log, earlier.path.Same write.path
      · rw [if_pos (met.mpr there), if_pos there, List.map_map]
        refine List.map_congr_left fun first _ => ?_
        by_cases same : first.path.Same write.path
        · have last : lastWrite? first.path (log ++ [write]) = some write := by
            rw [lastWrite?_concat, if_pos same.symm]
          simp [fileOf, same, last]
        · rw [kept first same, Function.comp_apply]
          exact if_neg same
      · have fresh : ∀ first ∈ firstWrites log, ¬ first.path.Same write.path :=
          fun first member same => there ⟨first, mem_of_mem_firstWrites member, same⟩
        have own : fileOf (log ++ [write]) write = ⟨write.path, write.content⟩ := by
          rw [fileOf, lastWrite?_concat, if_pos (.refl write.path)]
          rfl
        rw [if_neg (met.not.mpr there), if_neg there, List.map_append, List.map_singleton, own,
          List.map_congr_left fun first member => kept first (fresh first member)]

/-- A log without two writes to one place is kept as a whole. -/
theorem ofLog_keeps (differ : Artifact.PathsDiffer log) :
    (ofLog log).files.length = log.length ∧
      ∀ write ∈ log, (ofLog log).get? write.path = some write.content := by
  refine ⟨?_, fun write member => ?_⟩
  · rw [files_ofLog, firstWrites_of_pathsDiffer differ, List.length_map]
  · rw [get?_ofLog, lastWrite?_of_pathsDiffer differ member]
    rfl

/-! ## Runs -/

/-- The write of one artifact in an emission. -/
structure Task where
  /-- The artifact to be written. -/
  artifact : Artifact
  /-- What becomes of it. -/
  fate : Fate
  deriving DecidableEq, Repr

namespace Task

/-- The report about a task, which nothing but its own artifact and fate decides. -/
def report (task : Task) : Report :=
  (task.fate.ending task.artifact.path).report task.artifact.path

/-- The artifacts that tasks store. -/
def written (tasks : List Task) : List Artifact :=
  (tasks.filter fun task => task.fate = .stored).map artifact

end Task

/--
The task for the next artifact, with the next of the fates that are dealt out beside the store.
Any destination in front of a store deals out some fates.
-/
def writeDealt (artifact : Artifact) : StateM (List Fate × Store) Ending := fun (fates, store) =>
  let (ending, after) := (writeArtifact (fates.headD .stored) artifact).run store
  (ending, fates.tail, after)

/-- One turn of a run. -/
inductive Turn where
  /-- A direct write. -/
  | write (path : Path) (content : String)
  /-- The emission of artifacts, each with its fate. -/
  | emit (tasks : List Task)

namespace Turn

/-- The reports and the store of a turn. -/
def take : Turn → StateM Store (List Report)
  | .write path content => fun store => ([], store.write path content)
  | .emit tasks => fun store =>
      let (reports, _, after) :=
        (emitTasks writeDealt (tasks.map Task.artifact)).run (tasks.map Task.fate, store)
      (reports, after)

/-- The reports that a turn should have. -/
def reports : Turn → List Report
  | .write _ _ => []
  | .emit tasks => tasks.map Task.report

/-- The successful writes of a turn. -/
def written : Turn → List Artifact
  | .write path content => [⟨path, content⟩]
  | .emit tasks => Task.written tasks

end Turn

theorem run_writeDealt (artifact : Artifact) (fate : Fate) (fates : List Fate) (store : Store) :
    (writeDealt artifact).run (fate :: fates, store) =
      (((writeArtifact fate artifact).run store).1, fates,
        ((writeArtifact fate artifact).run store).2) := rfl

/-- The store after a task, which adds to the log exactly if the artifact is stored. -/
theorem run_writeArtifact (task : Task) (log : List Artifact) :
    (writeArtifact task.fate task.artifact).run (ofLog log) =
      (task.fate.ending task.artifact.path, ofLog (log ++ Task.written [task])) := by
  obtain ⟨artifact, fate⟩ := task
  by_cases stored : fate = .stored
  · subst stored
    exact congrArg (Prod.mk _) (ofLog_concat log artifact).symm
  · simp [writeArtifact, Task.written, stored, StateT.run]

/-- Every task of an emission is reported with its own outcome, and the stored ones are written. -/
theorem run_emit_dealt (tasks : List Task) (log : List Artifact) :
    (emitTasks writeDealt (tasks.map Task.artifact)).run (tasks.map Task.fate, ofLog log) =
      (tasks.map Task.report, [], ofLog (log ++ Task.written tasks)) := by
  induction tasks generalizing log with
  | nil =>
      rw [Task.written, List.filter_nil, List.map_nil, List.append_nil]
      rfl
  | cons task tasks ih =>
      have written : Task.written (task :: tasks) = Task.written [task] ++ Task.written tasks := by
        rw [Task.written, ← List.singleton_append, List.filter_append, List.map_append]
        rfl
      rw [List.map_cons, List.map_cons, run_emitTasks_cons, run_writeDealt, run_writeArtifact, ih,
        written, List.append_assoc]
      rfl

theorem run_take (turn : Turn) (log : List Artifact) :
    turn.take.run (ofLog log) = (turn.reports, ofLog (log ++ turn.written)) := by
  cases turn with
  | write path content =>
      rw [Turn.written, ofLog_concat]
      rfl
  | emit tasks =>
      have emitted := run_emit_dealt tasks log
      simp only [Turn.take, StateT.run] at emitted ⊢
      rw [emitted]
      rfl

/-- An action as a turn whose fates are decided by barriers. -/
def Action.turn (barriers : Barriers) : Action → Turn
  | .write path content => .write path content
  | .emit artifacts => .emit (artifacts.map fun artifact => ⟨artifact, barriers.fate artifact.path⟩)

theorem run_emit_barred (barriers : Barriers) (artifacts : List Artifact) (store : Store) :
    (emitTasks writeDealt artifacts).run
        (artifacts.map fun artifact => barriers.fate artifact.path, store) =
      (((Action.emit artifacts).run barriers store).1, [],
        ((Action.emit artifacts).run barriers store).2) := by
  induction artifacts generalizing store with
  | nil => rfl
  | cons artifact artifacts ih =>
      rw [List.map_cons, run_emitTasks_cons, run_writeDealt, ih]
      rfl

/-- Barriers deal out the fates of an action by its paths. -/
theorem run_action (barriers : Barriers) (action : Action) (store : Store) :
    (action.run barriers).run store = (action.turn barriers).take.run store := by
  cases action with
  | write path content => rfl
  | emit artifacts =>
      have barred := run_emit_barred barriers artifacts store
      have artifacts_eq : (artifacts.map fun artifact =>
          (⟨artifact, barriers.fate artifact.path⟩ : Task)).map Task.artifact = artifacts := by
        simp [Function.comp_def]
      have fates_eq : (artifacts.map fun artifact =>
          (⟨artifact, barriers.fate artifact.path⟩ : Task)).map Task.fate =
            artifacts.map fun artifact => barriers.fate artifact.path := by
        simp [Function.comp_def]
      simp only [Action.turn, Turn.take, artifacts_eq, fates_eq, StateT.run] at barred ⊢
      rw [barred]
      rfl

/-- Nothing is barred by default, so every artifact is written and reported as such. -/
theorem run_emit_unbarred (artifacts log : List Artifact) :
    ((Action.emit artifacts).run {}).run (ofLog log) =
      (artifacts.map fun artifact => ⟨artifact.path, none⟩, ofLog (log ++ artifacts)) := by
  have fate : ∀ path, ({} : Barriers).fate path = .stored := fun path => by simp [Barriers.fate]
  have turn : (Action.emit artifacts).turn {} =
      .emit (artifacts.map fun artifact => ⟨artifact, .stored⟩) := by
    simp [Action.turn, fate]
  have written : Task.written (artifacts.map fun artifact => ⟨artifact, .stored⟩) = artifacts := by
    rw [Task.written, List.filter_eq_self.mpr (by simp), List.map_map]
    exact List.map_id artifacts
  rw [run_action, run_take, turn, Turn.written, written]
  simp [Turn.reports, Task.report, Fate.ending, Ending.report, Function.comp_def]

/-- What the reports of turns and the store after them have to be. -/
structure Faithful (turns : List Turn) (reports : List (List Report)) (after : Store) : Prop where
  /-- An emission has one report for each artifact, in order, with its path and its own outcome. -/
  reported : reports = turns.map Turn.reports
  /-- A write is reported as aborted exactly if it panicked. -/
  aborted : ∀ tasks, .emit tasks ∈ turns → ∀ task ∈ tasks,
    (∃ path reason, task.report.failure = some (.aborted path reason)) ↔
      ∃ reason, task.fate = .panicked reason
  /-- A path has the content of the last successful write to its place, if there is one. -/
  contents : ∀ path, after.get? path =
    (lastWrite? path (turns.flatMap Turn.written)).map Artifact.content
  /-- There is one file for each place that was written, from its first successful write on. -/
  files : after.files =
    (firstWrites (turns.flatMap Turn.written)).map (fileOf (turns.flatMap Turn.written))

end Store
end DesignTokens
