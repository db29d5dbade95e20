import DesignTokens.Artifact
import DesignTokens.FileError

/-!
# Write reports

Every artifact is written by a task of its own and gets a report of its own, so that one failure
hides nothing.  Emitting works for every destination that can write a single artifact, and a task
that panics is reported as aborted, whatever the destination.
-/

namespace DesignTokens

/-- Why an artifact is not written. -/
inductive WriteError where
  /-- The directory above it cannot be made. -/
  | createDirectory (path : Path) (cause : FileError)
  /-- Its content cannot be stored. -/
  | write (path : Path) (cause : FileError)
  /-- Its write stopped before it had a result. -/
  | aborted (path : Path) (reason : String)
  /-- The destination refuses it. -/
  | rejected (path : Path) (reason : String)
  deriving DecidableEq, Repr

/-- The failure in words. -/
def WriteError.message : WriteError → String
  | .createDirectory path cause =>
      "failed to create directory " ++ path.text ++ ": " ++ cause.message
  | .write path cause => "failed to write " ++ path.text ++ ": " ++ cause.message
  | .aborted path reason => "write task for " ++ path.text ++ " aborted: " ++ reason
  | .rejected path reason => "sink rejected " ++ path.text ++ ": " ++ reason

/-- The outcome of writing one artifact. -/
structure Report where
  /-- The path of the artifact. -/
  path : Path
  /-- Why it is not written, if it is not. -/
  failure : Option WriteError
  deriving DecidableEq, Repr

/-- Whether the artifact is written. -/
def Report.isOk (report : Report) : Bool := report.failure.isNone

/-- How the task that writes an artifact ends. -/
inductive Ending where
  /-- The write comes back, with the failure that it met if it met one. -/
  | returned (failure : Option WriteError)
  /-- The task panics before its write comes back. -/
  | panicked (reason : String)
  deriving DecidableEq, Repr

/-- The report about the artifact at a path, whose task has ended. -/
def Ending.report (path : Path) : Ending → Report
  | .returned failure => ⟨path, failure⟩
  | .panicked reason => ⟨path, some (.aborted path reason)⟩

section Emit

variable {m : Type → Type} [Monad m]

/-- Run the task of every artifact and report how each of them ends, in their order. -/
def emitTasks (task : Artifact → m Ending) : List Artifact → m (List Report)
  | [] => return []
  | artifact :: artifacts => do
      let ending ← task artifact
      let reports ← emitTasks task artifacts
      return ending.report artifact.path :: reports

/-- Emit artifacts with a write that always comes back. -/
def emit (write : Artifact → m (Option WriteError)) (artifacts : List Artifact) :
    m (List Report) :=
  emitTasks (fun artifact => Ending.returned <$> write artifact) artifacts

end Emit

section Run

variable {σ : Type}

theorem run_emitTasks_cons (task : Artifact → StateM σ Ending) (artifact : Artifact)
    (artifacts : List Artifact) (state : σ) :
    (emitTasks task (artifact :: artifacts)).run state =
      (((task artifact).run state).1.report artifact.path ::
          ((emitTasks task artifacts).run ((task artifact).run state).2).1,
        ((emitTasks task artifacts).run ((task artifact).run state).2).2) := by
  rw [emitTasks]
  rfl

theorem run_emit_cons (write : Artifact → StateM σ (Option WriteError))
    (artifact : Artifact) (artifacts : List Artifact) (state : σ) :
    (emit write (artifact :: artifacts)).run state =
      (⟨artifact.path, ((write artifact).run state).1⟩ ::
          ((emit write artifacts).run ((write artifact).run state).2).1,
        ((emit write artifacts).run ((write artifact).run state).2).2) :=
  run_emitTasks_cons _ artifact artifacts state

end Run

end DesignTokens
