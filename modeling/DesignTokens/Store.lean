import DesignTokens.Report

/-!
# Stores in memory

A store maps places to contents, where a place is what the components of a path say and the
spelling that came first is remembered.  Whatever stands in front of a store decides the fate of
the artifacts that are emitted to it: some are rejected and some tasks panic, and these leave the
store alone.
-/

namespace DesignTokens

namespace Entries

theorem mem_alter {κ α : Type} [DecidableEq κ] {key : κ} {change : Option α → α}
    {entries : List (κ × α)} {entry : κ × α} (member : entry ∈ alter key change entries) :
    entry ∈ entries ∨ entry = (key, change none) ∨
      ∃ value, (key, value) ∈ entries ∧ entry = (key, change (some value)) := by
  induction entries with
  | nil => exact .inr (.inl (List.mem_singleton.mp member))
  | cons first entries ih =>
      obtain ⟨head, value⟩ := first
      by_cases same : head = key
      · subst same
        simp only [alter, if_true, List.mem_cons] at member
        rcases member with here | there
        · exact .inr (.inr ⟨value, List.mem_cons_self, here⟩)
        · exact .inl (List.mem_cons_of_mem _ there)
      · simp only [alter, same, if_false, List.mem_cons] at member
        rcases member with here | there
        · exact .inl (by simp [here])
        · rcases ih there with old | fresh | ⟨earlier, found, changed⟩
          · exact .inl (List.mem_cons_of_mem _ old)
          · exact .inr (.inl fresh)
          · exact .inr (.inr ⟨earlier, List.mem_cons_of_mem _ found, changed⟩)

end Entries

/-- A stored file. -/
structure StoredFile where
  /-- The path under which it was stored first. -/
  path : Path
  /-- Its content. -/
  content : String
  deriving DecidableEq, Repr

/-- Files in memory, by the components of their paths. -/
structure Store where
  /-- The files in the order in which they first came. -/
  entries : OrderedMap (List Path.Component) StoredFile
  /-- Every file stands under the components of its path. -/
  placed : ∀ entry ∈ entries.entries, entry.2.path.components = entry.1

namespace Store

/-- The store without files. -/
def empty : Store := ⟨.empty, by simp [OrderedMap.empty]⟩

/-- The files in the order in which they first came. -/
def files (store : Store) : List StoredFile := store.entries.entries.map Prod.snd

/-- The content at a path. -/
def get? (store : Store) (path : Path) : Option String :=
  (store.entries.get? path.components).map StoredFile.content

/-- The file at a path after it is given a content. -/
def replaced (path : Path) (content : String) (file : Option StoredFile) : StoredFile :=
  ⟨(file.map StoredFile.path).getD path, content⟩

/-- Store a content at a path. -/
def write (store : Store) (path : Path) (content : String) : Store where
  entries := store.entries.alter path.components (replaced path content)
  placed := by
    intro entry member
    rcases Entries.mem_alter member with old | fresh | ⟨file, found, changed⟩
    · exact store.placed entry old
    · simp [fresh, replaced]
    · simpa [changed, replaced] using store.placed _ found

/-- What becomes of the write of an artifact that is emitted. -/
inductive Fate where
  /-- The artifact is stored. -/
  | stored
  /-- The destination in front of the store rejects the artifact. -/
  | rejected (reason : String)
  /-- The task panics before it comes to the store. -/
  | panicked (reason : String)
  deriving DecidableEq, Repr

/-- How the task for a path ends by its fate. -/
def Fate.ending (path : Path) : Fate → Ending
  | .stored => .returned none
  | .rejected reason => .returned (some (.rejected path reason))
  | .panicked reason => .panicked reason

/-- The task for one artifact, which stores it only if that is its fate. -/
def writeArtifact (fate : Fate) (artifact : Artifact) : StateM Store Ending := fun store =>
  (fate.ending artifact.path,
    if fate = .stored then store.write artifact.path artifact.content else store)

/-- Which paths of a store cannot be written by emitting. -/
structure Barriers where
  /-- Paths whose tasks panic. -/
  aborting : List Path := []
  /-- Paths that are refused. -/
  readOnly : List Path := []

/-- The fate of the write to a path behind barriers; a panic comes before a refusal. -/
def Barriers.fate (barriers : Barriers) (path : Path) : Fate :=
  if ∃ barred ∈ barriers.aborting, barred.Same path then .panicked ""
  else if ∃ barred ∈ barriers.readOnly, barred.Same path then .rejected "read-only"
  else .stored

/-- What is done to a store. -/
inductive Action where
  /-- A direct write, which no barrier stops. -/
  | write (path : Path) (content : String)
  /-- The emission of artifacts. -/
  | emit (artifacts : List Artifact)

/-- The reports and the store of an action. -/
def Action.run (barriers : Barriers) : Action → StateM Store (List Report)
  | .write path content => fun store => ([], store.write path content)
  | .emit artifacts =>
      emitTasks (fun artifact => writeArtifact (barriers.fate artifact.path) artifact) artifacts

/-- The reports of actions in order, and the store after them. -/
def run (barriers : Barriers) : List Action → StateM Store (List (List Report))
  | [] => return []
  | action :: actions => do
      let reports ← action.run barriers
      let later ← run barriers actions
      return reports :: later

end Store
end DesignTokens
