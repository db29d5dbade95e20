import DesignTokens.Proofs.EntryChanges
import DesignTokens.Proofs.JoinedPaths

/-!
# Names below a path

A name below a path leads to the entry of that name in the directory that the path leads to.  Two
spellings of the path that are short enough find the same there.
-/

namespace DesignTokens

open DesignTokens.Path FileSystem

namespace Path.IsName

variable {name : String} (isName : IsName name) (path : Path)

include isName

theorem names : (⟨name⟩ : Path).names = [name] := by
  rw [Path.names, isName.pieces]
  simp [isName.filled]

theorem names_join : (path.join ⟨name⟩).names = path.names ++ [name] := by
  by_cases empty : path.text = ""
  · have nothing : path.names = [] := by
      obtain rfl : path = ⟨""⟩ := congrArg Path.mk empty
      rfl
    rw [join_of_empty empty, isName.names, nothing, List.nil_append]
  · rw [Path.names_join empty isName.plain.relative, isName.names]

theorem ends_join : (path.join ⟨name⟩).Ends := by
  intro last ends
  rw [isName.components_join, List.getLast?_concat] at ends
  rw [isName.names_join, List.getLast?_concat]
  cases ends
  rfl

theorem text_join_ne : (path.join ⟨name⟩).text ≠ "" := by
  rw [Ne, ← components_eq_nil_iff, isName.components_join]
  exact List.append_ne_nil_of_right_ne_nil _ (List.cons_ne_nil _ _)

theorem getLast?_join_ne : (path.join ⟨name⟩).text.toList.getLast? ≠ some '/' := by
  have filled : name.toList ≠ [] := by simpa using isName.filled
  rw [join_of_relative isName.plain.relative, String.toList_append,
    List.getLast?_append_of_ne_nil _ filled]
  exact fun last => isName.slashless (List.mem_of_getLast? last)

theorem lastName?_join : lastName? (path.join ⟨name⟩) = some name :=
  lastName?_eq_some (isName.ends_join path) (isName.components_join path)

theorem place_join (workingDirectory : Location) :
    (path.join ⟨name⟩).place workingDirectory =
      goal workingDirectory path.components ++ [name] := by
  rw [place_eq_goal, isName.components_join, goal_append_normal]

/-- The directory above a name below a path is the one of the path. -/
theorem exists_parent?_join :
    ∃ above, (path.join ⟨name⟩).parent? = some above ∧ above.Same path :=
  exists_parent?_of_normal (isName.components_join path)

/-- A name below a path is found in the directory of the path. -/
theorem find_join_eq_ok_iff {files : FileSystem} {entry : Entry} :
    files.find (path.join ⟨name⟩) = .ok entry ↔
      flaw (path.join ⟨name⟩) = none ∧
        files.blocked files.workingDirectory path.components = none ∧
        name.utf8ByteSize ≤ maxNameBytes ∧
        files.at? (files.goalOf path ++ [name]) = some entry := by
  cases flawed : flaw (path.join ⟨name⟩) with
  | some failure => simp [find, target_of_flaw flawed]
  | none =>
      have leads := target_of_lastName? files flawed (isName.text_join_ne path)
        (isName.lastName?_join path) (isName.components_join path)
      cases stopped : files.blocked files.workingDirectory path.components with
      | some failure =>
          rw [stopped] at leads
          simp [find, leads]
      | none =>
          rw [stopped] at leads
          rw [find_of_child leads]
          simp [isName.getLast?_join_ne path, goalOf]

/-- A name is found alike below two spellings of a path, unless the second one is flawed. -/
theorem find_join_of_same {files : FileSystem} {entry : Entry} {other : Path}
    (found : files.find (path.join ⟨name⟩) = .ok entry) (same : other.Same path)
    (flawless : flaw (other.join ⟨name⟩) = none) : files.find (other.join ⟨name⟩) = .ok entry := by
  obtain ⟨_, passable, short, there⟩ := (isName.find_join_eq_ok_iff path).mp found
  refine (isName.find_join_eq_ok_iff other).mpr ⟨flawless, ?_, short, ?_⟩
  · rw [same]
    exact passable
  · rw [goalOf, same]
    exact there

/-- Below a path that goes down only, making its directories puts nothing. -/
theorem find_join_of_createDirectories {path : Path} {files : FileSystem} {entry : Entry}
    (down : .parent ∉ path.components)
    (found : (files.createDirectories path).2.find (path.join ⟨name⟩) = .ok entry) :
    files.find (path.join ⟨name⟩) = .ok entry := by
  have becomes := files.makesWay_createDirectories path
  obtain ⟨flawless, passable, short, there⟩ := (isName.find_join_eq_ok_iff path).mp found
  have above : ∀ place ∈ files.routeOf path,
      place <+: files.goalOf path ++ [name] ∧ place ≠ files.goalOf path ++ [name] := by
    have below : .parent ∉ (path.join ⟨name⟩).components := by
      simpa [isName.components_join] using down
    have pairs := pairwise_route below files.workingDirectory
    rw [isName.components_join, route_append_normal, List.pairwise_append] at pairs
    intro place member
    have pair := pairs.2.2 place member _ (List.mem_singleton.mpr rfl)
    rwa [goal_append_normal] at pair
  have goals : (files.createDirectories path).2.goalOf path = files.goalOf path := by
    rw [goalOf, goalOf, becomes.view]
  have stood : files.at? (files.goalOf path ++ [name]) = some entry := by
    have change := becomes.entries (files.goalOf path ++ [name])
    rw [goals] at there
    rw [there] at change
    generalize files.at? (files.goalOf path ++ [name]) = earlier at change ⊢
    cases change with
    | kept => rfl
    | added allowed => exact absurd rfl (above _ allowed.2).2
    | rewritten forced => exact absurd forced Bool.false_ne_true
  refine (isName.find_join_eq_ok_iff path).mpr ⟨flawless, ?_, short, stood⟩
  rw [blocked, becomes.view, List.findSome?_eq_none_iff] at passable
  rw [blocked, List.findSome?_eq_none_iff]
  intro place member
  obtain ⟨begins, differ⟩ := above place member
  exact refusal_eq_none_iff.mpr ⟨(refusal_eq_none_iff.mp (passable place member)).1,
    at?_of_prefix begins differ (Option.isSome_of_eq_some stood)⟩

/-- Short names below the parent of a flawless path are flawless. -/
theorem flaw_parent_join {path above : Path} {last : String} {front : List Component}
    (up : path.parent? = some above) (components : path.components = front ++ [.normal last])
    (flawless : flaw path = none) (shorter : name.utf8ByteSize < last.utf8ByteSize)
    (clean : '\x00' ∉ name.toList) : flaw (above.join ⟨name⟩) = none := by
  have size := utf8ByteSize_of_parent? up components
  have gap : above.gap.utf8ByteSize ≤ 1 := by
    unfold gap
    split
    · decide
    · decide
  rw [flaw_eq_none_iff] at flawless ⊢
  rw [join_of_relative isName.plain.relative]
  constructor
  · have plain : '\x00' ∉ above.gap.toList := by
      unfold Path.gap
      split
      · decide
      · decide
    have early : '\x00' ∉ above.text.toList := fun zero =>
      flawless.1 ((text_of_parent? up).subset zero)
    simp [early, plain, clean]
  · simp only [String.utf8ByteSize_append]
    omega

end Path.IsName
end DesignTokens
