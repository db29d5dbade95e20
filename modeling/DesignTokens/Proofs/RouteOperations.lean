import DesignTokens.Proofs.Routes

/-!
# Operations along routes

An operation that looks a name up finds a directory to look in, unless its route starts nowhere.
Making a directory and writing a file then come to what the places on the route say.
-/

namespace DesignTokens
namespace FileSystem

open DesignTokens.Path

/-! ## Grounded routes -/

/-- Whether the first name among some components is looked up in a directory. -/
def Grounded (files : FileSystem) : Location → List Component → Prop
  | _, [] => True
  | location, .normal _ :: _ => files.at? location = some .directory
  | location, component :: components => files.Grounded (component.follow location) components

section Grounded

variable {files : FileSystem} {location : Location} {front back components : List Component}

theorem at?_dropLast (there : files.at? location = some .directory) :
    files.at? location.dropLast = some .directory := by
  rcases List.eq_nil_or_concat' location with rfl | ⟨above, name, rfl⟩
  · exact there
  · rw [List.dropLast_concat]
    exact files.housed above name (Option.isSome_of_eq_some there)

/-- Whatever has something below it is a directory. -/
theorem at?_of_prefix {above below : Location} (begins : above <+: below) (differ : above ≠ below)
    (there : (files.at? below).isSome = true) : files.at? above = some .directory := by
  obtain ⟨names, rfl⟩ := begins
  induction names using List.reverseRecOn with
  | nil => exact absurd (List.append_nil above).symm differ
  | append_singleton names name ih =>
      rw [← List.append_assoc] at there
      have house := files.housed (above ++ names) name there
      by_cases last : names = []
      · rwa [last, List.append_nil] at house
      · exact ih (by simpa using last) (Option.isSome_of_eq_some house)

theorem grounded_of_directory (there : files.at? location = some .directory) :
    files.Grounded location components := by
  induction components generalizing location with
  | nil => trivial
  | cons component components ih =>
      cases component with
      | normal name => exact there
      | root => exact ih (at?_root files)
      | current => exact ih there
      | parent => exact ih (at?_dropLast there)

theorem Grounded.of_append (grounded : files.Grounded location (front ++ back)) :
    files.Grounded location front := by
  induction front generalizing location with
  | nil => trivial
  | cons component front ih =>
      cases component with
      | normal name => exact grounded
      | root => exact ih grounded
      | current => exact ih grounded
      | parent => exact ih grounded

theorem Grounded.mono {later : FileSystem}
    (grows : ∀ location, files.at? location = some .directory →
      later.at? location = some .directory)
    (grounded : files.Grounded location components) : later.Grounded location components := by
  induction components generalizing location with
  | nil => trivial
  | cons component components ih =>
      cases component with
      | normal name => exact grows location grounded
      | root => exact ih grounded
      | current => exact ih grounded
      | parent => exact ih grounded

/-- A name is looked up in a directory if nothing is in the way. -/
theorem Grounded.at?_goal {name : String}
    (grounded : files.Grounded location (front ++ [.normal name]))
    (passable : files.blocked location front = none) :
    files.at? (goal location front) = some .directory := by
  induction front generalizing location with
  | nil => exact grounded
  | cons component front ih =>
      cases component with
      | normal inner =>
          obtain ⟨open_, later⟩ := blocked_normal_cons_eq_none.mp passable
          exact ih (grounded_of_directory (refusal_eq_none_iff.mp open_).2) later
      | root => exact ih grounded passable
      | current => exact ih grounded passable
      | parent => exact ih grounded passable

/-- Where a name is looked up depends on nothing behind the components in front of it. -/
theorem grounded_append_normal_iff {name other : String} {more : List Component} :
    files.Grounded location (front ++ .normal name :: back) ↔
      files.Grounded location (front ++ .normal other :: more) := by
  induction front generalizing location with
  | nil => exact Iff.rfl
  | cons component front ih =>
      cases component with
      | normal inner => exact Iff.rfl
      | root => exact ih
      | current => exact ih
      | parent => exact ih

theorem grounded_of_goal {name : String} (passable : files.blocked location front = none)
    (house : files.at? (goal location front) = some .directory) :
    files.Grounded location (front ++ [.normal name]) := by
  induction front generalizing location with
  | nil => exact house
  | cons component front ih =>
      cases component with
      | normal inner =>
          obtain ⟨open_, _⟩ := blocked_normal_cons_eq_none.mp passable
          have above := at?_dropLast (refusal_eq_none_iff.mp open_).2
          rw [List.dropLast_concat] at above
          exact above
      | root => exact ih passable house
      | current => exact ih passable house
      | parent => exact ih passable house

end Grounded

/-! ## Operations along routes -/

/-- A path that leads to a child of a directory starts in a directory. -/
theorem grounded_of_child {files : FileSystem} {path : Path} {directory : Location}
    {name : String} {slash : Bool} (found : files.target path = .ok (.child directory name slash))
    (house : files.at? directory = some .directory) :
    ∃ front last, path.components = front ++ [.normal last] ∧
      files.Grounded files.workingDirectory path.components := by
  cases flawed : flaw path with
  | some failure =>
      rw [target_of_flaw flawed] at found
      cases found
  | none =>
      have filled : path.text ≠ "" := by
        intro empty
        rw [target_of_empty empty] at found
        cases found
      cases ends : lastName? path with
      | none =>
          rw [target_of_no_lastName? files flawed filled ends] at found
          split at found
          · cases found
          · cases found
      | some last =>
          obtain ⟨before, _, components⟩ := names_of_lastName? ends
          rw [target_of_lastName? files flawed filled ends components] at found
          refine ⟨_, last, components, ?_⟩
          split at found
          · cases found
          · rename_i passable
            cases found
            rw [components]
            exact grounded_of_goal passable house

theorem makeDirectory_of_error {files : FileSystem} {path : Path} {failure : FileError}
    (stopped : files.target path = .error failure) :
    files.makeDirectory path = (.error failure, files) := by
  unfold makeDirectory
  rw [stopped]

section Operations

variable {files : FileSystem} {path : Path} {front : List Component}
  (flawless : flaw path = none) (filled : path.text ≠ "")

include flawless filled

section Named

variable {name : String} (last : lastName? path = some name)
  (components : path.components = front ++ [.normal name])

include last components

/-- A path leads to a directory if every place on its route is one. -/
theorem isDirectory_eq :
    files.isDirectory path =
      (files.blocked files.workingDirectory path.components).isNone := by
  rw [components, blocked_append_normal, isDirectory, find,
    target_of_lastName? files flawless filled last components]
  cases files.blocked files.workingDirectory front with
  | some failure => simp
  | none =>
      rw [Option.none_or, refusal, isTooLong_append]
      dsimp only
      by_cases long : maxNameBytes < name.utf8ByteSize
      · simp [long]
      · rcases files.at?_cases (goal files.workingDirectory front ++ [name]) with
          vacant | directory | ⟨content, file⟩
        · simp [long, vacant]
        · simp [long, directory]
        · by_cases slash : path.text.toList.getLast? = some '/'
          · simp [long, file, slash]
          · simp [long, file, slash]

section Passable

variable (grounded : files.Grounded files.workingDirectory path.components)
  (passable : files.blocked files.workingDirectory front = none)

include grounded passable

/-- Behind directories, a path leads to a child of one. -/
theorem target_eq_child :
    files.target path =
        .ok (.child (goal files.workingDirectory front) name
          (path.text.toList.getLast? = some '/')) ∧
      files.at? (goal files.workingDirectory front) = some .directory := by
  have target := target_of_lastName? files flawless filled last components
  rw [passable] at target
  rw [components] at grounded
  exact ⟨target, grounded.at?_goal passable⟩

/-- A directory is not made where something is already. -/
theorem makeDirectory_of_taken
    (taken : files.refusal (goal files.workingDirectory path.components) ≠ some .notFound) :
    files.makeDirectory path =
      (.error
        (if isTooLong (goal files.workingDirectory path.components) then .nameTooLong
          else .alreadyExists), files) := by
  obtain ⟨target, house⟩ := target_eq_child flawless filled last components grounded passable
  rw [components, goal_append_normal] at taken ⊢
  unfold makeDirectory
  rw [target]
  dsimp only
  rw [isTooLong_append]
  by_cases long : maxNameBytes < name.utf8ByteSize
  · simp [long]
  · have there : files.at? (goal files.workingDirectory front ++ [name]) ≠ none := by
      intro vacant
      exact taken (refusal_eq_notFound_iff.mpr ⟨by simp [isTooLong_append, long], vacant⟩)
    rw [if_neg long, dif_pos house]
    split
    · simp [long]
    · rename_i vacant
      exact absurd vacant there

/-- A directory is made where nothing is. -/
theorem makeDirectory_of_vacant
    (vacant : files.refusal (goal files.workingDirectory path.components) = some .notFound) :
    ∃ after, files.makeDirectory path = (.ok (), after) ∧
      after.workingDirectory = files.workingDirectory ∧
      ∀ location, after.at? location =
        if location = goal files.workingDirectory path.components then some .directory
        else files.at? location := by
  obtain ⟨target, house⟩ := target_eq_child flawless filled last components grounded passable
  rw [components, goal_append_normal] at vacant ⊢
  obtain ⟨short, free⟩ := refusal_eq_notFound_iff.mp vacant
  rw [isTooLong_append, decide_eq_false_iff_not] at short
  refine ⟨files.put (goal files.workingDirectory front) name .directory house (by simp [free]),
    ?_, rfl, fun location => ?_⟩
  · unfold makeDirectory
    rw [target]
    dsimp only
    rw [if_neg short, dif_pos house]
    split
    · rename_i entry there
      rw [free] at there
      cases there
    · rfl
  · rw [at?_put]

end Passable

/-- Why a file is not written, along its route. -/
theorem fst_write_of_lastName?
    (grounded : files.Grounded files.workingDirectory path.components) (content : String) :
    (files.write path content).1 =
      match files.blocked files.workingDirectory front with
      | some failure => .error failure
      | none =>
          if path.text.toList.getLast? = some '/' then .error .isADirectory
          else
            match files.refusal (goal files.workingDirectory path.components) with
            | none => .error .isADirectory
            | some .nameTooLong => .error .nameTooLong
            | some _ => .ok () := by
  cases passable : files.blocked files.workingDirectory front with
  | some failure =>
      have target := target_of_lastName? files flawless filled last components
      rw [passable] at target
      simp [write, target]
  | none =>
      obtain ⟨target, house⟩ := target_eq_child flawless filled last components grounded passable
      rw [components, goal_append_normal, refusal, isTooLong_append]
      unfold write
      rw [target]
      dsimp only
      by_cases slash : path.text.toList.getLast? = some '/'
      · simp [slash]
      · by_cases long : maxNameBytes < name.utf8ByteSize
        · simp [slash, long]
        · rcases files.at?_cases (goal files.workingDirectory front ++ [name]) with
            vacant | directory | ⟨old, file⟩
          · simp [slash, long, house, vacant]
          · simp [slash, long, house, directory]
          · simp [slash, long, house, file]

end Named

section Unnamed

variable (last : lastName? path = none)

include last

theorem isDirectory_of_no_lastName? :
    files.isDirectory path =
      (files.blocked files.workingDirectory path.components).isNone := by
  rw [isDirectory, find, target_of_no_lastName? files flawless filled last]
  cases files.blocked files.workingDirectory path.components with
  | some failure => rfl
  | none => rfl

theorem makeDirectory_of_no_lastName?
    (passable : files.blocked files.workingDirectory path.components = none) :
    files.makeDirectory path = (.error .alreadyExists, files) := by
  have target := target_of_no_lastName? files flawless filled last
  rw [passable] at target
  unfold makeDirectory
  rw [target]

theorem fst_write_of_no_lastName? (content : String) :
    (files.write path content).1 =
      match files.blocked files.workingDirectory path.components with
      | some failure => .error failure
      | none => .error .isADirectory := by
  unfold write
  rw [target_of_no_lastName? files flawless filled last]
  cases files.blocked files.workingDirectory path.components with
  | some failure => rfl
  | none => rfl

end Unnamed

/-- A directory is not made behind a place that cannot be entered. -/
theorem makeDirectory_of_blocked {component : Component} {failure : FileError}
    (ends : path.Ends) (components : path.components = front ++ [component])
    (refused : files.blocked files.workingDirectory front = some failure) :
    files.makeDirectory path = (.error failure, files) := by
  have stopped : files.target path = .error failure := by
    by_cases named : ∃ name, component = .normal name
    · obtain ⟨name, rfl⟩ := named
      have last := lastName?_eq_some ends components
      rw [target_of_lastName? files flawless filled last components, refused]
    · have point := not_exists.mp named
      have last := lastName?_eq_none components point
      have same := route_append_point files.workingDirectory front point
      rw [target_of_no_lastName? files flawless filled last, components, blocked, same,
        ← blocked, refused]
  exact makeDirectory_of_error stopped

end Operations

section Congruence

variable {files other : FileSystem}

theorem blocked_congr {location : Location} {components : List Component}
    (same : ∀ place ∈ route location components, files.refusal place = other.refusal place) :
    files.blocked location components = other.blocked location components := by
  rw [blocked, blocked, ← List.head?_filterMap, ← List.head?_filterMap, List.filterMap_congr same]

theorem fst_write_of_error {path : Path} {failure : FileError}
    (stopped : files.target path = .error failure) (content : String) :
    (files.write path content).1 = .error failure := by
  unfold write
  rw [stopped]

/-- A write comes to the same where the same places on its route can be entered. -/
theorem fst_write_congr {path : Path}
    (grounded : files.Grounded files.workingDirectory path.components)
    (again : other.Grounded other.workingDirectory path.components)
    (view : other.workingDirectory = files.workingDirectory)
    (same : ∀ place ∈ route files.workingDirectory path.components,
      files.refusal place = other.refusal place) (content : String) :
    (files.write path content).1 = (other.write path content).1 := by
  cases flawed : flaw path with
  | some failure =>
      rw [fst_write_of_error (target_of_flaw flawed), fst_write_of_error (target_of_flaw flawed)]
  | none =>
      by_cases filled : path.text = ""
      · rw [fst_write_of_error (target_of_empty filled),
          fst_write_of_error (target_of_empty filled)]
      · cases last : lastName? path with
        | none =>
            rw [fst_write_of_no_lastName? flawed filled last,
              fst_write_of_no_lastName? flawed filled last, view, blocked_congr same]
        | some name =>
            obtain ⟨before, _, components⟩ := names_of_lastName? last
            have goals : files.refusal (goal files.workingDirectory path.components) =
                other.refusal (goal files.workingDirectory path.components) := by
              refine same _ ?_
              rw [components, route_append_normal]
              exact List.mem_append_right _ List.mem_cons_self
            have front : files.blocked files.workingDirectory
                (path.lead ++ before.filterMap Component.ofPiece?) =
                  other.blocked files.workingDirectory
                    (path.lead ++ before.filterMap Component.ofPiece?) := by
              refine blocked_congr fun place member => same place ?_
              rw [components, route_append_normal]
              exact List.mem_append_left _ member
            rw [fst_write_of_lastName? flawed filled last components grounded,
              fst_write_of_lastName? flawed filled last components again, view, goals, front]

end Congruence

end FileSystem
end DesignTokens
