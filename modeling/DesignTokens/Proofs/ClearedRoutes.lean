import DesignTokens.Proofs.RouteOperations
import Mathlib.Data.List.Find

/-!
# Cleared routes

A route is cleared up to the first place that is barred: one whose name is too long or where a file
is.  The places in front of it become directories and nothing else changes.  Whether the route is
cleared to its end, and what is told if not, depends on the barred places alone.
-/

namespace DesignTokens

/-- Failures that may stand for each other: a file in the way is told in one of two ways. -/
def FileError.Alike (left right : FileError) : Prop :=
  left = right ∨
    (left = .alreadyExists ∨ left = .notADirectory) ∧
      (right = .alreadyExists ∨ right = .notADirectory)

namespace FileSystem

open DesignTokens.Path

/-- Whether a file is at a place. -/
def holdsFile (files : FileSystem) (location : Location) : Bool :=
  match files.at? location with
  | some (.file _) => true
  | _ => false

/-- Whether no directory can be made at a place. -/
def bars (files : FileSystem) (location : Location) : Bool :=
  isTooLong location || files.holdsFile location

/-- The places in front of the first one that is barred. -/
def passed (files : FileSystem) (places : List Location) : List Location :=
  places.takeWhile fun place => !files.bars place

/-- The route of a path, seen from the working directory. -/
def routeOf (files : FileSystem) (path : Path) : List Location :=
  route files.workingDirectory path.components

/-- The place of a path, seen from the working directory. -/
def goalOf (files : FileSystem) (path : Path) : Location :=
  goal files.workingDirectory path.components

section Bars

variable {files : FileSystem} {location : Location}

theorem bars_eq_false_iff :
    files.bars location = false ↔
      files.refusal location = none ∨ files.refusal location = some .notFound := by
  rw [refusal_eq_none_iff, refusal_eq_notFound_iff, bars, holdsFile]
  rcases files.at?_cases location with there | there | ⟨content, there⟩
  · simp [there]
  · simp [there]
  · simp [there]

theorem bars_of_refusal {failure : FileError} (refused : files.refusal location = some failure)
    (present : failure ≠ .notFound) : files.bars location = true := by
  rw [← Bool.not_eq_false, bars_eq_false_iff, refused]
  simp [present]

theorem refusal_of_bars (barred : files.bars location = true) :
    files.refusal location =
      some (if isTooLong location then .nameTooLong else .notADirectory) := by
  unfold bars holdsFile at barred
  unfold refusal
  by_cases long : isTooLong location = true
  · simp [long]
  · rcases files.at?_cases location with there | there | ⟨content, there⟩
    · simp [long, there] at barred
    · simp [long, there] at barred
    · simp [long, there]

end Bars

/-- The failures that a barred place can lead to. -/
structure Explains (files : FileSystem) (path : Path) (place : Location) (failure : FileError) :
    Prop where
  /-- A long name is told as such. -/
  long : isTooLong place = true → failure = .nameTooLong
  /-- A file is told in one of two ways. -/
  file : isTooLong place = false → failure = .alreadyExists ∨ failure = .notADirectory
  /-- Which of the two it is depends on the position in a path that goes down only. -/
  down : isTooLong place = false → .parent ∉ path.components →
    (failure = .alreadyExists ↔ place = files.goalOf path)

/-- What making the directories of a path comes to. -/
structure Clears (before : FileSystem) (path : Path) (outcome : Except FileError Unit)
    (after : FileSystem) : Prop where
  /-- The working directory is the same. -/
  view : after.workingDirectory = before.workingDirectory
  /-- The places in front of the first barred one become directories, and nothing else changes. -/
  entries : ∀ location, after.at? location =
    if location ∈ before.passed (before.routeOf path) ∧ before.at? location = none then
      some .directory
    else before.at? location
  /-- It succeeds if no place is barred. -/
  done : outcome = .ok () ↔ ∀ place ∈ before.routeOf path, before.bars place = false
  /-- It fails at the first place that is barred. -/
  cause : ∀ failure, outcome = .error failure →
    ∃ place, (before.routeOf path).find? before.bars = some place ∧
      Explains before path place failure

section Clears

variable {files made after : FileSystem} {path above : Path}

theorem mem_of_mem_passed {places : List Location} {location : Location}
    (member : location ∈ files.passed places) : location ∈ places :=
  (List.takeWhile_prefix _).subset member

/-- Making directories where they are changes nothing. -/
theorem at?_eq_of_directories {places : List Location}
    (directories : ∀ place ∈ places, files.refusal place = none) (location : Location) :
    files.at? location =
      if location ∈ places ∧ files.at? location = none then some .directory
      else files.at? location := by
  rw [if_neg]
  rintro ⟨member, vacant⟩
  have there := (refusal_eq_none_iff.mp (directories location member)).2
  rw [vacant] at there
  cases there

theorem routeOf_append (files : FileSystem) {component : Component}
    (components : path.components = above.components ++ [component]) :
    ∃ back, files.routeOf path = files.routeOf above ++ back := by
  rw [routeOf, components, route_append]
  exact ⟨_, rfl⟩

theorem routeOf_congr {other : FileSystem}
    (view : other.workingDirectory = files.workingDirectory) (path : Path) :
    other.routeOf path = files.routeOf path := by
  rw [routeOf, routeOf, view]

/-- Nothing has to be made where every place is a directory. -/
theorem clears_of_passable
    (passable : files.blocked files.workingDirectory path.components = none) :
    Clears files path (.ok ()) files := by
  have directories := List.findSome?_eq_none_iff.mp passable
  refine ⟨rfl, ?_, iff_of_true rfl fun place member => ?_, ?_⟩
  · exact at?_eq_of_directories fun place member => directories place (mem_of_mem_passed member)
  · exact bars_eq_false_iff.mpr (Or.inl (directories place member))
  · intro failure failed
    cases failed

/-- Nothing is made in front of a barred place behind directories. -/
theorem clears_of_barred {front back : List Location} {place : Location} {failure : FileError}
    (route : files.routeOf path = front ++ place :: back)
    (directories : ∀ before ∈ front, files.refusal before = none)
    (barred : files.bars place = true) (explained : Explains files path place failure) :
    Clears files path (.error failure) files := by
  have unbarred : ∀ before ∈ front, files.bars before = false := fun before member =>
    bars_eq_false_iff.mpr (Or.inl (directories before member))
  have passes : files.passed (files.routeOf path) = front := by
    rw [passed, route, List.takeWhile_append_of_pos fun before member => by
      simp [unbarred before member], List.takeWhile_cons_of_neg (by simp [barred]),
      List.append_nil]
  refine ⟨rfl, ?_, iff_of_false (by simp) fun all => ?_, ?_⟩
  · rw [passes]
    exact at?_eq_of_directories directories
  · have free := all place (by simp [route])
    rw [barred] at free
    cases free
  · rintro _ ⟨rfl⟩
    refine ⟨place, ?_, explained⟩
    rw [route, List.find?_append, List.find?_eq_none.mpr fun before member => by
      simp [unbarred before member], Option.none_or, List.find?_cons_of_pos barred]

/-- Nothing is made where only the last place is barred. -/
theorem clears_of_taken {front : List Location}
    (route : files.routeOf path = front ++ [files.goalOf path])
    (directories : ∀ before ∈ front, files.refusal before = none)
    (barred : files.bars (files.goalOf path) = true) :
    Clears files path
      (.error (if isTooLong (files.goalOf path) then .nameTooLong else .alreadyExists)) files :=
  clears_of_barred route directories barred {
    long := fun long => if_pos long
    file := fun short => Or.inl (by simp [short])
    down := fun short _ => by simp [short] }

/-- A directory is made where nothing is behind directories. -/
theorem clears_of_vacant {front : List Location}
    (route : files.routeOf path = front ++ [files.goalOf path])
    (directories : ∀ before ∈ front, files.refusal before = none)
    (vacant : files.refusal (files.goalOf path) = some .notFound)
    (view : after.workingDirectory = files.workingDirectory)
    (made : ∀ location, after.at? location =
      if location = files.goalOf path then some .directory else files.at? location) :
    Clears files path (.ok ()) after := by
  have free : ∀ place ∈ files.routeOf path, files.bars place = false := by
    intro place member
    rw [route] at member
    rcases List.mem_append.mp member with before | last
    · exact bars_eq_false_iff.mpr (Or.inl (directories place before))
    · rw [List.mem_singleton.mp last]
      exact bars_eq_false_iff.mpr (Or.inr vacant)
  have passes : files.passed (files.routeOf path) = files.routeOf path :=
    List.takeWhile_eq_self_iff.mpr fun place member => by simp [free place member]
  have nothing := (refusal_eq_notFound_iff.mp vacant).2
  refine ⟨view, fun location => ?_, iff_of_true rfl free, ?_⟩
  · rw [made, passes, route]
    by_cases last : location = files.goalOf path
    · simp [last, nothing]
    · simpa [last] using at?_eq_of_directories directories location
  · intro failure failed
    cases failed

/-! ## Composition -/

theorem Clears.holdsFile_eq {outcome : Except FileError Unit}
    (clears : Clears files path outcome after) (location : Location) :
    after.holdsFile location = files.holdsFile location := by
  rw [holdsFile, holdsFile, clears.entries]
  by_cases passes : location ∈ files.passed (files.routeOf path) ∧ files.at? location = none
  · rw [if_pos passes, passes.2]
  · rw [if_neg passes]

theorem Clears.bars_eq {outcome : Except FileError Unit}
    (clears : Clears files path outcome after) : after.bars = files.bars := by
  funext location
  rw [bars, bars, clears.holdsFile_eq]

theorem Explains.of_view {place : Location} {failure : FileError}
    (view : made.workingDirectory = files.workingDirectory)
    (explained : Explains made path place failure) : Explains files path place failure where
  long := explained.long
  file := explained.file
  down short plain := by
    rw [explained.down short plain, goalOf, goalOf, view]

/-- Making the directories of a path behind those of the path above it. -/
theorem Clears.trans {component : Component} {outcome : Except FileError Unit}
    (first : Clears files above (.ok ()) made) (second : Clears made path outcome after)
    (components : path.components = above.components ++ [component]) :
    Clears files path outcome after := by
  have route := routeOf_congr first.view path
  obtain ⟨back, split⟩ := routeOf_append files components
  have free := first.done.mp rfl
  have passes : made.passed (made.routeOf path) = files.passed (files.routeOf path) := by
    rw [passed, passed, first.bars_eq, route]
  have within : ∀ location ∈ files.passed (files.routeOf above),
      location ∈ files.passed (files.routeOf path) := by
    intro location member
    rw [passed, split, List.takeWhile_append_of_pos fun place inside => by
      simp [free place inside]]
    exact List.mem_append_left _ (mem_of_mem_passed member)
  refine ⟨second.view.trans first.view, fun location => ?_, ?_, fun failure failed => ?_⟩
  · rw [second.entries, passes, first.entries]
    by_cases vacant : files.at? location = none
    · by_cases early : location ∈ files.passed (files.routeOf above)
      · simp [vacant, early, within location early]
      · simp [vacant, early]
    · simp [vacant]
  · rw [second.done, first.bars_eq, route]
  · obtain ⟨place, found, explained⟩ := second.cause failure failed
    rw [first.bars_eq, route] at found
    exact ⟨place, found, explained.of_view first.view⟩

/-- The places that are passed are directories afterwards. -/
theorem Clears.refusal_eq_none {outcome : Except FileError Unit}
    (clears : Clears files path outcome after) {place : Location}
    (member : place ∈ files.passed (files.routeOf path)) : after.refusal place = none := by
  have unbarred : files.bars place = false := by simpa using List.mem_takeWhile_imp member
  rw [refusal_eq_none_iff, clears.entries]
  rcases bars_eq_false_iff.mp unbarred with open_ | missing
  · obtain ⟨short, there⟩ := refusal_eq_none_iff.mp open_
    simp [short, there]
  · obtain ⟨short, vacant⟩ := refusal_eq_notFound_iff.mp missing
    simp [short, vacant, member]

theorem Clears.passed_eq (clears : Clears files path (.ok ()) after) :
    files.passed (files.routeOf path) = files.routeOf path :=
  List.takeWhile_eq_self_iff.mpr fun place member => by simp [clears.done.mp rfl place member]

theorem Clears.blocked_eq_none (clears : Clears files path (.ok ()) after) :
    after.blocked after.workingDirectory path.components = none := by
  rw [blocked, clears.view, List.findSome?_eq_none_iff]
  intro place member
  have passes : place ∈ files.passed (files.routeOf path) := by
    rw [clears.passed_eq]
    exact member
  exact clears.refusal_eq_none passes

theorem Clears.at?_of_directory {outcome : Except FileError Unit}
    (clears : Clears files path outcome after) {location : Location}
    (there : files.at? location = some .directory) : after.at? location = some .directory := by
  rw [clears.entries, if_neg (by simp [there]), there]

theorem passed_append {places more : List Location} {place : Location}
    (found : places.find? files.bars = some place) :
    files.passed (places ++ more) = files.passed places := by
  obtain ⟨barred, front, back, rfl, unbarred⟩ := List.find?_eq_some_iff_append.mp found
  rw [passed, passed, List.append_assoc, List.takeWhile_append_of_pos unbarred,
    List.takeWhile_append_of_pos unbarred, List.cons_append,
    List.takeWhile_cons_of_neg (by simp [barred]), List.takeWhile_cons_of_neg (by simp [barred])]

/-- On a way down to a file, no place is missing. -/
theorem not_missing_of_file {place : Location} (down : .parent ∉ path.components)
    (barred : files.bars place = true) (short : isTooLong place = false)
    (member : place ∈ files.routeOf path) :
    files.blocked files.workingDirectory path.components ≠ some .notFound := by
  intro missing
  obtain ⟨front, gap, back, way, refused, directories⟩ := List.findSome?_eq_some_iff.mp missing
  have pairs := pairwise_route down files.workingDirectory
  rw [way, List.pairwise_append] at pairs
  rw [routeOf, way] at member
  rcases List.mem_append.mp member with before | later
  · rw [bars_eq_false_iff.mpr (Or.inl (directories place before))] at barred
    cases barred
  · rcases List.mem_cons.mp later with rfl | behind
    · rw [bars_eq_false_iff.mpr (Or.inr refused)] at barred
      cases barred
    · -- The gap would be above the file, but whatever is there stands in a directory.
      obtain ⟨begins, differ⟩ := (List.pairwise_cons.mp pairs.2.1).1 place behind
      have there : (files.at? place).isSome = true := by
        rw [bars, short, Bool.false_or, holdsFile] at barred
        split at barred
        case h_1 content file => simp [file]
        case h_2 => cases barred
      have house := at?_of_prefix begins differ there
      rw [(refusal_eq_notFound_iff.mp refused).2] at house
      cases house

/-- What is left undone above a path is left undone for the path. -/
theorem Clears.of_error {component : Component} {failure : FileError} {after : FileSystem}
    (first : Clears files above (.error failure) after)
    (components : path.components = above.components ++ [component])
    (missing : files.blocked files.workingDirectory above.components = some .notFound) :
    Clears files path (.error failure) after := by
  obtain ⟨place, found, explained⟩ := first.cause failure rfl
  obtain ⟨back, split⟩ := routeOf_append files components
  have barred : files.bars place = true := List.find?_some found
  have member : place ∈ files.routeOf above := List.mem_of_find?_eq_some found
  have passes : files.passed (files.routeOf path) = files.passed (files.routeOf above) := by
    rw [split, passed_append found]
  refine ⟨first.view, ?_, iff_of_false (by simp) fun free => ?_, ?_⟩
  · rw [passes]
    exact first.entries
  · have unbarred := free place (split ▸ List.mem_append_left back member)
    rw [barred] at unbarred
    cases unbarred
  · rintro _ ⟨rfl⟩
    refine ⟨place, by rw [split, List.find?_append, found, Option.some_or],
      explained.long, explained.file, fun short down => ?_⟩
    have above_down : .parent ∉ above.components := fun there =>
      down (components ▸ List.mem_append_left [component] there)
    exact absurd missing (not_missing_of_file above_down barred short member)

end Clears

/-! ## Two file systems with the same barred places -/

section Congruence

variable {files other made after : FileSystem} {path : Path}

theorem passed_congr {places : List Location}
    (same : ∀ place ∈ places, other.bars place = files.bars place) :
    other.passed places = files.passed places := by
  induction places with
  | nil => rfl
  | cons place places ih =>
      have later := ih fun inner inside => same inner (List.mem_cons_of_mem place inside)
      have first := same place List.mem_cons_self
      unfold passed at later ⊢
      rw [List.takeWhile_cons, List.takeWhile_cons, first, later]

/-- Where the same places are barred, making directories succeeds alike. -/
theorem Clears.done_iff {left right : Except FileError Unit}
    (first : Clears files path left made) (second : Clears other path right after)
    (view : other.workingDirectory = files.workingDirectory)
    (same : ∀ place ∈ files.routeOf path, other.bars place = files.bars place) :
    right = .ok () ↔ left = .ok () := by
  have way := routeOf_congr view path
  rw [first.done, second.done, way]
  exact forall₂_congr fun place member => by rw [same place member]

/-- Where the same places are barred, making directories fails alike. -/
theorem Clears.alike {left right : FileError} (first : Clears files path (.error left) made)
    (second : Clears other path (.error right) after)
    (view : other.workingDirectory = files.workingDirectory)
    (same : ∀ place ∈ files.routeOf path, other.bars place = files.bars place) :
    left.Alike right ∧ (.parent ∉ path.components → left = right) := by
  have way := routeOf_congr view path
  obtain ⟨place, found, explained⟩ := first.cause left rfl
  obtain ⟨again, refound, reexplained⟩ := second.cause right rfl
  rw [way, List.find?_congr same, found] at refound
  obtain rfl : place = again := Option.some.inj refound
  have goals := reexplained.of_view view
  cases long : isTooLong place with
  | true => simp [explained.long long, goals.long long, FileError.Alike]
  | false =>
      have told := explained.file long
      have retold := goals.file long
      refine ⟨Or.inr ⟨told, retold⟩, fun down => ?_⟩
      have agree := (explained.down long down).trans (goals.down long down).symm
      grind

/-- On a way that goes down only, the same is told. -/
theorem Clears.eq_of_down {left right : Except FileError Unit}
    (first : Clears files path left made) (second : Clears other path right after)
    (view : other.workingDirectory = files.workingDirectory)
    (same : ∀ place ∈ files.routeOf path, other.bars place = files.bars place)
    (down : .parent ∉ path.components) : left = right := by
  have agree := first.done_iff second view same
  cases left with
  | ok done => exact (agree.mpr rfl).symm
  | error cause =>
      cases right with
      | ok redone => cases agree.mp rfl
      | error known => rw [(first.alike second view same).2 down]

end Congruence

end FileSystem
end DesignTokens
