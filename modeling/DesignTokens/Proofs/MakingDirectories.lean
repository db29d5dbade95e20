import DesignTokens.Proofs.ClearedRoutes

/-!
# Making the directories of a path

Making a path's directories goes up to the first directory that is not missing and down again.
All in all it clears the route of the path; if the path starts nowhere, it changes nothing.
-/

namespace DesignTokens
namespace FileSystem

open DesignTokens.Path

/-! ## One directory -/

/-- Make one directory, and take it for a success if it is there already. -/
def settle (files : FileSystem) (path : Path) : Except FileError Unit × FileSystem :=
  match files.makeDirectory path with
  | (.ok _, done) => (.ok (), done)
  | (.error failure, done) => unlessDirectory path failure done

section Settle

variable {files : FileSystem} {path : Path} {front : List Component} {component : Component}
  (flawless : flaw path = none) (filled : path.text ≠ "") (ends : path.Ends)
  (components : path.components = front ++ [component])

include flawless filled ends components

theorem isDirectory_eq_isNone :
    files.isDirectory path =
      (files.blocked files.workingDirectory path.components).isNone := by
  by_cases named : ∃ name, component = .normal name
  · obtain ⟨name, rfl⟩ := named
    exact isDirectory_eq flawless filled (lastName?_eq_some ends components) components
  · exact isDirectory_of_no_lastName? flawless filled
      (lastName?_eq_none components (not_exists.mp named))

theorem settle_of_error {failure : FileError}
    (failed : files.makeDirectory path = (.error failure, files)) :
    files.settle path =
      if (files.blocked files.workingDirectory path.components).isNone then (.ok (), files)
      else (.error failure, files) := by
  rw [settle, failed]
  dsimp only
  rw [unlessDirectory, isDirectory_eq_isNone flawless filled ends components]

section Passable

variable (grounded : files.Grounded files.workingDirectory path.components)
  (passable : files.blocked files.workingDirectory front = none)

include grounded passable

/-- Behind directories, a directory is made, or it is told what is in its place. -/
theorem makeDirectory_behind :
    (∃ after, files.makeDirectory path = (.ok (), after) ∧ Clears files path (.ok ()) after) ∨
      ∃ failure, failure ≠ .notFound ∧ files.makeDirectory path = (.error failure, files) ∧
        (files.blocked files.workingDirectory path.components ≠ none →
          Clears files path (.error failure) files) := by
  have directories := List.findSome?_eq_none_iff.mp passable
  by_cases named : ∃ name, component = .normal name
  · obtain ⟨name, rfl⟩ := named
    have last := lastName?_eq_some ends components
    have way : files.routeOf path =
        route files.workingDirectory front ++ [files.goalOf path] := by
      rw [routeOf, goalOf, components, route_append_normal]
    have whole : files.blocked files.workingDirectory path.components =
        files.refusal (files.goalOf path) := by
      rw [goalOf, components, blocked_append_normal, passable, Option.none_or,
        goal_append_normal]
    by_cases vacant : files.refusal (files.goalOf path) = some .notFound
    · obtain ⟨after, made, view, entries⟩ :=
        makeDirectory_of_vacant flawless filled last components grounded passable vacant
      exact Or.inl ⟨after, made, clears_of_vacant way directories vacant view entries⟩
    · have taken :=
        makeDirectory_of_taken flawless filled last components grounded passable vacant
      refine Or.inr ⟨_, ?_, taken, fun closed => ?_⟩
      · split
        · simp
        · simp
      · obtain ⟨failure, refused⟩ := Option.ne_none_iff_exists'.mp (whole ▸ closed)
        have present : failure ≠ .notFound := fun same => vacant (same ▸ refused)
        exact clears_of_taken way directories (bars_of_refusal refused present)
  · have point := not_exists.mp named
    have whole : files.blocked files.workingDirectory path.components = none := by
      rw [components, blocked, route_append_point _ _ point]
      exact passable
    have failed := makeDirectory_of_no_lastName? flawless filled
      (lastName?_eq_none components point) whole
    exact Or.inr ⟨_, by simp, failed, fun closed => absurd whole closed⟩

theorem fst_makeDirectory_ne : (files.makeDirectory path).1 ≠ .error .notFound := by
  rcases makeDirectory_behind flawless filled ends components grounded passable with
    ⟨after, made, _⟩ | ⟨failure, present, failed, _⟩
  · simp [made]
  · simp [failed, present]

/-- The last directory of a path is made or told to be in the way, behind directories. -/
theorem clears_settle : Clears files path (files.settle path).1 (files.settle path).2 := by
  rcases makeDirectory_behind flawless filled ends components grounded passable with
    ⟨after, made, clears⟩ | ⟨failure, _, failed, clears⟩
  · rw [settle, made]
    exact clears
  · rw [settle_of_error flawless filled ends components failed]
    cases whole : files.blocked files.workingDirectory path.components with
    | none => exact clears_of_passable whole
    | some stop => exact clears (by simp [whole])

end Passable

/-- A place that cannot be entered stops the directories behind it. -/
theorem clears_of_refused {failure : FileError}
    (refused : files.blocked files.workingDirectory front = some failure)
    (present : failure ≠ .notFound) :
    Clears files path (files.settle path).1 (files.settle path).2 := by
  have failed := makeDirectory_of_blocked flawless filled ends components refused
  obtain ⟨before, place, behind, way, stops, directories⟩ := List.findSome?_eq_some_iff.mp refused
  have whole : files.routeOf path =
      before ++ place :: (behind ++ route (goal files.workingDirectory front) [component]) := by
    rw [routeOf, components, route_append, way, List.append_assoc, List.cons_append]
  have closed : (files.blocked files.workingDirectory path.components).isNone = false := by
    rw [components, blocked, route_append, List.findSome?_append, ← blocked, refused]
    rfl
  have barred := bars_of_refusal stops present
  have told := refusal_of_bars barred
  rw [stops] at told
  rw [settle_of_error flawless filled ends components failed, closed]
  refine clears_of_barred whole directories barred ⟨fun long => ?_, fun short => ?_, ?_⟩
  · simpa [long] using told
  · exact Or.inr (by simpa [short] using told)
  · intro short down
    have member : place ∈ route files.workingDirectory front := by simp [way]
    have other := ne_goal_of_mem_route down components member
    have same : failure = .notADirectory := by simpa [short] using told
    simp [same, goalOf, other]

end Settle

/-! ## The directories above a path -/

theorem flaw_of_begins {above path : Path} (begins : above.text.toList <+: path.text.toList)
    (flawless : flaw path = none) : flaw above = none := by
  rw [flaw_eq_none_iff] at flawless ⊢
  exact ⟨fun zero => flawless.1 (begins.subset zero),
    (utf8ByteSize_le_of_begins begins).trans_lt flawless.2⟩

section Chain

variable {files : FileSystem} {path above : Path} {parents : List Path}

theorem createChain_of_ne (filled : path.text ≠ "")
    (known : (files.makeDirectory path).1 ≠ .error .notFound) :
    files.createChain (path :: parents) = files.settle path := by
  unfold createChain settle
  rw [if_neg filled]
  rcases result : files.makeDirectory path with ⟨failure | done, after⟩
  · obtain rfl : after = files := by
      have failed := makeDirectory_of_fst (congrArg Prod.fst result)
      exact congrArg Prod.snd (result.symm.trans failed)
    rw [result] at known
    cases failure with
    | notFound => exact absurd rfl known
    | alreadyExists => rfl
    | notADirectory => rfl
    | isADirectory => rfl
    | nameTooLong => rfl
    | zeroInPath => rfl
    | other words => rfl
  · rfl

theorem createChain_of_notFound (filled : path.text ≠ "")
    (missing : files.makeDirectory path = (.error .notFound, files)) :
    files.createChain (path :: parents) =
      match files.createChain parents with
      | (.error failure, made) => (.error failure, made)
      | (.ok _, made) => made.settle path := by
  rw [createChain, if_neg filled, missing]
  rfl

theorem clears_of_empty (empty : path.text = "") (parents : List Path) :
    Clears files path (files.createChain (path :: parents)).1
      (files.createChain (path :: parents)).2 := by
  rw [createChain, if_pos empty]
  refine clears_of_passable ?_
  rw [components_eq_nil_iff.mpr empty]
  rfl

/-- The directories above a path are made before its own if one of them is missing. -/
theorem clears_of_missing (flawless : flaw path = none) (filled : path.text ≠ "")
    (ends : path.Ends) (grounded : files.Grounded files.workingDirectory path.components)
    (up : path.parent? = some above)
    (missing : files.blocked files.workingDirectory above.components = some .notFound)
    (first : Clears files above (files.createChain parents).1 (files.createChain parents).2) :
    Clears files path (files.createChain (path :: parents)).1
      (files.createChain (path :: parents)).2 := by
  obtain ⟨component, components⟩ := components_of_parent? up
  have failed := makeDirectory_of_blocked flawless filled ends components missing
  rw [createChain_of_notFound filled failed]
  rcases result : files.createChain parents with ⟨failure | done, made⟩
  · rw [result] at first
    exact first.of_error components missing
  · rw [result] at first
    have stays : made.Grounded made.workingDirectory path.components :=
      first.view ▸ grounded.mono fun _ => first.at?_of_directory
    have later : Clears made path _ _ :=
      clears_settle flawless filled ends components stays first.blocked_eq_none
    exact first.trans later components

theorem exists_parent?_of_blocked {front : List Component} {component : Component}
    {failure : FileError} (cut : path.components = front ++ [component])
    (refused : files.blocked files.workingDirectory front = some failure) :
    ∃ above, path.parent? = some above ∧ above.components = front := by
  cases up : path.parent? with
  | none =>
      rw [eq_nil_of_parent?_eq_none up cut] at refused
      cases refused
  | some above =>
      obtain ⟨last, split⟩ := components_of_parent? up
      exact ⟨above, rfl, (List.append_inj' (split.symm.trans cut) rfl).1⟩

/-- Making the directories of a path goes up to the first missing one and down again. -/
theorem clears_createChain (count : Nat) (short : path.components.length ≤ count)
    (flawless : flaw path = none) (ends : path.Ends)
    (grounded : files.Grounded files.workingDirectory path.components) :
    Clears files path (files.createChain (path.ancestorsUpTo (count + 1))).1
      (files.createChain (path.ancestorsUpTo (count + 1))).2 := by
  induction count generalizing path with
  | zero =>
      have nothing : path.components = [] := List.length_eq_zero_iff.mp (Nat.le_zero.mp short)
      exact clears_of_empty (components_eq_nil_iff.mp nothing) _
  | succ count ih =>
      rcases List.eq_nil_or_concat' path.components with nothing | ⟨front, component, cut⟩
      · exact clears_of_empty (components_eq_nil_iff.mp nothing) _
      · have filled : path.text ≠ "" := by
          rw [Ne, ← components_eq_nil_iff, cut]
          exact List.append_ne_nil_of_right_ne_nil front (List.cons_ne_nil component [])
        cases refused : files.blocked files.workingDirectory front with
        | none =>
            have known := fst_makeDirectory_ne flawless filled ends cut grounded refused
            rw [ancestorsUpTo, createChain_of_ne filled known]
            exact clears_settle flawless filled ends cut grounded refused
        | some failure =>
            by_cases missing : failure = .notFound
            · -- Only here is the path above asked for, which is one component shorter.
              subst missing
              obtain ⟨above, up, rfl⟩ := exists_parent?_of_blocked cut refused
              have above_short : above.components.length ≤ count := by
                rw [length_components_of_parent? up] at short
                exact Nat.le_of_succ_le_succ short
              have first := ih above_short (flaw_of_begins (text_of_parent? up) flawless)
                (ends_of_parent? up) (cut ▸ grounded).of_append
              rw [ancestorsUpTo, up]
              exact clears_of_missing flawless filled ends grounded up refused first
            · have failed := makeDirectory_of_blocked flawless filled ends cut refused
              have known : (files.makeDirectory path).1 ≠ .error .notFound := by
                simp [failed, missing]
              rw [ancestorsUpTo, createChain_of_ne filled known]
              exact clears_of_refused flawless filled ends cut refused missing

theorem length_components_le (path : Path) : path.components.length ≤ path.pieces.length := by
  unfold components
  split
  · rename_i absolute
    have start := pieces_of_isAbsolute absolute
    generalize path.pieces = pieces at start
    rw [start, List.filterMap_cons_none (show Component.ofPiece? "" = none from rfl)]
    exact Nat.succ_le_succ (List.length_filterMap_le Component.ofPiece? _)
  · cases path.pieces with
    | nil => rfl
    | cons first rest =>
        have later := List.length_filterMap_le Component.ofPiece? rest
        have start : (Component.ofFirst first).toList.length ≤ 1 := by
          cases Component.ofFirst first with
          | none => exact Nat.zero_le 1
          | some component => rfl
        simp only [List.length_append, List.length_cons]
        omega

/-- Every place on the route of a path is the place of the path or of one above it. -/
theorem exists_ancestor_of_mem_route {workingDirectory place : Location} (count : Nat)
    (short : path.components.length ≤ count)
    (member : place ∈ route workingDirectory path.components) :
    ∃ ancestor ∈ path.ancestorsUpTo count, place = ancestor.place workingDirectory := by
  induction count generalizing path with
  | zero =>
      rw [List.length_eq_zero_iff.mp (Nat.le_zero.mp short)] at member
      exact absurd member List.not_mem_nil
  | succ count ih =>
      rw [ancestorsUpTo]
      cases up : path.parent? with
      | none =>
          rw [parent?_eq_none up, Path.front] at member
          split at member
          · exact absurd member List.not_mem_nil
          · exact absurd member List.not_mem_nil
      | some above =>
          obtain ⟨component, components⟩ := components_of_parent? up
          have above_short : above.components.length ≤ count := by
            rw [length_components_of_parent? up] at short
            exact Nat.le_of_succ_le_succ short
          rw [components] at member
          rcases mem_route_append_singleton member with earlier | last
          · obtain ⟨ancestor, inside, same⟩ := ih above_short earlier
            exact ⟨ancestor, List.mem_cons_of_mem path inside, same⟩
          · rw [← components, ← place_eq_goal] at last
            exact ⟨path, List.mem_cons_self, last⟩

/-- Making directories clears the route of the path. -/
theorem clears_createDirectories (flawless : flaw path = none) (ends : path.Ends)
    (grounded : files.Grounded files.workingDirectory path.components) :
    Clears files path (files.createDirectories path).1 (files.createDirectories path).2 :=
  clears_createChain _ (length_components_le path) flawless ends grounded

/-- No directory is made for a path that cannot be spelled. -/
theorem createDirectories_of_flaw {failure : FileError} (flawed : flaw path = some failure) :
    files.createDirectories path = (.error failure, files) := by
  have filled : path.text ≠ "" := by
    intro empty
    obtain rfl : path = ⟨""⟩ := congrArg Path.mk empty
    have clean : flaw ⟨""⟩ = none := by decide
    rw [clean] at flawed
    cases flawed
  have stopped : files.target path = .error failure := target_of_flaw flawed
  have failed := makeDirectory_of_error stopped
  have known : (files.makeDirectory path).1 ≠ .error .notFound := by
    simp [failed, ne_notFound_of_flaw flawed]
  rw [createDirectories, ancestors, ancestorsUpTo, createChain_of_ne filled known, settle, failed]
  simp [unlessDirectory, isDirectory, find, stopped]

end Chain

/-! ## Paths that start nowhere -/

section Ungrounded

variable {files : FileSystem} {path : Path} {whole : List Component}

theorem at?_ne_of_ungrounded {directory : Location} {name : String} {slash : Bool}
    (ungrounded : ¬ files.Grounded files.workingDirectory whole)
    (begins : path.components <+: whole)
    (found : files.target path = .ok (.child directory name slash)) :
    files.at? directory ≠ some .directory := by
  intro house
  obtain ⟨front, last, components, grounded⟩ := grounded_of_child found house
  obtain ⟨back, rfl⟩ := begins
  rw [components] at grounded ungrounded
  rw [List.append_assoc, List.singleton_append] at ungrounded
  exact ungrounded (grounded_append_normal_iff.mp grounded)

theorem prefix_of_mem_ancestorsUpTo {count : Nat} {above : Path}
    (member : above ∈ path.ancestorsUpTo count) : above.components <+: path.components := by
  induction count generalizing path with
  | zero => exact absurd member List.not_mem_nil
  | succ count ih =>
      rw [ancestorsUpTo] at member
      rcases List.mem_cons.mp member with rfl | later
      · exact List.prefix_rfl
      · split at later
        case h_1 parent up =>
          obtain ⟨component, components⟩ := components_of_parent? up
          rw [components]
          exact (ih later).trans (List.prefix_append _ _)
        case h_2 => exact absurd later List.not_mem_nil

theorem snd_createChain_of_fails {paths : List Path}
    (fails : ∀ path ∈ paths, ∃ failure, files.makeDirectory path = (.error failure, files)) :
    (files.createChain paths).2 = files := by
  refine @snd_createChain_induction (fun before after => before = files → after = files) paths
    (fun _ same => same) (fun first second same => second (first same)) ?_ files rfl
  rintro _ path member rfl
  obtain ⟨failure, failed⟩ := fails path member
  rw [failed]

/-- No directory is made for a path that starts nowhere. -/
theorem snd_createDirectories_of_ungrounded
    (ungrounded : ¬ files.Grounded files.workingDirectory whole)
    (begins : path.components <+: whole) : (files.createDirectories path).2 = files := by
  refine snd_createChain_of_fails fun above member => ?_
  rcases files.makeDirectory_cases above with failed | ⟨_, _, _, house, _, found, _⟩
  · exact failed
  · have inner := (prefix_of_mem_ancestorsUpTo member).trans begins
    exact absurd house (at?_ne_of_ungrounded ungrounded inner found)

/-- No file is written to a path that starts nowhere. -/
theorem snd_write_of_ungrounded
    (ungrounded : ¬ files.Grounded files.workingDirectory path.components) (content : String) :
    (files.write path content).2 = files := by
  rcases files.write_cases path content with ⟨failure, failed⟩ | ⟨_, _, house, _, found, _⟩
  · rw [failed]
  · exact absurd house (at?_ne_of_ungrounded ungrounded List.prefix_rfl found)

end Ungrounded

end FileSystem
end DesignTokens
