import DesignTokens.Proofs.PathComponents

/-!
# Routes through a file system

A path leads past the places of its names.  Which of them have to be directories follows from the
spelling alone, so an operation looks at nothing but the entries on its route.
-/

namespace DesignTokens
namespace Path

/-- The place that a component leads to. -/
def Component.follow (location : Location) : Component → Location
  | .root => []
  | .current => location
  | .parent => location.dropLast
  | .normal name => location ++ [name]

/-- The place that some components lead to. -/
def goal (location : Location) (components : List Component) : Location :=
  components.foldl Component.follow location

/-- The places of the names among some components. -/
def route (location : Location) : List Component → List Location
  | [] => []
  | .normal name :: components =>
      (location ++ [name]) :: route (location ++ [name]) components
  | component :: components => route (component.follow location) components

section Route

variable (location : Location) (name : String) (front back components : List Component)

theorem route_normal_cons :
    route location (.normal name :: components) =
      (location ++ [name]) :: route (location ++ [name]) components := rfl

theorem route_cons {component : Component} (point : ∀ name, component ≠ .normal name) :
    route location (component :: components) = route (component.follow location) components := by
  cases component with
  | normal name => exact absurd rfl (point name)
  | root => rfl
  | current => rfl
  | parent => rfl

theorem goal_append : goal location (front ++ back) = goal (goal location front) back :=
  List.foldl_append

theorem goal_append_normal :
    goal location (front ++ [.normal name]) = goal location front ++ [name] :=
  goal_append ..

theorem route_append :
    route location (front ++ back) =
      route location front ++ route (goal location front) back := by
  induction front generalizing location with
  | nil => rfl
  | cons component front ih =>
      cases component with
      | normal name => exact congrArg (List.cons _) (ih (location ++ [name]))
      | root => exact ih []
      | current => exact ih location
      | parent => exact ih location.dropLast

theorem route_append_normal :
    route location (front ++ [.normal name]) =
      route location front ++ [goal location (front ++ [.normal name])] := by
  rw [route_append, goal_append]
  rfl

theorem route_append_point {component : Component} (point : ∀ name, component ≠ .normal name) :
    route location (front ++ [component]) = route location front := by
  rw [route_append, route_cons _ _ point, route, List.append_nil]

/-- The last component adds at most the place that it leads to. -/
theorem mem_route_append_singleton {location place : Location} {front : List Component}
    {component : Component} (member : place ∈ route location (front ++ [component])) :
    place ∈ route location front ∨ place = goal location (front ++ [component]) := by
  by_cases named : ∃ name, component = .normal name
  · obtain ⟨name, rfl⟩ := named
    rw [route_append_normal] at member
    simpa using member
  · rw [route_append_point _ _ (not_exists.mp named)] at member
    exact Or.inl member

end Route

/-! ## Names and components -/

theorem foldl_follow_eq (location : Location) (names : List String) (filled : "" ∉ names) :
    names.foldl follow location = goal location (names.filterMap Component.ofPiece?) := by
  induction names generalizing location with
  | nil => rfl
  | cons name names ih =>
      have later := ih (follow location name) fun there => filled (List.mem_cons_of_mem name there)
      have first : name ≠ "" := fun empty => filled (empty ▸ List.mem_cons_self)
      rw [List.foldl_cons, later]
      by_cases point : name = "."
      · subst point
        rfl
      · by_cases double : name = ".."
        · subst double
          rfl
        · simp [Component.ofPiece?, follow, first, point, double, goal, Component.follow]

theorem empty_not_mem_names (path : Path) : "" ∉ path.names := by
  simp [names]

/-- Where the names of a path start. -/
def base (workingDirectory : Location) (path : Path) : Location :=
  if path.isAbsolute then [] else workingDirectory

theorem goal_lead (workingDirectory : Location) (path : Path) :
    goal workingDirectory path.lead = path.base workingDirectory := by
  unfold lead base
  split
  · rfl
  · split
    · rfl
    · rfl

theorem route_lead (workingDirectory : Location) (path : Path) :
    route workingDirectory path.lead = [] := by
  unfold lead
  split
  · rfl
  · split
    · rfl
    · rfl

theorem place_eq_goal (workingDirectory : Location) (path : Path) :
    path.place workingDirectory = goal workingDirectory path.components := by
  rw [components_eq_names, goal_append, goal_lead]
  exact foldl_follow_eq _ _ path.empty_not_mem_names

/-! ## Paths that go down only -/

theorem goal_map_normal (location : Location) (names : List String) :
    goal location (names.map .normal) = location ++ names := by
  induction names generalizing location with
  | nil => exact (List.append_nil location).symm
  | cons name names ih =>
      have later := ih (location ++ [name])
      rwa [List.append_assoc] at later

theorem exists_of_mem_route_map_normal {location place : Location} {names : List String}
    (member : place ∈ route location (names.map .normal)) :
    ∃ front, front <+: names ∧ place = location ++ front := by
  induction names generalizing location with
  | nil => exact absurd member List.not_mem_nil
  | cons name names ih =>
      rcases List.mem_cons.mp member with rfl | later
      · exact ⟨[name], by simp, rfl⟩
      · obtain ⟨front, begins, rfl⟩ := ih later
        exact ⟨name :: front, List.cons_prefix_cons.mpr ⟨rfl, begins⟩, by simp⟩

theorem prefix_of_mem_route {location place : Location} {components : List Component}
    (named : ∀ component ∈ components, ∃ name, component = .normal name)
    (member : place ∈ route location components) : location <+: place ∧ location ≠ place := by
  induction components generalizing location with
  | nil => exact absurd member List.not_mem_nil
  | cons component components ih =>
      obtain ⟨name, rfl⟩ := named component List.mem_cons_self
      rcases List.mem_cons.mp member with rfl | later
      · exact ⟨List.prefix_append location [name], by simp⟩
      · obtain ⟨⟨names, rfl⟩, _⟩ :=
          ih (fun inner inside => named inner (List.mem_cons_of_mem _ inside)) later
        exact ⟨⟨name :: names, by simp⟩, by simp⟩

theorem pairwise_route_of_named {location : Location} {components : List Component}
    (named : ∀ component ∈ components, ∃ name, component = .normal name) :
    (route location components).Pairwise fun above below => above <+: below ∧ above ≠ below := by
  induction components generalizing location with
  | nil => exact .nil
  | cons component components ih =>
      obtain ⟨name, rfl⟩ := named component List.mem_cons_self
      have later : ∀ inner ∈ components, ∃ name, inner = .normal name := fun inner inside =>
        named inner (List.mem_cons_of_mem _ inside)
      exact .cons (fun place => prefix_of_mem_route later) (ih later)

theorem named_of_no_parent {path : Path} (down : .parent ∉ path.components) :
    ∀ component ∈ path.names.filterMap Component.ofPiece?, ∃ name, component = .normal name := by
  intro component member
  have other : component ≠ .parent := by
    rintro rfl
    rw [components_eq_names] at down
    exact down (List.mem_append_right _ member)
  obtain ⟨piece, _, same⟩ := List.mem_filterMap.mp member
  unfold Component.ofPiece? at same
  grind

/-- A path without double points goes down at every name. -/
theorem pairwise_route {path : Path} (down : .parent ∉ path.components)
    (workingDirectory : Location) :
    (route workingDirectory path.components).Pairwise
      fun above below => above <+: below ∧ above ≠ below := by
  rw [components_eq_names, route_append, route_lead, List.nil_append]
  exact pairwise_route_of_named (named_of_no_parent down)

/-- No place on the way of a path without double points is its goal. -/
theorem ne_goal_of_mem_route {path : Path} {front : List Component} {component : Component}
    {workingDirectory place : Location} (down : .parent ∉ path.components)
    (components : path.components = front ++ [component])
    (member : place ∈ route workingDirectory front) :
    place ≠ goal workingDirectory path.components := by
  by_cases named : ∃ name, component = .normal name
  · obtain ⟨name, rfl⟩ := named
    have pairs := pairwise_route down workingDirectory
    rw [components, route_append_normal, List.pairwise_append] at pairs
    rw [components]
    exact (pairs.2.2 place member _ (List.mem_singleton.mpr rfl)).2
  · -- A last component that is no name stands in front of a path, so nothing is before it.
    have split := components
    rw [components_eq_names] at split
    rcases List.eq_nil_or_concat' (path.names.filterMap Component.ofPiece?) with empty | cut
    · rw [empty, List.append_nil] at split
      have short : path.lead.length ≤ 1 := by
        unfold lead
        grind
      have nothing : front = [] := by
        rw [split, List.length_append, List.length_singleton] at short
        exact List.length_eq_zero_iff.mp (by omega)
      rw [nothing] at member
      exact absurd member List.not_mem_nil
    · obtain ⟨before, last, cut⟩ := cut
      rw [cut, ← List.append_assoc] at split
      have same : last = component := by simpa using (List.append_inj' split rfl).2
      refine absurd (named_of_no_parent down last ?_) (same ▸ named)
      exact cut ▸ List.mem_append_right before List.mem_cons_self

end Path

namespace FileSystem

open DesignTokens.Path

/-! ## Entering places -/

/-- Whether the last name of a place is too long. -/
def isTooLong (location : Location) : Bool :=
  location.getLast?.any fun name => maxNameBytes < name.utf8ByteSize

/-- Why a place on a route cannot be entered. -/
def refusal (files : FileSystem) (location : Location) : Option FileError :=
  if isTooLong location then some .nameTooLong
  else
    match files.at? location with
    | some .directory => none
    | some (.file _) => some .notADirectory
    | none => some .notFound

/-- Why the first place on a route that cannot be entered cannot be. -/
def blocked (files : FileSystem) (location : Location) (components : List Component) :
    Option FileError :=
  (route location components).findSome? files.refusal

section Entering

variable {files : FileSystem} {location : Location}

theorem blocked_normal_cons_eq_none {name : String} {components : List Component} :
    files.blocked location (.normal name :: components) = none ↔
      files.refusal (location ++ [name]) = none ∧
        files.blocked (location ++ [name]) components = none := by
  rw [blocked, route_normal_cons, List.findSome?_cons]
  cases files.refusal (location ++ [name]) with
  | none => simp [blocked]
  | some failure => simp

theorem refusal_eq_none_iff :
    files.refusal location = none ↔
      isTooLong location = false ∧ files.at? location = some .directory := by
  unfold refusal
  split
  · rename_i long
    simp [long]
  · rename_i short
    cases files.at? location with
    | none => simp
    | some entry =>
        cases entry with
        | directory => simp [short]
        | file content => simp

theorem refusal_eq_notFound_iff :
    files.refusal location = some .notFound ↔
      isTooLong location = false ∧ files.at? location = none := by
  unfold refusal
  split
  · rename_i long
    simp [long]
  · rename_i short
    cases files.at? location with
    | none => simp [short]
    | some entry =>
        cases entry with
        | directory => simp
        | file content => simp

end Entering

theorem isTooLong_append (location : Location) (name : String) :
    isTooLong (location ++ [name]) = decide (maxNameBytes < name.utf8ByteSize) := by
  simp [isTooLong]

theorem blocked_append_normal (files : FileSystem) (location : Location) (front : List Component)
    (name : String) :
    files.blocked location (front ++ [.normal name]) =
      (files.blocked location front).or (files.refusal (goal location front ++ [name])) := by
  rw [blocked, route_append_normal, List.findSome?_append, goal_append_normal, blocked]
  simp

theorem enter_name {files : FileSystem} {location : Location} {name : String} (point : name ≠ ".")
    (double : name ≠ "..") :
    files.enter location name =
      match files.refusal (location ++ [name]) with
      | some failure => .error failure
      | none => .ok (location ++ [name]) := by
  unfold enter refusal isTooLong
  rw [if_neg point, if_neg double]
  by_cases long : maxNameBytes < name.utf8ByteSize
  · simp [long]
  · cases files.at? (location ++ [name]) with
    | none => simp [long]
    | some entry =>
        cases entry with
        | directory => simp [long]
        | file content => simp [long]

theorem walk_append (files : FileSystem) (location : Location) (slash : Bool) (front : List String)
    {rest : List String} (further : rest ≠ []) (filled : "" ∉ front) :
    files.walk location slash (front ++ rest) =
      match files.blocked location (front.filterMap Component.ofPiece?) with
      | some failure => .error failure
      | none => files.walk (goal location (front.filterMap Component.ofPiece?)) slash rest := by
  induction front generalizing location with
  | nil => rfl
  | cons name front ih =>
      have later (inner : Location) :=
        ih inner fun there => filled (List.mem_cons_of_mem name there)
      have first : name ≠ "" := fun empty => filled (empty ▸ List.mem_cons_self)
      obtain ⟨next, pieces, cut⟩ :=
        List.exists_cons_of_ne_nil (List.append_ne_nil_of_right_ne_nil front further)
      rw [List.cons_append, cut, walk_cons_cons, ← cut]
      by_cases point : name = "."
      · subst point
        exact later location
      · by_cases double : name = ".."
        · subst double
          exact later location.dropLast
        · have component : Component.ofPiece? name = some (.normal name) :=
            Component.ofPiece?_eq_normal_iff.mpr ⟨rfl, first, point, double⟩
          rw [enter_name point double, List.filterMap_cons_some component]
          unfold blocked
          rw [route_normal_cons, List.findSome?_cons]
          cases files.refusal (location ++ [name]) with
          | some failure => rfl
          | none => exact later (location ++ [name])

/-! ## Targets -/

/-- What is wrong with the text of a path. -/
def flaw (path : Path) : Option FileError :=
  if path.text.toList.contains '\x00' then some .zeroInPath
  else if maxPathBytes ≤ path.text.utf8ByteSize then some .nameTooLong
  else none

theorem flaw_eq_none_iff {path : Path} :
    flaw path = none ↔ '\x00' ∉ path.text.toList ∧ path.text.utf8ByteSize < maxPathBytes := by
  unfold flaw
  by_cases zero : '\x00' ∈ path.text.toList
  · simp [zero]
  · by_cases long : maxPathBytes ≤ path.text.utf8ByteSize
    · simp [zero, long, Nat.not_lt.mpr long]
    · simp [zero, long, Nat.lt_of_not_le long]

/-- The last name of a path, if it ends in one. -/
def lastName? (path : Path) : Option String :=
  path.names.getLast?.filter fun name => name ≠ "." ∧ name ≠ ".."

theorem names_of_lastName? {path : Path} {name : String} (last : lastName? path = some name) :
    ∃ front, path.names = front ++ [name] ∧
      path.components = path.lead ++ front.filterMap Component.ofPiece? ++ [.normal name] := by
  obtain ⟨ends, plain⟩ := Option.filter_eq_some_iff.mp last
  obtain ⟨point, double⟩ := of_decide_eq_true plain
  obtain ⟨front, names⟩ := List.getLast?_eq_some_iff.mp ends
  have first : name ≠ "" := by
    rintro rfl
    exact path.empty_not_mem_names (names ▸ List.mem_append_right front List.mem_cons_self)
  have component : Component.ofPiece? name = some (.normal name) :=
    Component.ofPiece?_eq_normal_iff.mpr ⟨rfl, first, point, double⟩
  refine ⟨front, names, ?_⟩
  rw [components_eq_names, names, List.filterMap_append, List.filterMap_cons_some component,
    List.filterMap_nil, List.append_assoc]

theorem normal_not_mem_lead (path : Path) (name : String) : .normal name ∉ path.lead := by
  unfold lead
  split
  · simp
  · split
    · simp
    · simp

theorem lastName?_eq_some {path : Path} {front : List Component} {name : String}
    (ends : path.Ends) (components : path.components = front ++ [.normal name]) :
    lastName? path = some name := by
  have member : Component.normal name ∈ path.components := by simp [components]
  rw [components_eq_names] at member
  rcases List.mem_append.mp member with there | there
  · exact absurd there (normal_not_mem_lead path name)
  · obtain ⟨piece, _, component⟩ := List.mem_filterMap.mp there
    obtain ⟨_, _, point, double⟩ := Component.ofPiece?_eq_normal_iff.mp component
    exact Option.filter_eq_some_iff.mpr
      ⟨ends name (by simp [components]), decide_eq_true ⟨point, double⟩⟩

theorem lastName?_eq_none {path : Path} {front : List Component} {component : Component}
    (components : path.components = front ++ [component])
    (point : ∀ name, component ≠ .normal name) : lastName? path = none := by
  cases last : lastName? path with
  | none => rfl
  | some name =>
      obtain ⟨before, _, split⟩ := names_of_lastName? last
      have same := (List.append_inj' (components.symm.trans split) rfl).2
      exact absurd (List.cons.inj same).1 (point name)

theorem blocked_lead_append (files : FileSystem) (path : Path) (components : List Component) :
    files.blocked files.workingDirectory (path.lead ++ components) =
      files.blocked (path.base files.workingDirectory) components := by
  rw [blocked, blocked, route_append, route_lead, goal_lead, List.nil_append]

theorem target_of_flaw {files : FileSystem} {path : Path} {failure : FileError}
    (flawed : flaw path = some failure) : files.target path = .error failure := by
  unfold flaw at flawed
  unfold target
  split at flawed
  · rename_i zero
    rw [if_pos zero, Option.some.inj flawed]
  · rename_i zero
    split at flawed
    · rename_i long
      have filled : path.text ≠ "" := by
        intro empty
        rw [empty] at long
        exact absurd long (by decide)
      rw [if_neg zero, if_neg filled, if_pos long, Option.some.inj flawed]
    · simp at flawed

theorem ne_notFound_of_flaw {path : Path} {failure : FileError}
    (flawed : flaw path = some failure) : failure ≠ .notFound := by
  rintro rfl
  unfold flaw at flawed
  split at flawed
  · cases flawed
  · split at flawed
    · cases flawed
    · cases flawed

theorem target_of_empty {files : FileSystem} {path : Path} (empty : path.text = "") :
    files.target path = .error .notFound := by
  simp [target, empty]

theorem target_eq_walk {files : FileSystem} {path : Path} (flawless : flaw path = none)
    (filled : path.text ≠ "") :
    files.target path =
      files.walk (path.base files.workingDirectory) (path.text.toList.getLast? = some '/')
        path.names := by
  unfold flaw at flawless
  unfold target
  split at flawless
  · simp at flawless
  · rename_i zero
    split at flawless
    · simp at flawless
    · rename_i long
      rw [if_neg zero, if_neg filled, if_neg long]
      rfl

/-- A path that ends in a name leads to a child of the place in front of it. -/
theorem target_of_lastName? (files : FileSystem) {path : Path} {front : List Component}
    {name : String} (flawless : flaw path = none) (filled : path.text ≠ "")
    (last : lastName? path = some name) (components : path.components = front ++ [.normal name]) :
    files.target path =
      match files.blocked files.workingDirectory front with
      | some failure => .error failure
      | none =>
          .ok (.child (goal files.workingDirectory front) name
            (path.text.toList.getLast? = some '/')) := by
  obtain ⟨before, names, split⟩ := names_of_lastName? last
  obtain rfl : front = path.lead ++ before.filterMap Component.ofPiece? :=
    (List.append_inj' (components.symm.trans split) rfl).1
  have start : "" ∉ before := fun there =>
    path.empty_not_mem_names (names ▸ List.mem_append_left [name] there)
  obtain ⟨_, plain⟩ := Option.filter_eq_some_iff.mp last
  obtain ⟨point, double⟩ := of_decide_eq_true plain
  rw [target_eq_walk flawless filled, names, walk_append _ _ _ _ (by simp) start,
    blocked_lead_append, goal_append, goal_lead]
  simp [walk, point, double]

/-- A path that does not end in a name leads to a directory. -/
theorem target_of_no_lastName? (files : FileSystem) {path : Path} (flawless : flaw path = none)
    (filled : path.text ≠ "") (last : lastName? path = none) :
    files.target path =
      match files.blocked files.workingDirectory path.components with
      | some failure => .error failure
      | none => .ok (.directory (goal files.workingDirectory path.components)) := by
  rw [target_eq_walk flawless filled, components_eq_names, blocked_lead_append, goal_append,
    goal_lead]
  rcases List.eq_nil_or_concat' path.names with empty | ⟨front, name, names⟩
  · rw [empty]
    rfl
  · have start : "" ∉ front := fun there =>
      path.empty_not_mem_names (names ▸ List.mem_append_left [name] there)
    have point : name = "." ∨ name = ".." := by
      by_contra plain
      rw [lastName?, names, List.getLast?_concat] at last
      simp [not_or.mp plain] at last
    rw [names, walk_append _ _ _ _ (by simp) start, List.filterMap_append]
    rcases point with rfl | rfl
    · simp [walk, Component.ofPiece?]
    · have double : [".."].filterMap Component.ofPiece? = [.parent] := rfl
      rw [double, goal_append, blocked, blocked, route_append_point _ _ (by simp)]
      simp [walk, goal, Component.follow]

end FileSystem
end DesignTokens
