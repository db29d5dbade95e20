import DesignTokens.Proofs.SectionParts

/-!
# Nested headers

A reader takes the header of a component as the end of the group before it.  A section goes by
labels instead, and leaves out the header of a group that is still the last one.  So the headers
of component tokens nest exactly if no component starts with the group that stands last before it.
-/

namespace DesignTokens
namespace Section

/-- The headers that a reader takes to be in force behind a part. -/
def Part.pass (above : Labels) : Part → Labels
  | .component label => ⟨some label, none⟩
  | .group label => ⟨above.component, some label⟩
  | .declaration _ => above

/-- The headers that a reader takes to be in force behind parts. -/
def above (parts : List Part) : Labels := parts.foldl Part.pass .start

/-- A group is the last one, so that it gets no header. -/
def Labels.ResumedBy (last : Labels) (group : Option String) : Prop :=
  group ≠ none ∧ group = last.group

section Filing

variable (filing : Declaration → Labels)

/-- The headers of groups are nested below those of components. -/
structure Nested (parts : List Part) : Prop where
  /-- Directly behind a component header come the group header of its declaration, if that has a
  group, and the declaration. -/
  directly : ∀ front label rest, parts = front ++ .component label :: rest →
    ∃ declaration back, (filing declaration).component = some label ∧
      rest = (filing declaration).group.toList.map .group ++ .declaration declaration :: back
  /-- A declaration with a group stands under its own component and its own group. -/
  under : ∀ front declaration back, parts = front ++ .declaration declaration :: back →
    (filing declaration).group ≠ none → above front = filing declaration

/-- A declaration gets a component header. -/
def Starts (before : List Declaration) (declaration : Declaration) : Prop :=
  (filing declaration).component ≠ none ∧
    (filing declaration).component ≠ (lastLabels filing before).component

/-- The first group among declarations. -/
def firstGroup? (declarations : List Declaration) : Option String :=
  (declarations.filterMap fun declaration => (filing declaration).group).head?

/-- The first group among declarations is the last one before them. -/
def Resumes (before declarations : List Declaration) : Prop :=
  (lastLabels filing before).ResumedBy (firstGroup? filing declarations)

/-- No component among declarations starts with the group that stands last before it. -/
def NoneResumes (before declarations : List Declaration) : Prop :=
  ∀ front declaration back, declarations = front ++ declaration :: back →
    Starts filing (before ++ front) declaration →
      ¬ Resumes filing (before ++ front) (declaration :: back)

variable {filing} {before declarations : List Declaration} {declaration : Declaration}

theorem noneResumes_cons :
    NoneResumes filing before (declaration :: declarations) ↔
      (Starts filing before declaration → ¬ Resumes filing before (declaration :: declarations)) ∧
        NoneResumes filing (before ++ [declaration]) declarations := by
  constructor
  · intro none
    refine ⟨fun starts => ?_, fun front other back split starts => ?_⟩
    · simpa using none [] declaration declarations rfl (by simpa using starts)
    · have later := none (declaration :: front) other back (by rw [split]; rfl)
      rw [List.append_assoc] at starts ⊢
      exact later starts
  · rintro ⟨here, later⟩ front other back split starts
    cases front with
    | nil =>
        obtain ⟨rfl, rfl⟩ := List.cons.inj split
        rw [List.append_nil] at starts ⊢
        exact here starts
    | cons first front =>
        obtain ⟨rfl, rfl⟩ := List.cons.inj split
        have inside := later front other back rfl
        rw [List.append_assoc] at inside
        exact inside starts

/-! ## What a reader sees -/

theorem foldl_component (start : Labels) (last label : Option String) :
    (headerParts .component last label).foldl Part.pass start =
      if label ≠ none ∧ label ≠ last then ⟨label, none⟩ else start := by
  unfold headerParts
  cases label with
  | none => simp
  | some label => by_cases same : some label = last <;> simp [same, Part.pass]

theorem foldl_group (start : Labels) (last label : Option String) :
    (headerParts .group last label).foldl Part.pass start =
      if label ≠ none ∧ label ≠ last then ⟨start.component, label⟩ else start := by
  unfold headerParts
  cases label with
  | none => simp
  | some label => by_cases same : some label = last <;> simp [same, Part.pass]

/-- What a reader sees, in terms of the last labels: the same, but perhaps without the group. -/
structure Reads (last seen : Labels) : Prop where
  /-- The component is the last one. -/
  component : seen.component = last.component
  /-- The group, if there is one, is the last one. -/
  group : seen.group = none ∨ seen.group = last.group

/-- What a reader sees behind the headers of a declaration. -/
def seenAfter (last seen labels : Labels) : Labels := (headersOf last labels).foldl Part.pass seen

section Step

variable {last seen labels : Labels}

theorem seenAfter_component (reads : Reads last seen) (labels : Labels) :
    (seenAfter last seen labels).component = (last.after labels).component := by
  have same := reads.component
  rw [seenAfter, headersOf, List.foldl_append, foldl_component, foldl_group, Labels.after]
  cases labels.component <;> grind

theorem seenAfter_group (last seen labels : Labels) :
    (seenAfter last seen labels).group =
      if labels.group ≠ none ∧ labels.group ≠ last.group then labels.group
      else if labels.component ≠ none ∧ labels.component ≠ last.component then none
      else seen.group := by
  rw [seenAfter, headersOf, List.foldl_append, foldl_component, foldl_group]
  grind

theorem Reads.after (reads : Reads last seen) (labels : Labels) :
    Reads (last.after labels) (seenAfter last seen labels) := by
  refine ⟨seenAfter_component reads labels, ?_⟩
  have group := reads.group
  rw [seenAfter_group, Labels.after]
  cases labels.group <;> grind

/--
A declaration is seen under its own headers, and the next group behind it does not resume an unseen
one, exactly if the group that comes next, that of the declaration if it has one, does not: the
header of a group that resumes the last one is left out.
-/
theorem seenAfter_iff (reads : Reads last seen) (layered : labels.component = none → labels.group = none)
    (next : Option String) :
    (labels.group ≠ none → seenAfter last seen labels = labels) ∧
        ((seenAfter last seen labels).group = none → ¬ (last.after labels).ResumedBy next) ↔
      (seen.group = none ∨ labels.component ≠ none ∧ labels.component ≠ last.component →
        ¬ last.ResumedBy (labels.group.or next)) := by
  have seenGroup := reads.group
  have component := seenAfter_component reads labels
  have group := seenAfter_group last seen labels
  generalize seenAfter last seen labels = after at component group ⊢
  obtain ⟨afterComponent, afterGroup⟩ := after
  obtain ⟨own, ownGroup⟩ := labels
  simp only [Labels.after, Labels.ResumedBy] at *
  cases ownGroup with
  | none => grind
  | some label =>
      obtain ⟨above, rfl⟩ : ∃ above, own = some above :=
        Option.ne_none_iff_exists'.mp fun absent =>
          absurd (layered absent) (Option.some_ne_none label)
      simp only [Option.some_or] at component ⊢
      grind

end Step

/-! ## Nesting -/

theorem firstGroup?_cons :
    firstGroup? filing (declaration :: declarations) =
      (filing declaration).group.or (firstGroup? filing declarations) := by
  rw [firstGroup?, firstGroup?, List.filterMap_cons]
  cases (filing declaration).group with
  | none => rw [Option.none_or]
  | some label => rfl

/-- The declarations among parts stand under what is seen behind the ones in front of them. -/
def StandsUnder (filing : Declaration → Labels) (seen : Labels) (parts : List Part) : Prop :=
  ∀ front declaration back, parts = front ++ .declaration declaration :: back →
    (filing declaration).group ≠ none → front.foldl Part.pass seen = filing declaration

variable {seen : Labels} {rest : List Part}

theorem standsUnder_declaration :
    StandsUnder filing seen (.declaration declaration :: rest) ↔
      ((filing declaration).group ≠ none → seen = filing declaration) ∧
        StandsUnder filing seen rest := by
  constructor
  · intro stands
    refine ⟨stands [] declaration rest rfl, fun front other back split => ?_⟩
    exact stands (.declaration declaration :: front) other back (by rw [split]; rfl)
  · rintro ⟨here, later⟩ front other back split
    cases front with
    | nil =>
        obtain ⟨same, rfl⟩ := List.cons.inj split
        obtain rfl := Part.declaration.inj same
        exact here
    | cons first front =>
        obtain ⟨rfl, rfl⟩ := List.cons.inj split
        exact later front other back rfl

theorem standsUnder_header {part : Part} (header : ∀ declaration, part ≠ .declaration declaration) :
    StandsUnder filing seen (part :: rest) ↔ StandsUnder filing (part.pass seen) rest := by
  constructor
  · intro stands front other back split
    exact stands (part :: front) other back (by rw [split]; rfl)
  · intro stands front other back split
    cases front with
    | nil => exact absurd (List.cons.inj split).1 (header other)
    | cons first front =>
        obtain ⟨rfl, rfl⟩ := List.cons.inj split
        exact stands front other back rfl

theorem declaration_not_mem_headersOf {last labels : Labels} :
    Part.declaration declaration ∉ headersOf last labels := by
  unfold headersOf headerParts
  grind

theorem standsUnder_headersOf {last labels : Labels} :
    StandsUnder filing seen (headersOf last labels ++ rest) ↔
      StandsUnder filing (seenAfter last seen labels) rest := by
  have plain : ∀ part ∈ headersOf last labels, ∀ declaration, part ≠ .declaration declaration :=
    fun part member declaration same => declaration_not_mem_headersOf (same ▸ member)
  unfold seenAfter
  generalize headersOf last labels = headers at plain ⊢
  induction headers generalizing seen with
  | nil => rfl
  | cons part headers ih =>
      obtain ⟨header, others⟩ := List.forall_mem_cons.mp plain
      rw [List.cons_append, standsUnder_header header, List.foldl_cons]
      exact ih others

/--
Declarations stand under their own headers exactly if no component among them resumes a group and
the first group is not an unseen one.
-/
theorem standsUnder_partsFrom_iff
    (layered : ∀ declaration, (filing declaration).component = none →
      (filing declaration).group = none)
    (reads : Reads (lastLabels filing before) seen) :
    StandsUnder filing seen (partsFrom filing before declarations) ↔
      (seen.group = none → ¬ Resumes filing before declarations) ∧
        NoneResumes filing before declarations := by
  induction declarations generalizing before seen with
  | nil =>
      refine iff_of_true (fun front other back split => ?_) ⟨fun _ resumes => resumes.1 rfl, ?_⟩
      · exact absurd split (by simp [partsFrom])
      · exact fun front other back split => absurd split (by simp)
  | cons declaration declarations ih =>
      have after := reads.after (filing declaration)
      rw [← lastLabels_concat] at after
      rw [partsFrom, standsUnder_headersOf, standsUnder_declaration, ih after, noneResumes_cons,
        ← and_assoc, ← and_assoc]
      refine and_congr_left' ?_
      have right := seenAfter_iff reads (layered declaration) (firstGroup? filing declarations)
      rw [← lastLabels_concat, ← firstGroup?_cons, or_imp] at right
      exact right

theorem component_not_mem_group {last group : Option String} {label : String} :
    Part.component label ∉ headerParts .group last group := by
  unfold headerParts
  grind

/-- A component among the header of a component is alone and that of the declaration. -/
theorem of_component_eq {last component : Option String} {front : List Part} {label : String}
    (split : headerParts .component last component = front ++ .component label :: rest) :
    component = some label ∧ component ≠ last ∧ rest = [] := by
  unfold headerParts at split
  cases component with
  | none => simp at split
  | some text =>
      by_cases same : some text = last
      · simp [same] at split
      · rw [if_neg same] at split
        cases front with
        | nil => simpa [same, eq_comm] using split
        | cons first front => simp at split

/-- Behind a component among the headers of a declaration there is only that of its group. -/
theorem of_headersOf_eq {last labels : Labels} {front : List Part} {label : String}
    (split : headersOf last labels = front ++ .component label :: rest) :
    labels.component = some label ∧ labels.component ≠ last.component ∧
      rest = headerParts .group last.group labels.group := by
  rw [headersOf, List.append_eq_append_iff] at split
  rcases split with ⟨between, _, groups⟩ | ⟨between, components, tail⟩
  · have member : Part.component label ∈ headerParts .group last.group labels.group :=
      groups ▸ List.mem_append_right between List.mem_cons_self
    exact absurd member component_not_mem_group
  · cases between with
    | nil =>
        rw [List.nil_append] at tail
        exact absurd (tail ▸ List.mem_cons_self) component_not_mem_group
    | cons first between =>
        obtain ⟨rfl, behind⟩ := List.cons.inj tail
        obtain ⟨component, differ, rfl⟩ := of_component_eq components
        exact ⟨component, differ, behind⟩

theorem headerParts_of_fresh {make : String → Part} {last label : Option String}
    (fresh : label ≠ none → label ≠ last) :
    headerParts make last label = label.toList.map make := by
  unfold headerParts
  grind

theorem fresh_of_not_resumes (none : ¬ Resumes filing before (declaration :: declarations))
    (grouped : (filing declaration).group ≠ .none) :
    (filing declaration).group ≠ (lastLabels filing before).group := by
  have first : firstGroup? filing (declaration :: declarations) = (filing declaration).group := by
    obtain ⟨label, group⟩ := Option.ne_none_iff_exists'.mp grouped
    rw [firstGroup?_cons, group, Option.some_or]
  exact fun same => none ⟨first ▸ grouped, first.trans same⟩

/-- Behind a component header comes the header of a group that does not resume the last one. -/
theorem directly_partsFrom (none : NoneResumes filing before declarations) {front : List Part}
    {label : String}
    (split : partsFrom filing before declarations = front ++ .component label :: rest) :
    ∃ declaration back, (filing declaration).component = some label ∧
      rest = (filing declaration).group.toList.map .group ++ .declaration declaration :: back := by
  induction declarations generalizing before front with
  | nil => exact absurd split (by simp [partsFrom])
  | cons declaration declarations ih =>
      obtain ⟨here, later⟩ := noneResumes_cons.mp none
      rw [partsFrom, List.append_eq_append_iff] at split
      rcases split with ⟨between, _, inside⟩ | ⟨between, headers, outside⟩
      · cases between with
        | nil => exact absurd inside (by simp)
        | cons first between => exact ih later (List.cons.inj inside).2
      · cases between with
        | nil => exact absurd outside (by simp)
        | cons first between =>
            rw [List.cons_append, List.cons.injEq] at outside
            obtain ⟨rfl, tail⟩ := outside
            obtain ⟨component, differ, group⟩ := of_headersOf_eq headers
            have starts : Starts filing before declaration :=
              ⟨component ▸ Option.some_ne_none label, differ⟩
            have fresh := fresh_of_not_resumes (here starts)
            rw [tail, group, headerParts_of_fresh fresh]
            exact ⟨declaration, _, component, rfl⟩

/-- The headers of declarations nest exactly if no component among them resumes a group. -/
theorem nested_parts_iff
    (layered : ∀ declaration, (filing declaration).component = none →
      (filing declaration).group = none) :
    Nested filing (parts filing declarations) ↔ NoneResumes filing [] declarations := by
  have start : Reads (lastLabels filing []) .start := ⟨rfl, .inl rfl⟩
  have stands : StandsUnder filing .start (partsFrom filing [] declarations) ↔ _ :=
    standsUnder_partsFrom_iff layered start
  constructor
  · intro nested
    exact (stands.mp nested.under).2
  · intro none
    refine ⟨fun front label rest split => directly_partsFrom none split, ?_⟩
    exact stands.mpr ⟨fun _ resumes => resumes.1 resumes.2, none⟩

end Filing

theorem group_eq_none_of_component {config : Config} {declaration : Declaration}
    (absent : (filing .component config declaration).component = none) :
    (filing .component config declaration).group = none := by
  simp only [filing, labels, label?, if_true, List.getElem?_eq_none_iff] at absent ⊢
  omega

end Section

namespace Theme

open Section

/--
The component tokens of a theme are declared under headers that nest if and only if no component
among them starts with the group that stands last before it.
-/
theorem component_headers_nest_iff (config : Config) (theme : Theme) :
    let filing := filing .component config
    let declarations := theme.declarations .component config
    (theme.resolved .component config).text =
        String.join ((parts filing declarations).map Part.text) ∧
      (Nested filing (parts filing declarations) ↔ NoneResumes filing [] declarations) :=
  ⟨text_eq_parts .component config theme, nested_parts_iff fun _ => group_eq_none_of_component⟩

/-- A button and an input, both with a background. -/
def twoBackgrounds : Theme where
  name := "light"
  palette := .empty
  common := .empty
  components := .group
    [("button", .group [("bg", .leaf (.text "#fff"))]),
      ("input", .group [("bg", .leaf (.text "#eee"))])]
  font := FontMetric.fallback

/-- The background of the input has no header of its own behind that of the input. -/
theorem not_nested_twoBackgrounds :
    let background := Declaration.mk "--dm-component-button-bg" "#fff" false
    let other := Declaration.mk "--dm-component-input-bg" "#eee" false
    twoBackgrounds.declarations .component {} = [background, other] ∧
      parts (filing .component {}) [background, other] =
        [.component "button", .group "bg", .declaration background,
          .component "input", .declaration other] ∧
      ¬ Nested (filing .component {}) (parts (filing .component {}) [background, other]) := by
  intro background other
  have declarations : twoBackgrounds.declarations .component {} = [background, other] := by
    decide
  refine ⟨declarations, by decide +kernel, fun nested => ?_⟩
  rw [← declarations] at nested
  have none := (component_headers_nest_iff {} twoBackgrounds).2.mp nested
  have starts : Starts (filing .component {}) [background] other :=
    ⟨by decide +kernel, by decide +kernel⟩
  exact none [background] other [] declarations starts ⟨by decide +kernel, by decide +kernel⟩

end Theme
end DesignTokens
