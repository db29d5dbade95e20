import DesignTokens.Proofs.Lint
import Mathlib.Data.List.SplitBy

/-!
# The parts of a section

A section is a row of headers and declarations.  Which headers stand in front of a declaration
depends on nothing but the labels of the declarations up to it: a label gets a header if it is not
the last one of its level.  Declarations that all have a group, and no component, therefore have
one header for every run of one group.
-/

namespace DesignTokens
namespace Section

/-- What a section is a row of. -/
inductive Part where
  /-- The header of a component. -/
  | component (label : String)
  /-- The header of a group of properties or tokens. -/
  | group (label : String)
  /-- A declaration. -/
  | declaration (declaration : Declaration)
  deriving DecidableEq, Repr

/-- The text of a part. -/
def Part.text : Part → String
  | .component label => header label
  | .group label => header label
  | .declaration entry => entry.line

/-- The header for a label, unless it is the last one of its level. -/
def headerParts (make : String → Part) (last label : Option String) : List Part :=
  if label = last then [] else label.toList.map make

/-- The headers in front of a declaration with labels, behind the last labels. -/
def headersOf (last labels : Labels) : List Part :=
  headerParts .component last.component labels.component ++
    headerParts .group last.group labels.group

section Filing

variable (filing : Declaration → Labels)

/-- At either level, the last label among declarations. -/
def lastLabels (before : List Declaration) : Labels where
  component := (before.filterMap fun declaration => (filing declaration).component).getLast?
  group := (before.filterMap fun declaration => (filing declaration).group).getLast?

/-- Declarations in order behind others, with their headers. -/
def partsFrom (before : List Declaration) : List Declaration → List Part
  | [] => []
  | declaration :: declarations =>
      headersOf (lastLabels filing before) (filing declaration) ++
        .declaration declaration :: partsFrom (before ++ [declaration]) declarations

/-- Declarations in order, with their headers. -/
def parts (declarations : List Declaration) : List Part := partsFrom filing [] declarations

theorem partsFrom_append (before front back : List Declaration) :
    partsFrom filing before (front ++ back) =
      partsFrom filing before front ++ partsFrom filing (before ++ front) back := by
  induction front generalizing before with
  | nil => rw [List.nil_append, List.append_nil, partsFrom, List.nil_append]
  | cons declaration front ih =>
      rw [List.cons_append, partsFrom, partsFrom, ih, List.append_assoc, List.append_assoc]
      rfl

theorem lastLabels_concat (before : List Declaration) (declaration : Declaration) :
    lastLabels filing (before ++ [declaration]) =
      (lastLabels filing before).after (filing declaration) := by
  simp only [lastLabels, Labels.after, List.filterMap_append, List.getLast?_append]
  congr 2
  · cases component : (filing declaration).component with
    | none => simp [component]
    | some label => simp [component]
  · cases group : (filing declaration).group with
    | none => simp [group]
    | some label => simp [group]

end Filing

/-- The labels that the declarations of a kind are filed under. -/
def filing (kind : SectionKind) (config : Config) (declaration : Declaration) : Labels :=
  labels kind config declaration.name

theorem join_headerParts {make : String → Part} (text : ∀ label, (make label).text = header label)
    (last label : Option String) :
    String.join ((headerParts make last label).map Part.text) = headerAfter last label := by
  unfold headerParts
  cases label with
  | none => simp [headerAfter]
  | some label =>
      by_cases same : some label = last
      · simp [headerAfter, same.symm]
      · simp [headerAfter, same, Ne.symm same, text]

theorem join_partsFrom (kind : SectionKind) (config : Config)
    (before declarations : List Declaration) :
    String.join ((partsFrom (filing kind config) before declarations).map Part.text) =
      String.join (entryTexts kind config (lastLabels (filing kind config) before)
        declarations) := by
  induction declarations generalizing before with
  | nil => rfl
  | cons declaration declarations ih =>
      rw [partsFrom, List.map_append, String.join_append, List.map_cons, String.join_cons, ih,
        lastLabels_concat, headersOf, List.map_append, String.join_append,
        join_headerParts fun _ => rfl, join_headerParts fun _ => rfl, ← String.append_assoc,
        entryTexts, String.join_cons]
      rfl

/-! ## Runs -/

section Runs

variable {filing : Declaration → Labels} {before run : List Declaration} {label : String}

theorem headersOf_group (last : Labels) (label : String) :
    headersOf last ⟨none, some label⟩ = if last.group = some label then [] else [.group label] := by
  unfold headersOf headerParts
  by_cases same : last.group = some label <;> simp [same, eq_comm]

theorem lastLabels_append_run (grouped : ∀ declaration ∈ run, filing declaration = ⟨none, some label⟩)
    (filled : run ≠ []) : (lastLabels filing (before ++ run)).group = some label := by
  rcases List.eq_nil_or_concat' run with empty | ⟨front, last, rfl⟩
  · exact absurd empty filled
  · rw [← List.append_assoc, lastLabels_concat, grouped last (by simp)]
    rfl

/-- Declarations with the last group get no header. -/
theorem partsFrom_resumed (grouped : ∀ declaration ∈ run, filing declaration = ⟨none, some label⟩)
    (last : (lastLabels filing before).group = some label) :
    partsFrom filing before run = run.map .declaration := by
  induction run generalizing before with
  | nil => rfl
  | cons declaration run ih =>
      obtain ⟨here, later⟩ := List.forall_mem_cons.mp grouped
      have again : (lastLabels filing (before ++ [declaration])).group = some label := by
        rw [lastLabels_concat, here]
        rfl
      rw [partsFrom, here, headersOf_group, if_pos last, ih later again]
      rfl

/-- Declarations with one group that is not the last one get one header. -/
theorem partsFrom_run (grouped : ∀ declaration ∈ run, filing declaration = ⟨none, some label⟩)
    (filled : run ≠ []) (fresh : (lastLabels filing before).group ≠ some label) :
    partsFrom filing before run = .group label :: run.map .declaration := by
  cases run with
  | nil => exact absurd rfl filled
  | cons declaration run =>
      obtain ⟨here, later⟩ := List.forall_mem_cons.mp grouped
      have last : (lastLabels filing (before ++ [declaration])).group = some label := by
        rw [lastLabels_concat, here]
        rfl
      rw [partsFrom, here, headersOf_group, if_neg fresh, partsFrom_resumed later last]
      rfl

variable {α : Type} {declare : α → Declaration} {family : α → Option String}

/-- The declarations of items, under the header of the family of the first one. -/
def runParts (declare : α → Declaration) (family : α → Option String) (items : List α) :
    List Part :=
  (items.head?.bind family).toList.map .group ++ items.map fun item => .declaration (declare item)

/-- What a run of items has to be: filed under their family, of which there is one. -/
structure IsRun (filing : Declaration → Labels) (declare : α → Declaration)
    (family : α → Option String) (items : List α) (label : String) : Prop where
  /-- There is an item. -/
  filled : items ≠ []
  /-- All items have the family. -/
  family : ∀ item ∈ items, family item = some label
  /-- All items are filed under the family and no component. -/
  filed : ∀ item ∈ items, filing (declare item) = ⟨none, some label⟩

/-- Items of which each has the family of the one before are a run. -/
theorem exists_isRun {items : List α} (filled : items ≠ [])
    (grouped : ∀ item ∈ items, filing (declare item) = ⟨none, family item⟩ ∧ family item ≠ none)
    (alike : items.IsChain fun left right => family left == family right) :
    ∃ label, IsRun filing declare family items label := by
  induction items with
  | nil => exact absurd rfl filled
  | cons first items ih =>
      obtain ⟨⟨here, some⟩, later⟩ := List.forall_mem_cons.mp grouped
      obtain ⟨label, own⟩ := Option.ne_none_iff_exists'.mp some
      rw [own] at here
      cases items with
      | nil => exact ⟨label, filled, by simpa using own, by simpa using here⟩
      | cons second items =>
          obtain ⟨same, alike⟩ := List.isChain_cons_cons.mp alike
          obtain ⟨other, run⟩ := ih (List.cons_ne_nil _ _) later alike
          have next := run.family second List.mem_cons_self
          obtain rfl : label = other := by simpa [own, next] using same
          exact ⟨label, filled, List.forall_mem_cons.mpr ⟨own, run.family⟩,
            List.forall_mem_cons.mpr ⟨here, run.filed⟩⟩

/-- A run behind another family has one header. -/
theorem IsRun.partsFrom_eq {items : List α} (run : IsRun filing declare family items label)
    (fresh : (lastLabels filing before).group ≠ some label) :
    partsFrom filing before (items.map declare) = runParts declare family items := by
  have grouped : ∀ declaration ∈ items.map declare, filing declaration = ⟨none, some label⟩ :=
    List.forall_mem_map.mpr run.filed
  rw [partsFrom_run grouped (by simpa using run.filled) fresh]
  cases items with
  | nil => exact absurd rfl run.filled
  | cons first items =>
      have own := run.family first List.mem_cons_self
      simp [runParts, own]

/-- Every run of items with one family has one header, and there are no others. -/
theorem partsFrom_runs {runs : List (List α)}
    (each : ∀ items ∈ runs, ∃ label, IsRun filing declare family items label)
    (apart : runs.IsChain fun left right =>
      ∃ some other, (family (left.getLast some) == family (right.head other)) = false)
    (fresh : ∀ items ∈ runs.head?, ∀ item ∈ items.head?,
      (lastLabels filing before).group ≠ family item) :
    partsFrom filing before (runs.flatten.map declare) = runs.flatMap (runParts declare family) := by
  induction runs generalizing before with
  | nil => rfl
  | cons items runs ih =>
      obtain ⟨⟨label, run⟩, each⟩ := List.forall_mem_cons.mp each
      obtain ⟨next, apart⟩ := List.isChain_cons.mp apart
      have first : (lastLabels filing before).group ≠ some label := by
        obtain ⟨item, rest, rfl⟩ := List.exists_cons_of_ne_nil run.filled
        rw [← run.family item List.mem_cons_self]
        exact fresh _ rfl item rfl
      have last : (lastLabels filing (before ++ items.map declare)).group = some label :=
        lastLabels_append_run (List.forall_mem_map.mpr run.filed) (by simpa using run.filled)
      rw [List.flatten_cons, List.map_append, partsFrom_append, run.partsFrom_eq first,
        List.flatMap_cons, ih each apart ?_]
      intro other member item head
      obtain ⟨some, filled, differ⟩ := next other member
      rw [run.family _ (List.getLast_mem some)] at differ
      have same : other.head filled = item := List.head_of_mem_head? head
      rw [last, ← same]
      simpa using differ

/-- Declarations of items with families are grouped by the runs of one family. -/
theorem parts_eq_runs {items : List α}
    (grouped : ∀ item ∈ items, filing (declare item) = ⟨none, family item⟩ ∧ family item ≠ none) :
    parts filing (items.map declare) =
      (items.splitBy fun left right => family left == family right).flatMap
        (runParts declare family) := by
  have whole := List.flatten_splitBy (fun left right => family left == family right) items
  have apart := List.isChain_getLast_head_splitBy
    (fun left right => family left == family right) items
  have each : ∀ run ∈ items.splitBy fun left right => family left == family right,
      ∃ label, IsRun filing declare family run label := by
    intro run member
    refine exists_isRun (List.ne_nil_of_mem_splitBy member) (fun item inside => ?_)
      (List.isChain_of_mem_splitBy member)
    exact grouped item (whole ▸ List.mem_flatten_of_mem member inside)
  rw [parts]
  conv_lhs => rw [← whole]
  refine partsFrom_runs each apart fun run head item first => ?_
  obtain ⟨label, isRun⟩ := each run (List.mem_of_mem_head? head)
  rw [isRun.family item (List.mem_of_mem_head? first)]
  exact (Option.some_ne_none label).symm

end Runs

end Section

namespace Theme

/-- The declarations of a kind. -/
def declarations (kind : SectionKind) (config : Config) (theme : Theme) : List Declaration :=
  (theme.tokens kind config).entries.map (Declaration.ofToken kind config)

/-- The text of a section is that of its parts. -/
theorem text_eq_parts (kind : SectionKind) (config : Config) (theme : Theme) :
    (theme.resolved kind config).text =
      String.join ((Section.parts (Section.filing kind config)
        (theme.declarations kind config)).map Section.Part.text) :=
  (Section.join_partsFrom kind config [] _).symm

end Theme
end DesignTokens
