import DesignTokens.Proofs.Categories
import DesignTokens.Proofs.Families

/-!
# Groups of common tokens

The label of a common token is the second piece of its name behind the namespace.  That is the
group of the token as long as its category is a single piece.  Of the default categories
`background` and `border` are, but `font-color` is two pieces, so all its tokens have the label
`color`, whatever their group is.
-/

namespace DesignTokens

/-- A declaration with another group than the one in front of it has its header between them. -/
theorem Section.header_between {filing : Declaration → Labels} {left right : Declaration}
    {first second : String} (here : filing left = ⟨none, some first⟩)
    (there : filing right = ⟨none, some second⟩) (differ : first ≠ second)
    (before after : List Declaration) :
    ∃ front back, parts filing (before ++ left :: right :: after) =
      front ++ .declaration left :: .group second :: .declaration right :: back := by
  have last : (lastLabels filing (before ++ [left])).group = some first :=
    lastLabels_append_run (List.forall_mem_singleton.mpr here) (List.cons_ne_nil _ _)
  have fresh : (lastLabels filing (before ++ [left])).group ≠ some second := by
    rw [last]
    simpa using differ
  have cut : parts filing (before ++ left :: right :: after) =
      parts filing before ++ (headersOf (lastLabels filing before) (filing left) ++
        .declaration left :: partsFrom filing (before ++ [left]) (right :: after)) := by
    rw [parts, partsFrom_append, List.nil_append, partsFrom, parts]
  rw [cut, partsFrom, there, headersOf_group, if_neg fresh, ← List.append_assoc]
  exact ⟨_, _, rfl⟩

namespace Theme

open Text

/-- Cutting a name finds the pieces of its category in front of its further keys. -/
theorem split_category {mark : Char} (category : String) {path : List String} (filled : path ≠ [])
    (separable : Separable (String.singleton mark) path) :
    split (String.singleton mark)
        ((String.singleton mark).intercalate ("" :: category :: path)) =
      "" :: (split (String.singleton mark) category ++ path) := by
  have separates : String.singleton mark ≠ "" := by simp
  have front : split (String.singleton mark) "" = [""] := by
    rw [split_eq separates]
    rfl
  rw [String.intercalate_cons_cons, split_char_append, front,
    String.intercalate_cons_of_ne_nil filled, split_char_append,
    split_intercalate separates filled separable]
  rfl

/-- The label of a common token is the second of the pieces of its category and its further keys. -/
theorem group_leafName_common {config : Config} {mark : Char}
    (single : config.separator = String.singleton mark) (category : String) {path : List String}
    (filled : path ≠ []) (separable : Separable config.separator path) :
    (Section.labels .common config (leafName .common config (category :: path))).group =
      (split config.separator category ++ path)[1]? := by
  have label : (Section.labels .common config (leafName .common config (category :: path))).group =
      (split config.separator (config.separator.intercalate ("" :: category :: path)))[2]? :=
    label?_leafName .common config (category :: path) 2
  rw [label, single, split_category category filled (single ▸ separable)]
  rfl

/-! ## Names of common tokens -/

theorem exists_path_of_mem_leaves {theme : Theme} {leaf : List String × TokenValue}
    (member : leaf ∈ theme.leaves .common) :
    ∃ category group path, leaf.1 = category :: group :: path ∧ category ∈ theme.common.keys := by
  obtain ⟨⟨category, groups⟩, outer, inside⟩ := List.mem_flatMap.mp member
  obtain ⟨⟨group, tree⟩, _, found⟩ := List.mem_flatMap.mp inside
  obtain ⟨⟨path, value⟩, _, rfl⟩ := List.mem_map.mp found
  exact ⟨category, group, path, rfl, List.mem_map_of_mem outer⟩

/-- Common leaves have different names, if no category opens another and the further keys are free
of the separator. -/
theorem leafName_common_injective {config : Config} (separates : config.separator ≠ "")
    (none : NoneOpens config) {theme : Theme}
    (known : ∀ category ∈ theme.common.keys, category ∈ config.categories)
    (separable : ∀ leaf ∈ theme.leaves .common, Separable config.separator leaf.1.tail) :
    ∀ leaf ∈ theme.leaves .common, ∀ other ∈ theme.leaves .common,
      leafName .common config leaf.1 = leafName .common config other.1 → leaf.1 = other.1 := by
  intro leaf here other there same
  have first := separable leaf here
  have second := separable other there
  obtain ⟨category, group, path, left, outer⟩ := exists_path_of_mem_leaves here
  obtain ⟨next, further, rest, right, inner⟩ := exists_path_of_mem_leaves there
  rw [left, right] at same ⊢
  rw [left, List.tail_cons] at first
  rw [right, List.tail_cons] at second
  obtain rfl : category = next := by
    rcases opens_or_opens same with opens | opens
    · exact none category (known category outer) next (known next inner) opens
    · exact (none next (known next inner) category (known category outer) opens).symm
  rw [leafName_category, leafName_category, String.append_right_inj, String.append_right_inj] at same
  rw [← split_intercalate separates (by simp) first, same,
    split_intercalate separates (by simp) second]

/-! ## Headers of groups -/

/-- The common tokens of a theme are grouped by their groups. -/
structure GroupedByGroup (config : Config) (theme : Theme) : Prop where
  /-- The label of a token is its group. -/
  label : ∀ leaf ∈ theme.leaves .common,
    (Section.labels .common config (leafName .common config leaf.1)).group = leaf.1[1]?
  /-- Between neighbours of different groups there is the header of the second one's group. -/
  header : ∀ before left right after, theme.leaves .common = before ++ left :: right :: after →
    left.1[1]? ≠ right.1[1]? → ∃ front group back, right.1[1]? = some group ∧
      Section.parts (Section.filing .common config) (theme.declarations .common config) =
        front ++ .declaration (declarationOf .common config left) :: .group group ::
          .declaration (declarationOf .common config right) :: back

/-- Labels that are groups have their headers where the groups change. -/
theorem groupedByGroup {config : Config} {theme : Theme}
    (entries : (theme.tokens .common config).entries = theme.namedLeaves .common config)
    (label : ∀ leaf ∈ theme.leaves .common,
      (Section.labels .common config (leafName .common config leaf.1)).group = leaf.1[1]?) :
    GroupedByGroup config theme := by
  refine ⟨label, fun before left right after whole differ => ?_⟩
  have filed : ∀ leaf ∈ theme.leaves .common,
      Section.filing .common config (declarationOf .common config leaf) = ⟨none, leaf.1[1]?⟩ := by
    intro leaf member
    rw [← label leaf member]
    rfl
  have here : left ∈ theme.leaves .common := by simp [whole]
  have there : right ∈ theme.leaves .common := by simp [whole]
  have first := filed left here
  have second := filed right there
  obtain ⟨_, group, _, leftPath, _⟩ := exists_path_of_mem_leaves here
  obtain ⟨_, other, _, rightPath, _⟩ := exists_path_of_mem_leaves there
  rw [leftPath] at first differ
  rw [rightPath] at second differ
  have apart : group ≠ other := by simpa using differ
  rw [declarations_of_entries entries, whole, List.map_append, List.map_cons, List.map_cons]
  obtain ⟨front, back, cut⟩ := Section.header_between first second apart
    (before.map (declarationOf .common config)) (after.map (declarationOf .common config))
  exact ⟨front, other, back, by rw [rightPath]; rfl, cut⟩

/-- The label of a default common token. -/
theorem group_leafName_default {category group : String}
    (known : category ∈ ({} : Config).categories) {path : List String}
    (separable : Separable "-" (group :: path)) :
    (Section.labels .common {} (leafName .common {} (category :: group :: path))).group =
      if category = "font-color" then some "color" else some group := by
  have single : ({} : Config).separator = String.singleton '-' := rfl
  have label := group_leafName_common single category (List.cons_ne_nil group path) separable
  have pieces : ∀ category ∈ ({} : Config).categories, split "-" category =
      if category = "font-color" then ["font", "color"] else [category] := by
    decide
  rw [label, pieces category known]
  split <;> rfl

/--
The label of a default common token is its group, but for `font-color`, where it is always `color`.
The tokens of a theme are therefore grouped by their groups, with a header in front of every new
one, if and only if its font colours are all in the group `color`.  The text of the section is that
of its headers and declarations.
-/
theorem groupedByGroup_iff {name : String} {json : Json} {theme : Theme}
    (read : ofJson {} name json = .ok theme)
    (plain : ∀ leaf ∈ theme.leaves .common, Separable "-" leaf.1.tail) :
    (∀ leaf ∈ theme.leaves .common,
      (Section.labels .common {} (leafName .common {} leaf.1)).group =
        if leaf.1.head? = some "font-color" then some "color" else leaf.1[1]?) ∧
      (theme.resolved .common {}).text = String.join ((Section.parts (Section.filing .common {})
        (theme.declarations .common {})).map Section.Part.text) ∧
      (GroupedByGroup {} theme ↔ ∀ leaf ∈ theme.leaves .common,
        leaf.1.head? = some "font-color" → leaf.1[1]? = some "color") := by
  have known := mem_categories_of_ofJson read
  have label : ∀ leaf ∈ theme.leaves .common,
      (Section.labels .common {} (leafName .common {} leaf.1)).group =
        if leaf.1.head? = some "font-color" then some "color" else leaf.1[1]? := by
    intro leaf member
    have separable := plain leaf member
    obtain ⟨category, group, path, spelled, outer⟩ := exists_path_of_mem_leaves member
    rw [spelled] at separable ⊢
    rw [group_leafName_default (known category outer) separable]
    simp
  refine ⟨label, text_eq_parts .common {} theme, fun grouped leaf member colour => ?_,
    fun colours => ?_⟩
  · rw [← grouped.label leaf member, label leaf member, if_pos colour]
  · have entries := entries_tokens_of_injective (distinct_ofJson read)
      (leafName_common_injective (by decide) (by decide) known plain)
    refine groupedByGroup entries fun leaf member => ?_
    rw [label leaf member]
    split
    case isTrue colour => exact (colours leaf member colour).symm
    case isFalse => rfl

/-- A theme with a page colour and with the font colours of titles and of running text. -/
def inked : Json :=
  .object
    [("background", .object [("page", .object [("color", .object [("value", .string "#fff")])])]),
      ("font-color", .object [("title", .object [("value", .string "#000")]),
        ("text", .object [("value", .string "#111")])])]

/-- The theme that is read. -/
def inkedTheme : Theme where
  name := "light"
  palette := .empty
  common := .ofList
    [("background", .ofList [("page", .group [("color", .leaf (.text "#fff"))])]),
      ("font-color", .ofList [("title", .leaf (.text "#000")), ("text", .leaf (.text "#111"))])]
  components := .empty
  font := FontMetrics.ofTheme inked

/-- Titles and text have one header, which names neither. -/
theorem not_grouped_inked :
    ofJson {} "light" inked = .ok inkedTheme ∧
      (∀ leaf ∈ inkedTheme.leaves .common, Separable "-" leaf.1.tail) ∧
      Section.parts (Section.filing .common {}) (inkedTheme.declarations .common {}) =
        [.group "page", .declaration ⟨"--dm-common-background-page-color", "#fff", false⟩,
          .group "color", .declaration ⟨"--dm-common-font-color-title", "#000", false⟩,
          .declaration ⟨"--dm-common-font-color-text", "#111", false⟩] ∧
      ¬ GroupedByGroup {} inkedTheme := by
  have plain : ∀ leaf ∈ inkedTheme.leaves .common, Separable "-" leaf.1.tail := by decide
  refine ⟨rfl, plain, by decide +kernel, fun grouped => ?_⟩
  have colours := (@groupedByGroup_iff "light" inked inkedTheme rfl plain).2.2.mp grouped
  have title : (["font-color", "title"], TokenValue.text "#000") ∈ inkedTheme.leaves .common := by
    decide
  exact absurd (colours _ title rfl) (by decide)

end Theme
end DesignTokens
