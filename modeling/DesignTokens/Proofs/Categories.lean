import DesignTokens.Proofs.Documents
import DesignTokens.Proofs.LastLeaves
import Mathlib.Data.List.Lattice

/-!
# Common categories

The names of a common category begin with the category and a separator.  Two categories therefore
share no name in any theme, unless one of them with a separator behind it is the beginning of the
other: then a group of the shorter one can be named like the rest of the longer one.  Categories
of which none opens another keep all their tokens when they are merged.  Where names do collide, the
leaf that comes last in declaration order has the value.
-/

namespace DesignTokens
namespace Theme

/-- The tokens of one common category by itself. -/
def categoryTokens (config : Config) (category : String × OrderedMap String TokenTree) :
    FlatTokens :=
  category.2.entries.foldl (fun tokens group =>
    tokens.merge (group.2.flatten config.separator (groupName config category.1 group.1))) .empty

theorem categoryTokens_eq (config : Config) (category : String × OrderedMap String TokenTree) :
    categoryTokens config category = .ofList (category.2.entries.flatMap fun group =>
      (group.2.leaves.map fun leaf => (category.1 :: group.1 :: leaf.1, leaf.2)).map fun leaf =>
        (leafName .common config leaf.1, leaf.2)) := by
  simp only [categoryTokens, TokenTree.flatten_eq, OrderedMap.merge_ofList, namedLeaves_group,
    foldl_insertAll]
  rfl

/-- The common tokens are those of the categories, merged in order. -/
theorem commonTokens_eq (config : Config) (theme : Theme) :
    theme.commonTokens config = theme.common.entries.foldl (fun tokens category =>
      tokens.merge (categoryTokens config category)) .empty := by
  simp only [commonTokens, categoryTokens_eq, TokenTree.flatten_eq, OrderedMap.merge_ofList,
    namedLeaves_group, foldl_insertAll]

theorem mem_keys_categoryTokens {config : Config} {category : String}
    {groups : OrderedMap String TokenTree} {name : String} :
    name ∈ (categoryTokens config (category, groups)).keys ↔
      ∃ group tree, (group, tree) ∈ groups.entries ∧
        ∃ leaf ∈ tree.leaves, name = leafName .common config (category :: group :: leaf.1) := by
  rw [categoryTokens_eq, OrderedMap.mem_keys_ofList]
  simp only [Entries.keys, List.map_flatMap, List.mem_flatMap, List.map_map, List.mem_map,
    Function.comp_apply, Prod.exists, eq_comm]

/-- The name of a common leaf has its category and a separator behind the namespace. -/
theorem leafName_category (config : Config) (category group : String) (path : List String) :
    leafName .common config (category :: group :: path) =
      config.namespaces.common ++ config.separator ++ (category ++ config.separator ++
        config.separator.intercalate (group :: path)) := by
  rw [leafName_eq, String.intercalate_cons_cons, String.intercalate_cons_cons]
  rfl

/-! ## Categories that open others -/

/-- A category with a separator behind it is the beginning of another with a separator behind. -/
def Opens (separator category other : String) : Prop :=
  (category ++ separator).toList <+: (other ++ separator).toList

instance (separator category other : String) : Decidable (Opens separator category other) :=
  inferInstanceAs (Decidable (_ <+: _))

theorem Opens.exists_rest {separator category other : String}
    (opens : Opens separator category other) :
    ∃ rest, other ++ separator = category ++ separator ++ rest := by
  obtain ⟨rest, spelled⟩ := opens
  refine ⟨String.ofList rest, String.toList_inj.mp ?_⟩
  rw [@String.toList_append (category ++ separator), String.toList_ofList, spelled]

/-- One of two categories opens the other, if they have a common name. -/
theorem opens_or_opens {config : Config} {left right : List String} {category other : String}
    {group next : String}
    (same : leafName .common config (category :: group :: left) =
      leafName .common config (other :: next :: right)) :
    Opens config.separator category other ∨ Opens config.separator other category := by
  rw [leafName_category, leafName_category, String.append_right_inj, ← String.toList_inj,
    @String.toList_append (category ++ config.separator),
    @String.toList_append (other ++ config.separator)] at same
  have front := List.prefix_append (category ++ config.separator).toList
    (config.separator.intercalate (group :: left)).toList
  rw [same] at front
  exact List.prefix_or_prefix_of_prefix front (List.prefix_append _ _)

/-- No category of a configuration opens another. -/
def NoneOpens (config : Config) : Prop :=
  ∀ category ∈ config.categories, ∀ other ∈ config.categories,
    Opens config.separator category other → category = other

instance (config : Config) : Decidable (NoneOpens config) :=
  inferInstanceAs (Decidable (∀ category ∈ config.categories, _))

/-- The common categories of a theme leave each other alone. -/
structure CategoriesApart (config : Config) (theme : Theme) : Prop where
  /-- No name is composed in two categories. -/
  names : ∀ left ∈ theme.common.entries, ∀ right ∈ theme.common.entries, left.1 ≠ right.1 →
    List.Disjoint (categoryTokens config left).keys (categoryTokens config right).keys
  /-- Every category keeps its tokens as they are by themselves, one category behind the other. -/
  tokens : (theme.commonTokens config).entries =
    theme.common.entries.flatMap fun category => (categoryTokens config category).entries

theorem categoriesApart {config : Config} {theme : Theme} (none : NoneOpens config)
    (known : ∀ category ∈ theme.common.keys, category ∈ config.categories) :
    CategoriesApart config theme := by
  have names : ∀ left ∈ theme.common.entries, ∀ right ∈ theme.common.entries, left.1 ≠ right.1 →
      List.Disjoint (categoryTokens config left).keys (categoryTokens config right).keys := by
    rintro ⟨category, groups⟩ here ⟨other, others⟩ there differ
    rw [List.disjoint_left]
    intro name left right
    obtain ⟨group, tree, _, leaf, _, rfl⟩ := mem_keys_categoryTokens.mp left
    obtain ⟨_, _, _, _, _, same⟩ := mem_keys_categoryTokens.mp right
    have first : category ∈ config.categories := known category (List.mem_map_of_mem here)
    have second : other ∈ config.categories := known other (List.mem_map_of_mem there)
    rcases opens_or_opens same with opens | opens
    · exact differ (none category first other second opens)
    · exact differ (none other second category first opens).symm
  refine ⟨names, ?_⟩
  have apart : theme.common.entries.Pairwise fun left right =>
      ∀ name ∈ (categoryTokens config left).keys, name ∉ (categoryTokens config right).keys := by
    refine (List.pairwise_map.mp theme.common.distinct).imp_of_mem fun here there differ => ?_
    exact List.disjoint_left.mp (names _ here _ there differ)
  have fresh : ∀ category ∈ theme.common.entries,
      ∀ name ∈ (OrderedMap.empty : FlatTokens).keys, name ∉ (categoryTokens config category).keys :=
    fun _ _ _ member => absurd member List.not_mem_nil
  rw [commonTokens_eq, OrderedMap.entries_foldl_merge fresh apart]
  rfl

/-! ## Themes that are read -/

theorem mem_categories_of_ofJson {config : Config} {name : String} {json : Json} {theme : Theme}
    (read : ofJson config name json = .ok theme) :
    ∀ category ∈ theme.common.keys, category ∈ config.categories := by
  intro category member
  obtain ⟨groups, there⟩ := OrderedMap.mem_keys.mp member
  exact ((mem_common_iff read).mp there).1

/-- A category whose only group is a leaf. -/
def oneGroup (config : Config) (group : String) : Json :=
  .object [(group, .object [(config.leafField, .null)])]

/-- The one group of such a category. -/
def oneGroupTree (group : String) : OrderedMap String TokenTree := .ofList [(group, .leaf .null)]

theorem groups?_oneGroup {config : Config} {json : Json} {category group : String}
    (found : json.get? category = some (oneGroup config group)) :
    groups? config json category = some (oneGroupTree group) := by
  simp [groups?, found, oneGroup, oneGroupTree, TokenTree.ofJson, Entries.get?, TokenValue.ofJson]

theorem mem_keys_oneGroup (config : Config) (category group : String) :
    leafName .common config [category, group] ∈
      (categoryTokens config (category, oneGroupTree group)).keys :=
  mem_keys_categoryTokens.mpr ⟨group, .leaf .null, List.mem_singleton_self _, ([], .null),
    List.mem_singleton_self _, rfl⟩

/-- Of the common leaves with one name, the last one in declaration order has the value. -/
theorem lastWins_commonTokens (config : Config) (theme : Theme) :
    OrderedMap.LastWins (theme.namedLeaves .common config) (theme.commonTokens config) :=
  OrderedMap.lastWins_iff.mpr (theme.tokens_eq .common config)

/--
The common categories of a configuration leave each other alone in every theme that is read, if and
only if none of them opens another.  In every theme a name that several common leaves compose to has
its first place and the value of the last of them.
-/
theorem categoriesApart_iff (config : Config) :
    ((∀ name json theme, ofJson config name json = .ok theme → CategoriesApart config theme) ↔
      NoneOpens config) ∧
    ∀ theme : Theme,
      OrderedMap.LastWins (theme.namedLeaves .common config) (theme.commonTokens config) := by
  refine ⟨⟨?_, ?_⟩, lastWins_commonTokens config⟩
  · intro apart category first other second opens
    refine Decidable.by_contra fun differ => ?_
    obtain ⟨rest, spelled⟩ := opens.exists_rest
    -- A group named like the rest of the other category, and one without a name in the other.
    let json : Json := .object [(category, oneGroup config rest), (other, oneGroup config "")]
    obtain ⟨theme, read⟩ : ∃ theme, ofJson config "light" json = .ok theme := ⟨_, rfl⟩
    have here : (category, oneGroupTree rest) ∈ theme.common.entries :=
      (mem_common_iff read).mpr ⟨first, groups?_oneGroup (by simp [json, Json.get?, Entries.get?])⟩
    have there : (other, oneGroupTree "") ∈ theme.common.entries :=
      (mem_common_iff read).mpr
        ⟨second, groups?_oneGroup (by simp [json, Json.get?, Entries.get?, differ])⟩
    have same : leafName .common config [category, rest] = leafName .common config [other, ""] := by
      simp [leafName_category, spelled]
    exact List.disjoint_left.mp ((apart _ _ _ read).names _ here _ there differ)
      (mem_keys_oneGroup config category rest) (same ▸ mem_keys_oneGroup config other "")
  · exact fun none _ _ _ read => categoriesApart none (mem_categories_of_ofJson read)

/-- The default categories leave each other alone in every theme. -/
theorem categoriesApart_default :
    NoneOpens {} ∧
      ∀ name json theme, ofJson {} name json = .ok theme → CategoriesApart {} theme := by
  have none : NoneOpens {} := by decide
  exact ⟨none, (categoriesApart_iff {}).1.mpr none⟩

/-- A theme with the colour of titles in two places. -/
def titled : Json :=
  .object
    [("font", .object [("color", .object [("title", .object [("value", .string "#000")])])]),
      ("font-color", .object [("title", .object [("value", .string "#fff")])])]

/-- Of two categories, one of which opens the other, the later one takes the name of a token. -/
theorem titled_collides :
    let config : Config := { categories := ["font", "font-color"] }
    let name := "--dm-common-font-color-title"
    config.categories.Nodup ∧ ∃ theme font color, ofJson config "light" titled = .ok theme ∧
      theme.common.entries = [("font", font), ("font-color", color)] ∧
      (categoryTokens config ("font", font)).entries = [(name, .text "#000")] ∧
      (categoryTokens config ("font-color", color)).entries = [(name, .text "#fff")] ∧
      (theme.commonTokens config).entries = [(name, .text "#fff")] := by
  intro config name
  exact ⟨by decide, _, _, _, rfl, rfl, by decide, by decide, by decide⟩

end Theme
end DesignTokens
