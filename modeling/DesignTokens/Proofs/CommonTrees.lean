import DesignTokens.Proofs.DistinctKeys
import DesignTokens.Proofs.LeafLookup
import DesignTokens.Proofs.Skeletons

/-!
# Common tokens as one tree

The configured categories of a theme make up one tree, which is taken in like every other tree.
Its leaves are the common leaves of the theme in the same order, so flattening it under the common
namespace gives the common tokens, whatever names collide on the way.  Only a category that has the
leaf field itself would be a leaf of the tree and is still a category of groups in the theme.
-/

namespace DesignTokens

namespace TokenTree

variable {leafField : String}

theorem keys_ofMembers_sublist (leafField marker : String) (members : List (String × Json)) :
    (Entries.keys (ofMembers leafField marker members)).Sublist (Entries.keys members) := by
  induction members with
  | nil => exact List.Sublist.refl _
  | cons member members ih =>
      rw [ofMembers]
      split
      · exact ih.cons_cons member.1
      · exact ih.cons member.1

/-- Scalars are dropped, but they have no leaves. -/
theorem leavesChildren_ofMembers (leafField marker : String) (members : List (String × Json)) :
    leavesChildren (ofMembers leafField marker members) = members.flatMap fun member =>
      (ofJson leafField marker member.2).leaves.map fun leaf => (member.1 :: leaf.1, leaf.2) := by
  induction members with
  | nil => rfl
  | cons member members ih =>
      rw [ofMembers, List.flatMap_cons, ← ih]
      split
      case isTrue => rfl
      case isFalse bare =>
        rw [ofJson_scalar marker (eq_false_of_ne_true bare)]
        rfl

/-- The leaves of an object without the leaf field are those of its members, one after the other. -/
theorem leaves_ofJson_object {members : List (String × Json)} (marker : String)
    (distinct : (Entries.keys members).Nodup) (absent : leafField ∉ Entries.keys members) :
    (ofJson leafField marker (.object members)).leaves = members.flatMap fun member =>
      (ofJson leafField marker member.2).leaves.map fun leaf => (member.1 :: leaf.1, leaf.2) := by
  have keys := (keys_ofMembers_sublist leafField marker members).nodup distinct
  rw [ofJson_group marker absent, ofChildren, leaves, Entries.dedup_of_nodup keys,
    leavesChildren_ofMembers]

end TokenTree

namespace Theme

/-- The configured categories of a theme that are objects, in configured order. -/
def categoryObjects (config : Config) (theme : Json) : List (String × List (String × Json)) :=
  config.categories.filterMap fun category =>
    match theme.get? category with
    | some (.object content) => some (category, content)
    | _ => none

/-- The tree of the configured categories that are objects; a repeated one keeps its first place. -/
def commonTree (config : Config) (theme : Json) : TokenTree :=
  .ofChildren ((categoryObjects config theme).map fun category =>
    (category.1, TokenTree.ofJson config.leafField config.marker (.object category.2)))

/-- The groups of the content of a category. -/
def groupsOf (config : Config) (content : List (String × Json)) : OrderedMap String TokenTree :=
  .ofList (content.map fun group =>
    (group.1, TokenTree.ofJson config.leafField config.marker group.2))

theorem mem_categoryObjects {config : Config} {theme : Json} {category : String}
    {content : List (String × Json)} :
    (category, content) ∈ categoryObjects config theme ↔
      category ∈ config.categories ∧ theme.get? category = some (.object content) := by
  rw [categoryObjects, List.mem_filterMap]
  constructor
  · rintro ⟨other, member, found⟩
    split at found
    case h_1 there =>
      obtain ⟨rfl, rfl⟩ := Prod.mk.inj (Option.some.inj found)
      exact ⟨member, there⟩
    case h_2 => simp at found
  · rintro ⟨member, found⟩
    exact ⟨category, member, by rw [found]⟩

/-- The categories that are read are those that are objects, with their groups. -/
theorem filterMap_groups? (config : Config) (theme : Json) :
    (config.categories.filterMap fun category =>
      (groups? config theme category).map fun groups => (category, groups)) =
      (categoryObjects config theme).map fun category =>
        (category.1, groupsOf config category.2) := by
  rw [categoryObjects, List.map_filterMap]
  refine List.filterMap_congr fun category _ => ?_
  cases found : theme.get? category with
  | none => simp [groups?, found]
  | some value => cases value <;> simp [groups?, groupsOf, found]

theorem entries_common {config : Config} {name : String} {members : List (String × Json)}
    {theme : Theme} (read : ofJson config name (.object members) = .ok theme) :
    theme.common.entries = (Entries.dedup (categoryObjects config (.object members))).map
      fun category => (category.1, groupsOf config category.2) := by
  rw [← Except.ok.inj read, ← Entries.dedup_map, ← filterMap_groups?]
  rfl

theorem leaves_commonTree (config : Config) (theme : Json) :
    (commonTree config theme).leaves =
      (Entries.dedup (categoryObjects config theme)).flatMap fun category =>
        (TokenTree.ofJson config.leafField config.marker (.object category.2)).leaves.map
          fun leaf => (category.1 :: leaf.1, leaf.2) := by
  rw [commonTree, TokenTree.ofChildren, TokenTree.leaves,
    Entries.dedup_map fun content => TokenTree.ofJson config.leafField config.marker
      (.object content), TokenTree.leavesChildren_eq, List.flatMap_map]

section Leaves

variable {config : Config} {content : List (String × Json)}

/-- The groups of a category have the leaves of its tree. -/
theorem leaves_groupsOf (distinct : (Entries.keys content).Nodup)
    (absent : config.leafField ∉ Entries.keys content) :
    ((groupsOf config content).entries.flatMap fun group =>
        group.2.leaves.map fun leaf => (group.1 :: leaf.1, leaf.2)) =
      (TokenTree.ofJson config.leafField config.marker (.object content)).leaves := by
  have keys : (Entries.keys (content.map fun group =>
      (group.1, TokenTree.ofJson config.leafField config.marker group.2))).Nodup := by
    simpa [Entries.keys, Function.comp_def] using distinct
  have entries : (groupsOf config content).entries = content.map fun group =>
      (group.1, TokenTree.ofJson config.leafField config.marker group.2) :=
    Entries.dedup_of_nodup keys
  rw [entries, List.flatMap_map, TokenTree.leaves_ofJson_object config.marker distinct absent]

/-- The common leaves of a theme are those of the tree of its categories. -/
theorem leaves_common_eq {name : String} {members : List (String × Json)} {theme : Theme}
    (read : ofJson config name (.object members) = .ok theme)
    (distinct : (Json.object members).Distinct)
    (absent : ∀ category ∈ config.categories, ∀ content,
      Entries.get? category members = some (.object content) →
        config.leafField ∉ Entries.keys content) :
    theme.leaves .common = (commonTree config (.object members)).leaves := by
  rw [leaves, entries_common read, List.flatMap_map, leaves_commonTree]
  refine List.flatMap_congr fun category member => ?_
  have listed := (Entries.mem_insertAll member).resolve_left List.not_mem_nil
  obtain ⟨known, found⟩ := mem_categoryObjects.mp listed
  rw [← leaves_groupsOf (Json.nodup_keys_of_get? distinct found) (absent _ known _ found)]
  simp [List.map_flatMap, Function.comp_def]

end Leaves

/--
Every theme object is read, and its common tokens are the tree of its categories flattened under
the common namespace, as long as no category has the leaf field itself.
-/
theorem commonTokens_eq_flatten {config : Config} {members : List (String × Json)}
    (distinct : (Json.object members).Distinct)
    (absent : ∀ category ∈ config.categories, ∀ content,
      Entries.get? category members = some (.object content) →
        config.leafField ∉ Entries.keys content) (name : String) :
    ∃ theme, ofJson config name (.object members) = .ok theme ∧
      theme.commonTokens config =
        (commonTree config (.object members)).flatten config.separator
          config.namespaces.common := by
  obtain ⟨theme, read⟩ : ∃ theme, ofJson config name (.object members) = .ok theme := ⟨_, rfl⟩
  refine ⟨theme, read, ?_⟩
  have tokens := theme.tokens_eq .common config
  rw [TokenTree.flatten_eq, TokenTree.namedLeaves, ← leaves_common_eq read distinct absent]
  exact tokens

/-- Names collide inside a group, between groups and between categories, one of them repeated. -/
theorem commonTokens_eq_flatten_colliding :
    let config : Config := { categories := ["border-a", "border", "border-a"] }
    let text := "\x7b\"border\":\x7b\"a-b\":[\x7b\"value\":1\x7d],\"width\":3," ++
      "\"a\":\x7b\"b-0\":\x7b\"value\":2\x7d,\"b\":[\x7b\"value\":4\x7d]\x7d\x7d," ++
      "\"border-a\":\x7b\"b\":[\x7b\"value\":5\x7d],\"c\":\x7b\"value\":6\x7d\x7d\x7d"
    let leaf := fun size => Json.object [("value", .number (.whole size))]
    let border := [("a-b", .array [leaf 1]), ("width", .number (.whole 3)),
      ("a", .object [("b-0", leaf 2), ("b", .array [leaf 4])])]
    let members := [("border", .object border),
      ("border-a", .object [("b", .array [leaf 5]), ("c", leaf 6)])]
    Json.read text = .ok (.object members) ∧ (Json.object members).Distinct ∧
      (∀ category ∈ config.categories, ∀ content,
        Entries.get? category members = some (.object content) →
          config.leafField ∉ Entries.keys content) ∧
      ∃ theme, ofJson config "light" (.object members) = .ok theme ∧
        theme.commonTokens config =
          (commonTree config (.object members)).flatten config.separator
            config.namespaces.common ∧
        (theme.commonTokens config).entries =
          [("--dm-common-border-a-b-0", .number (.whole 4)),
            ("--dm-common-border-a-c", .number (.whole 6))] := by
  intro config text leaf border members
  have read : Json.read text = .ok (.object members) := by decide +kernel
  have distinct := Json.distinct_read read
  have absent : ∀ category ∈ config.categories, ∀ content,
      Entries.get? category members = some (.object content) →
        config.leafField ∉ Entries.keys content := by
    simp [config, members, border, leaf, Entries.get?, Entries.keys]
  obtain ⟨theme, taken, same⟩ := commonTokens_eq_flatten distinct absent "light"
  refine ⟨read, distinct, absent, theme, taken, same, ?_⟩
  rw [same]
  decide +kernel

end Theme
end DesignTokens
