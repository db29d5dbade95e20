import DesignTokens.CompiledTheme
import DesignTokens.Proofs.OrderedMaps

/-!
# The names of leaves

A leaf is declared under its namespace followed by its keys, with a separator in front of each.
The tokens of every kind are the leaves of that kind inserted under their names in declaration
order, which is all that flattening and merging amount to.
-/

namespace DesignTokens

namespace TokenTree

/-- The name that a path of keys composes to below a name. -/
def pathName (separator name : String) (path : List String) : String :=
  path.foldl (childName separator) name

@[simp]
theorem pathName_nil (separator name : String) : pathName separator name [] = name := rfl

@[simp]
theorem pathName_cons (separator name key : String) (path : List String) :
    pathName separator name (key :: path) =
      pathName separator (childName separator name key) path := rfl

/-- Below a nonempty name the keys are joined behind it. -/
theorem pathName_eq_intercalate {separator name : String} (named : name ≠ "")
    (path : List String) :
    pathName separator name path = separator.intercalate (name :: path) := by
  induction path generalizing name with
  | nil => simp
  | cons key path ih =>
      have child : childName separator name key = name ++ separator ++ key := if_neg named
      have filled : name ++ separator ++ key ≠ "" := by simp [named]
      rw [pathName_cons, child, ih filled, String.intercalate_cons_append,
        String.intercalate_cons_cons]

/-- The leaves of a tree called `name`, each with its composed name. -/
def namedLeaves (separator name : String) (tree : TokenTree) : List (String × TokenValue) :=
  tree.leaves.map fun leaf => (pathName separator name leaf.1, leaf.2)

/-- The leaves of the subtrees of a group called `name`, each with its composed name. -/
def namedLeavesChildren (separator name : String) (children : List (String × TokenTree)) :
    List (String × TokenValue) :=
  (leavesChildren children).map fun leaf => (pathName separator name leaf.1, leaf.2)

theorem namedLeavesChildren_cons (separator name key : String) (child : TokenTree)
    (children : List (String × TokenTree)) :
    namedLeavesChildren separator name ((key, child) :: children) =
      namedLeaves separator (childName separator name key) child ++
        namedLeavesChildren separator name children := by
  simp [namedLeavesChildren, namedLeaves, leavesChildren, Function.comp_def]

mutual

theorem flattenInto_eq (separator name : String) (flat : FlatTokens) (tree : TokenTree) :
    flattenInto separator name flat tree = flat.insertAll (namedLeaves separator name tree) := by
  match tree with
  | .leaf value => rfl
  | .group children => exact flattenChildren_eq separator name flat children

theorem flattenChildren_eq (separator name : String) (flat : FlatTokens)
    (children : List (String × TokenTree)) :
    flattenChildren separator name flat children =
      flat.insertAll (namedLeavesChildren separator name children) := by
  match children with
  | [] => rfl
  | (key, child) :: children =>
      rw [flattenChildren, flattenInto_eq separator (childName separator name key) flat child,
        flattenChildren_eq separator name _ children, OrderedMap.insertAll_insertAll,
        namedLeavesChildren_cons]

end

/-- Flattening inserts the leaves under their names. -/
theorem flatten_eq (separator name : String) (tree : TokenTree) :
    tree.flatten separator name = .ofList (tree.namedLeaves separator name) :=
  flattenInto_eq separator name .empty tree

end TokenTree

/-- The namespace under which the tokens of a kind are declared. -/
def SectionKind.space (kind : SectionKind) (spaces : Namespaces) : String :=
  match kind with
  | .palette => spaces.paletteScale
  | .common => spaces.common
  | .component => spaces.component

theorem SectionKind.space_ne (kind : SectionKind) (config : Config) :
    kind.space config.namespaces ≠ "" := by
  cases kind <;> simp [space, Config.namespaces, Namespaces.ofRoot]

namespace Theme

/-- The tokens of a kind under their names. -/
def tokens (kind : SectionKind) (config : Config) (theme : Theme) : FlatTokens :=
  match kind with
  | .palette => theme.paletteTokens config
  | .common => theme.commonTokens config
  | .component => theme.componentTokens config

/--
The leaves of a kind with their paths, in declaration order.  The path of a common leaf starts
with its category and its group.
-/
def leaves (kind : SectionKind) (theme : Theme) : List (List String × TokenValue) :=
  match kind with
  | .palette => theme.palette.leaves
  | .common =>
      theme.common.entries.flatMap fun category =>
        category.2.entries.flatMap fun group =>
          group.2.leaves.map fun leaf => (category.1 :: group.1 :: leaf.1, leaf.2)
  | .component => theme.components.leaves

/-- The name under which the leaf of a kind at a path is declared. -/
def leafName (kind : SectionKind) (config : Config) (path : List String) : String :=
  TokenTree.pathName config.separator (kind.space config.namespaces) path

theorem leafName_eq (kind : SectionKind) (config : Config) (path : List String) :
    leafName kind config path =
      config.separator.intercalate (kind.space config.namespaces :: path) :=
  TokenTree.pathName_eq_intercalate (kind.space_ne config) path

/-- The leaves of a kind with their names. -/
def namedLeaves (kind : SectionKind) (config : Config) (theme : Theme) :
    List (String × TokenValue) :=
  (theme.leaves kind).map fun leaf => (leafName kind config leaf.1, leaf.2)

/-- The name of a common group is that of the path of its category and itself. -/
theorem groupName_eq (config : Config) (category group : String) :
    groupName config category group = leafName .common config [category, group] := by
  rw [leafName_eq]
  simp [groupName, SectionKind.space, String.append_assoc]

theorem namedLeaves_group (config : Config) (category group : String) (tree : TokenTree) :
    tree.namedLeaves config.separator (groupName config category group) =
      (tree.leaves.map fun leaf => (category :: group :: leaf.1, leaf.2)).map
        fun leaf => (leafName .common config leaf.1, leaf.2) := by
  rw [groupName_eq]
  simp [TokenTree.namedLeaves, leafName, Function.comp_def]

theorem foldl_insertAll {α : Type} (items : List α) (additions : α → List (String × TokenValue))
    (flat : FlatTokens) :
    items.foldl (fun flat item => flat.insertAll (additions item)) flat =
      flat.insertAll (items.flatMap additions) := by
  induction items generalizing flat with
  | nil => rfl
  | cons item items ih =>
      rw [List.foldl_cons, ih, OrderedMap.insertAll_insertAll, List.flatMap_cons]

/-- The tokens of a kind are its leaves under their names, later leaves winning. -/
theorem tokens_eq (kind : SectionKind) (config : Config) (theme : Theme) :
    theme.tokens kind config = .ofList (theme.namedLeaves kind config) := by
  cases kind with
  | palette => exact TokenTree.flatten_eq _ _ _
  | component => exact TokenTree.flatten_eq _ _ _
  | common =>
      simp only [tokens, commonTokens, TokenTree.flatten_eq, OrderedMap.merge_ofList,
        namedLeaves_group, foldl_insertAll]
      simp only [namedLeaves, leaves, List.map_flatMap]
      rfl

theorem mem_keys_tokens {kind : SectionKind} {config : Config} {theme : Theme} {name : String} :
    name ∈ (theme.tokens kind config).keys ↔
      ∃ leaf ∈ theme.leaves kind, name = leafName kind config leaf.1 := by
  rw [tokens_eq, OrderedMap.mem_keys_ofList]
  simp [Entries.keys, namedLeaves, eq_comm]

/-- The value of a token is that of a leaf. -/
theorem leaf_of_mem_tokens {kind : SectionKind} {config : Config} {theme : Theme} {name : String}
    {value : TokenValue} (token : (name, value) ∈ (theme.tokens kind config).entries) :
    ∃ path, (path, value) ∈ theme.leaves kind ∧ name = leafName kind config path := by
  rw [tokens_eq] at token
  obtain ⟨⟨path, other⟩, leaf, same⟩ := List.mem_map.mp (OrderedMap.mem_of_mem_ofList token)
  cases same
  exact ⟨path, leaf, rfl⟩

theorem exists_leafName_eq (kind : SectionKind) (config : Config) (path : List String) :
    ∃ rest, leafName kind config path = kind.space config.namespaces ++ rest := by
  rw [leafName_eq]
  cases path with
  | nil => exact ⟨"", by simp⟩
  | cons key path =>
      exact ⟨config.separator ++ config.separator.intercalate (key :: path), by
        rw [String.intercalate_cons_cons, String.append_assoc]⟩

/-- Every name of a kind starts with its namespace. -/
theorem space_of_mem_keys {kind : SectionKind} {config : Config} {theme : Theme} {name : String}
    (member : name ∈ (theme.tokens kind config).keys) :
    ∃ rest, name = kind.space config.namespaces ++ rest := by
  obtain ⟨⟨path, value⟩, _, rfl⟩ := mem_keys_tokens.mp member
  exact exists_leafName_eq kind config path

end Theme
end DesignTokens
