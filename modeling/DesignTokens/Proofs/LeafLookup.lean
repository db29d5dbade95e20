import DesignTokens.Proofs.Documents
import DesignTokens.Proofs.ReferenceNames
import Mathlib.Data.List.Nodup

/-!
# The lint looks leaves up

As long as no key on the way to a leaf has a character of the separator, the path of a leaf is read
back from its name, so a target is declared exactly if there is a leaf at the path of the reference.
The lint, which only sees names, then decides whether a reference points at a leaf.
-/

namespace DesignTokens

namespace TokenTree

theorem mem_leavesChildren {path : List String} {value : TokenValue}
    {children : List (String × TokenTree)} :
    (path, value) ∈ leavesChildren children ↔
      ∃ key rest child, path = key :: rest ∧ (key, child) ∈ children ∧
        (rest, value) ∈ leaves child := by
  induction children with
  | nil => simp [leavesChildren]
  | cons entry children ih =>
      obtain ⟨head, tree⟩ := entry
      rw [leavesChildren, List.mem_append, ih, List.mem_map]
      constructor
      · rintro (⟨⟨rest, _⟩, leaf, same⟩ | ⟨key, rest, child, same, member, leaf⟩)
        · cases same
          exact ⟨head, rest, tree, rfl, List.mem_cons_self, leaf⟩
        · exact ⟨key, rest, child, same, List.mem_cons_of_mem _ member, leaf⟩
      · rintro ⟨key, rest, child, rfl, member, leaf⟩
        rcases List.mem_cons.mp member with here | later
        · cases here
          exact Or.inl ⟨(rest, value), leaf, rfl⟩
        · exact Or.inr ⟨key, rest, child, rfl, later, leaf⟩

theorem distinctChildren_iff {children : List (String × TokenTree)} :
    DistinctChildren children ↔ ∀ entry ∈ children, Distinct entry.2 := by
  induction children with
  | nil => simp [DistinctChildren]
  | cons entry children ih => simp [DistinctChildren, ih]

/-- Looking up a path finds the leaf there, since no key stands twice in a group. -/
theorem leafAt?_eq_some_iff {tree : TokenTree} (distinct : tree.Distinct) {path : List String}
    {value : TokenValue} : tree.leafAt? path = some value ↔ (path, value) ∈ tree.leaves := by
  induction path generalizing tree with
  | nil =>
      cases tree with
      | leaf other => simp [leafAt?, leaves, eq_comm]
      | group children => simp [leafAt?, leaves, mem_leavesChildren]
  | cons key path ih =>
      cases tree with
      | leaf other => simp [leafAt?, get?, leaves]
      | group children =>
          rw [Distinct] at distinct
          obtain ⟨keys, inner⟩ := distinct
          have inside : ∀ child, (key, child) ∈ children →
              (leafAt? path child = some value ↔ (path, value) ∈ child.leaves) :=
            fun child member => ih (distinctChildren_iff.mp inner _ member)
          rw [leafAt?, get?, Option.bind_eq_some_iff, leaves, mem_leavesChildren]
          constructor
          · rintro ⟨child, found, leaf⟩
            have member := (Entries.get?_eq_some_iff keys).mp found
            exact ⟨key, path, child, rfl, member, (inside child member).mp leaf⟩
          · rintro ⟨_, _, child, same, member, leaf⟩
            cases same
            exact ⟨child, (Entries.get?_eq_some_iff keys).mpr member,
              (inside child member).mpr leaf⟩

theorem leavesChildren_eq (children : List (String × TokenTree)) :
    leavesChildren children =
      children.flatMap fun entry => entry.2.leaves.map fun leaf => (entry.1 :: leaf.1, leaf.2) := by
  induction children with
  | nil => rfl
  | cons entry children ih => rw [leavesChildren, ih, List.flatMap_cons]

/-- Paths that start with different keys are different, and so are those with one key in front. -/
theorem nodup_paths_flatMap {α : Type} {entries : List (String × α)}
    (leavesOf : α → List (List String × TokenValue)) (keys : (Entries.keys entries).Nodup)
    (each : ∀ entry ∈ entries, ((leavesOf entry.2).map Prod.fst).Nodup) :
    ((entries.flatMap fun entry => (leavesOf entry.2).map fun leaf =>
      (entry.1 :: leaf.1, leaf.2)).map Prod.fst).Nodup := by
  induction entries with
  | nil => exact List.nodup_nil
  | cons entry entries ih =>
      obtain ⟨fresh, keys⟩ := List.nodup_cons.mp keys
      obtain ⟨here, each⟩ := List.forall_mem_cons.mp each
      rw [List.flatMap_cons, List.map_append, List.map_map, List.nodup_append]
      refine ⟨?_, ih keys each, ?_⟩
      · have injective : Function.Injective (List.cons entry.1) := List.cons_injective
        have own := here.map injective
        rwa [List.map_map] at own
      · rintro path left other right rfl
        obtain ⟨leaf, _, rfl⟩ := List.mem_map.mp left
        obtain ⟨_, inside, same⟩ := List.mem_map.mp right
        obtain ⟨next, member, later⟩ := List.mem_flatMap.mp inside
        obtain ⟨_, _, rfl⟩ := List.mem_map.mp later
        exact fresh ((List.cons.inj same).1 ▸ List.mem_map_of_mem member)

mutual

/-- No path leads to two leaves. -/
theorem nodup_paths_leaves (tree : TokenTree) (distinct : tree.Distinct) :
    (tree.leaves.map Prod.fst).Nodup := by
  match tree with
  | .leaf value => simp [leaves]
  | .group children =>
      obtain ⟨keys, inner⟩ := distinct
      rw [leaves, leavesChildren_eq]
      exact nodup_paths_flatMap leaves keys (nodup_paths_children children inner)

theorem nodup_paths_children (children : List (String × TokenTree))
    (distinct : DistinctChildren children) :
    ∀ entry ∈ children, (entry.2.leaves.map Prod.fst).Nodup := by
  match children with
  | [] => simp
  | (key, child) :: children =>
      obtain ⟨here, later⟩ := distinct
      exact List.forall_mem_cons.mpr
        ⟨nodup_paths_leaves child here, nodup_paths_children children later⟩

end

theorem distinct_ofChildren {children : List (String × TokenTree)}
    (inner : ∀ entry ∈ children, Distinct entry.2) : (ofChildren children).Distinct := by
  rw [ofChildren, Distinct, distinctChildren_iff]
  refine ⟨Entries.nodup_keys_insertAll List.nodup_nil, fun entry member => inner entry ?_⟩
  exact (Entries.mem_insertAll member).resolve_left List.not_mem_nil

mutual

theorem distinct_ofJson (leafField marker : String) (json : Json) :
    (ofJson leafField marker json).Distinct := by
  match json with
  | .object members =>
      rw [ofJson]
      split
      · trivial
      · exact distinct_ofChildren (distinct_ofMembers leafField marker members)
  | .array items =>
      rw [ofJson]
      exact distinct_ofChildren (distinct_ofItems leafField marker 0 items)
  | .null | .bool _ | .number _ | .string _ => exact ⟨List.nodup_nil, trivial⟩

theorem distinct_ofMembers (leafField marker : String) (members : List (String × Json)) :
    ∀ entry ∈ ofMembers leafField marker members, Distinct entry.2 := by
  match members with
  | [] => simp [ofMembers]
  | (key, value) :: members =>
      rw [ofMembers]
      split
      · exact List.forall_mem_cons.mpr ⟨distinct_ofJson leafField marker value,
          distinct_ofMembers leafField marker members⟩
      · exact distinct_ofMembers leafField marker members

theorem distinct_ofItems (leafField marker : String) (position : Nat) (items : List Json) :
    ∀ entry ∈ ofItems leafField marker position items, Distinct entry.2 := by
  match items with
  | [] => simp [ofItems]
  | item :: items =>
      rw [ofItems]
      split
      · exact List.forall_mem_cons.mpr ⟨distinct_ofJson leafField marker item,
          distinct_ofItems leafField marker (position + 1) items⟩
      · exact distinct_ofItems leafField marker (position + 1) items

end

end TokenTree

namespace Theme

/-- No group in a theme repeats a key. -/
structure Distinct (theme : Theme) : Prop where
  /-- None in the palette. -/
  palette : theme.palette.Distinct
  /-- None in a group of a common category. -/
  common : ∀ category ∈ theme.common.entries, ∀ group ∈ category.2.entries, group.2.Distinct
  /-- None in the components. -/
  components : theme.components.Distinct

/-- A theme that is read repeats no key. -/
theorem distinct_ofJson {config : Config} {name : String} {json : Json} {theme : Theme}
    (read : ofJson config name json = .ok theme) : theme.Distinct := by
  have part_distinct : ∀ json key, (part config json key).Distinct := by
    intro json key
    rw [part]
    split
    · exact TokenTree.distinct_ofJson _ _ _
    · exact ⟨List.nodup_nil, trivial⟩
  obtain ⟨palette, components⟩ := parts_of_ofJson read
  refine ⟨palette ▸ part_distinct _ _, ?_, components ▸ part_distinct _ _⟩
  intro category member group inside
  obtain ⟨_, found⟩ := (mem_common_iff read).mp member
  obtain ⟨_, _, entry, _, rfl⟩ := exists_member_of_groups? found inside
  exact TokenTree.distinct_ofJson _ _ _

/-- The value of the common leaf at a path, which leads through a category and a group. -/
def commonLeafAt? (theme : Theme) : List String → Option TokenValue
  | category :: group :: path =>
      ((theme.common.get? category).bind fun groups => groups.get? group).bind
        (TokenTree.leafAt? path)
  | _ => none

/-- The value of the leaf of a kind at a path. -/
def leafAt? (kind : SectionKind) (theme : Theme) (path : List String) : Option TokenValue :=
  match kind with
  | .palette => theme.palette.leafAt? path
  | .common => theme.commonLeafAt? path
  | .component => theme.components.leafAt? path

theorem commonLeafAt?_eq_some_iff {theme : Theme} (distinct : theme.Distinct)
    {path : List String} {value : TokenValue} :
    theme.commonLeafAt? path = some value ↔ (path, value) ∈ theme.leaves .common := by
  have inner : ∀ {category groups group tree}, (category, groups) ∈ theme.common.entries →
      (group, tree) ∈ groups.entries → ∀ path, TokenTree.leafAt? path tree = some value ↔
        (path, value) ∈ tree.leaves :=
    fun outer member _ => TokenTree.leafAt?_eq_some_iff (distinct.common _ outer _ member)
  simp only [leaves, List.mem_flatMap, List.mem_map, Prod.exists, Prod.mk.injEq]
  constructor
  · intro found
    rcases path with _ | ⟨category, _ | ⟨group, path⟩⟩
    · simp [commonLeafAt?] at found
    · simp [commonLeafAt?] at found
    · obtain ⟨tree, looked, leaf⟩ := Option.bind_eq_some_iff.mp found
      obtain ⟨groups, outer, member⟩ := Option.bind_eq_some_iff.mp looked
      rw [OrderedMap.get?_eq_some_iff] at outer member
      exact ⟨category, groups, outer, group, tree, member, path, value,
        (inner outer member path).mp leaf, rfl, rfl⟩
  · rintro ⟨category, groups, outer, group, tree, member, path, _, leaf, rfl, rfl⟩
    rw [commonLeafAt?, OrderedMap.get?_eq_some_iff.mpr outer, Option.bind_some,
      OrderedMap.get?_eq_some_iff.mpr member, Option.bind_some]
    exact (inner outer member path).mpr leaf

theorem leafAt?_eq_some_iff {theme : Theme} (distinct : theme.Distinct) {kind : SectionKind}
    {path : List String} {value : TokenValue} :
    theme.leafAt? kind path = some value ↔ (path, value) ∈ theme.leaves kind := by
  cases kind with
  | palette => exact TokenTree.leafAt?_eq_some_iff distinct.palette
  | common => exact commonLeafAt?_eq_some_iff distinct
  | component => exact TokenTree.leafAt?_eq_some_iff distinct.components

theorem leafAt?_eq_none_iff {theme : Theme} (distinct : theme.Distinct) {kind : SectionKind}
    {path : List String} :
    theme.leafAt? kind path = none ↔ ∀ value, (path, value) ∉ theme.leaves kind := by
  simp only [Option.eq_none_iff_forall_ne_some, Ne, leafAt?_eq_some_iff distinct]

/-- No path leads to two leaves of a kind. -/
theorem nodup_paths_leaves {theme : Theme} (distinct : theme.Distinct) (kind : SectionKind) :
    ((theme.leaves kind).map Prod.fst).Nodup := by
  cases kind with
  | palette => exact theme.palette.nodup_paths_leaves distinct.palette
  | component => exact theme.components.nodup_paths_leaves distinct.components
  | common =>
      have groups : theme.leaves .common = theme.common.entries.flatMap fun category =>
          (category.2.entries.flatMap fun group =>
            group.2.leaves.map fun leaf => (group.1 :: leaf.1, leaf.2)).map
              fun leaf => (category.1 :: leaf.1, leaf.2) := by
        simp [leaves, List.map_flatMap, Function.comp_def]
      rw [groups]
      refine TokenTree.nodup_paths_flatMap (fun groups : OrderedMap String TokenTree =>
        groups.entries.flatMap fun group => group.2.leaves.map fun leaf =>
          (group.1 :: leaf.1, leaf.2)) theme.common.distinct fun category member => ?_
      exact TokenTree.nodup_paths_flatMap TokenTree.leaves category.2.distinct fun group inside =>
        group.2.nodup_paths_leaves (distinct.common category member group inside)

/-! ## Names tell paths -/

/-- No key of a path has a character of the separator. -/
def Separable (separator : String) (path : List String) : Prop :=
  ∀ key ∈ path, Text.Avoids separator.toList key.toList

instance (separator text : List Char) : Decidable (Text.Avoids separator text) :=
  List.decidableBAll (· ∉ separator) text

instance (separator : String) (path : List String) : Decidable (Separable separator path) :=
  List.decidableBAll (fun key : String => Text.Avoids separator.toList key.toList) path

end Theme

namespace TokenTree

/--
The path that a composed name spells below a name: none behind the name itself, and else the pieces
behind one separator.
-/
def keyPath? (separator name composed : String) : Option (List String) :=
  if composed = name then some []
  else (Text.after? (name ++ separator).toList composed.toList).map fun rest =>
    Text.split separator (String.ofList rest)

/-- The path of a composed name is read back. -/
theorem keyPath?_pathName {separator name : String} (separates : separator ≠ "") (named : name ≠ "")
    {path : List String} (separable : Theme.Separable separator path) :
    keyPath? separator name (pathName separator name path) = some path := by
  cases path with
  | nil => rw [pathName_nil, keyPath?, if_pos rfl]
  | cons key path =>
      have spelled : pathName separator name (key :: path) =
          name ++ separator ++ separator.intercalate (key :: path) := by
        rw [pathName_eq_intercalate named, String.intercalate_cons_cons]
      have longer : pathName separator name (key :: path) ≠ name := by
        rw [spelled, String.append_assoc]
        intro same
        have blank : separator ++ separator.intercalate (key :: path) = "" := by simpa using same
        exact separates (String.append_eq_empty_iff.mp blank).1
      rw [keyPath?, if_neg longer, spelled, @String.toList_append (name ++ separator),
        Text.after?_append, Option.map_some, String.ofList_toList,
        Text.split_intercalate separates (by simp) separable]

theorem pathName_injective {separator name : String} (separates : separator ≠ "")
    (named : name ≠ "") {left right : List String} (first : Theme.Separable separator left)
    (second : Theme.Separable separator right)
    (same : pathName separator name left = pathName separator name right) : left = right := by
  have found := keyPath?_pathName separates named first
  rw [same, keyPath?_pathName separates named second] at found
  exact (Option.some.inj found).symm

end TokenTree

/-- Keys that are renamed to different ones stay different. -/
theorem Entries.nodup_keys_rename {κ ι α : Type} {rename : κ → ι} {entries : List (κ × α)}
    (distinct : (keys entries).Nodup)
    (injective : ∀ entry ∈ entries, ∀ other ∈ entries,
      rename entry.1 = rename other.1 → entry.1 = other.1) :
    (keys (entries.map fun entry => (rename entry.1, entry.2))).Nodup := by
  have renamed : keys (entries.map fun entry => (rename entry.1, entry.2)) =
      (keys entries).map rename := by
    simp [keys, Function.comp_def]
  rw [renamed]
  refine distinct.map_on fun left first right second same => ?_
  obtain ⟨entry, here, rfl⟩ := List.mem_map.mp first
  obtain ⟨other, there, rfl⟩ := List.mem_map.mp second
  exact injective entry here other there same

namespace Theme

theorem leafName_injective {kind : SectionKind} {config : Config}
    (separates : config.separator ≠ "") {left right : List String}
    (first : Separable config.separator left) (second : Separable config.separator right)
    (same : leafName kind config left = leafName kind config right) : left = right :=
  TokenTree.pathName_injective separates (kind.space_ne config) first second same

/-- The tokens of a kind are its leaves in order, as long as no two leaves share a name. -/
theorem entries_tokens_of_injective {kind : SectionKind} {config : Config} {theme : Theme}
    (distinct : theme.Distinct)
    (injective : ∀ leaf ∈ theme.leaves kind, ∀ other ∈ theme.leaves kind,
      leafName kind config leaf.1 = leafName kind config other.1 → leaf.1 = other.1) :
    (theme.tokens kind config).entries = theme.namedLeaves kind config := by
  rw [tokens_eq]
  exact Entries.dedup_of_nodup
    (Entries.nodup_keys_rename (nodup_paths_leaves distinct kind) injective)

/-- So they are if the names tell the paths. -/
theorem entries_tokens {kind : SectionKind} {config : Config} {theme : Theme}
    (separates : config.separator ≠ "") (distinct : theme.Distinct)
    (separable : ∀ leaf ∈ theme.leaves kind, Separable config.separator leaf.1) :
    (theme.tokens kind config).entries = theme.namedLeaves kind config :=
  entries_tokens_of_injective distinct fun leaf here other there =>
    leafName_injective separates (separable leaf here) (separable other there)

/-- A path composes to a name of its kind exactly if there is a leaf. -/
theorem leafName_mem_keys_iff {kind : SectionKind} {config : Config} {theme : Theme}
    (separates : config.separator ≠ "")
    (separable : ∀ leaf ∈ theme.leaves kind, Separable config.separator leaf.1)
    {path : List String} (plain : Separable config.separator path) :
    leafName kind config path ∈ (theme.tokens kind config).keys ↔
      ∃ value, (path, value) ∈ theme.leaves kind := by
  rw [mem_keys_tokens]
  constructor
  · rintro ⟨⟨other, value⟩, leaf, same⟩
    obtain rfl : path = other := leafName_injective separates plain (separable _ leaf) same
    exact ⟨value, leaf⟩
  · rintro ⟨value, leaf⟩
    exact ⟨_, leaf, rfl⟩

theorem leafName_not_mem_keys {kind other : SectionKind} (differ : kind ≠ other) (config : Config)
    (theme : Theme) (path : List String) :
    leafName kind config path ∉ (theme.tokens other config).keys := by
  intro member
  obtain ⟨right, there⟩ := space_of_mem_keys member
  obtain ⟨left, here⟩ := exists_leafName_eq kind config path
  exact SectionKind.space_append_ne differ config left right (here.symm.trans there)

/--
A token with a reference is reported exactly if there is no leaf at the path of the reference, in
the palette for palette tokens and for paths that start with `palette`, and among the common
tokens otherwise.
-/
theorem reported_iff_no_leaf {config : Config} (separates : config.separator ≠ "")
    {theme : Theme} (distinct : theme.Distinct)
    (separable : ∀ shared ∈ [SectionKind.palette, SectionKind.common],
      ∀ leaf ∈ theme.leaves shared, Separable config.separator leaf.1)
    {kind : SectionKind} {name : String} {path : List String} (nonempty : path ≠ [])
    (plain : Separable config.separator path)
    (token : (name, TokenValue.reference ⟨path⟩) ∈ (theme.tokens kind config).entries) :
    name ∈ (theme.compile config).danglingReferences.map DanglingReference.name ↔
      theme.leafAt? (if kind = .palette ∨ path.head? = some "palette" then .palette else .common)
        path = none := by
  have points : (⟨path⟩ : Reference).targetKind kind =
      if kind = .palette ∨ path.head? = some "palette" then .palette else .common := by
    cases kind <;> simp [Reference.targetKind, Reference.targetsPalette]
  have shared : (⟨path⟩ : Reference).targetKind kind ∈
      [SectionKind.palette, SectionKind.common] := by
    rw [points]
    split
    · exact List.mem_cons_self
    · exact List.mem_cons_of_mem _ List.mem_cons_self
  rw [reported_iff token, Reference.target_eq_leafName nonempty, ← points,
    leafAt?_eq_none_iff distinct, ← not_exists]
  generalize (⟨path⟩ : Reference).targetKind kind = target at shared
  have declared := leafName_mem_keys_iff separates (separable target shared) plain
  rw [← declared, Declares]
  rcases List.mem_cons.mp shared with rfl | common
  · have differ : SectionKind.palette ≠ .common := by decide
    have other := leafName_not_mem_keys differ config theme path
    rw [or_iff_left other]
  · obtain rfl : target = .common := List.mem_singleton.mp common
    have differ : SectionKind.common ≠ .palette := by decide
    have other := leafName_not_mem_keys differ config theme path
    rw [or_iff_right other]

/-- A common reference to a palette leaf, and a component reference that stops short of a leaf. -/
def outlined : Theme where
  name := "light"
  palette := .group [("palette", .group [("gray-1", .leaf (.text "#fff"))])]
  common := .ofList [("border", .ofList [("base",
    .group [("color", .leaf (.reference ⟨["palette", "gray-1"]⟩))])])]
  components := .group [("input", .leaf (.reference ⟨["border", "base"]⟩))]
  font := FontMetric.fallback

theorem reported_outlined :
    let config : Config := { separator := "__" }
    (config.separator ≠ "" ∧ outlined.Distinct ∧
      (∀ shared ∈ [SectionKind.palette, SectionKind.common],
        ∀ leaf ∈ outlined.leaves shared, Separable config.separator leaf.1) ∧
      Separable config.separator ["palette", "gray-1"] ∧
      Separable config.separator ["border", "base"]) ∧
    "--dm-common__border__base__color" ∉
        (outlined.compile config).danglingReferences.map DanglingReference.name ∧
      "--dm-component__input" ∈
        (outlined.compile config).danglingReferences.map DanglingReference.name := by
  intro config
  have separates : config.separator ≠ "" := by decide
  have distinct : outlined.Distinct := by
    refine ⟨?_, ?_, ?_⟩
    · simp [outlined, TokenTree.Distinct, TokenTree.DistinctChildren, Entries.keys]
    · intro category member group inside
      obtain rfl := List.mem_singleton.mp (OrderedMap.mem_of_mem_ofList member)
      obtain rfl := List.mem_singleton.mp (OrderedMap.mem_of_mem_ofList inside)
      simp [TokenTree.Distinct, TokenTree.DistinctChildren, Entries.keys]
    · simp [outlined, TokenTree.Distinct, TokenTree.DistinctChildren, Entries.keys]
  have separable : ∀ shared ∈ [SectionKind.palette, SectionKind.common],
      ∀ leaf ∈ outlined.leaves shared, Separable config.separator leaf.1 := by decide
  have first : Separable config.separator ["palette", "gray-1"] := by decide
  have second : Separable config.separator ["border", "base"] := by decide
  have common : ("--dm-common__border__base__color",
      TokenValue.reference ⟨["palette", "gray-1"]⟩) ∈
        (outlined.tokens .common config).entries := by decide
  have component : ("--dm-component__input", TokenValue.reference ⟨["border", "base"]⟩) ∈
      (outlined.tokens .component config).entries := by decide
  have found := reported_iff_no_leaf separates distinct separable (by decide) first common
  have missed := reported_iff_no_leaf separates distinct separable (by decide) second component
  exact ⟨⟨separates, distinct, separable, first, second⟩, found.not.mpr (by decide),
    missed.mpr (by decide)⟩

end Theme
end DesignTokens
