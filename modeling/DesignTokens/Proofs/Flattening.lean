import DesignTokens.Proofs.LeafLookup

/-!
# Flattening loses no leaf

As long as no key on the way to a leaf has a character of the separator, no two leaves compose to
one name.  Flattening then lists every leaf once, in declaration order and with its value, and the
name of an entry spells the path of its leaf.
-/

namespace DesignTokens
namespace TokenTree

mutual

/-- There is a path for every leaf that is counted. -/
theorem length_leaves (tree : TokenTree) : tree.leaves.length = tree.leafCount := by
  match tree with
  | .leaf value => rfl
  | .group children => exact length_leavesChildren children

theorem length_leavesChildren (children : List (String × TokenTree)) :
    (leavesChildren children).length = leafCountChildren children := by
  match children with
  | [] => rfl
  | (key, child) :: children =>
      rw [leavesChildren, leafCountChildren, List.length_append, List.length_map,
        length_leaves child, length_leavesChildren children]

end

section Separable

variable {separator name : String} {tree : TokenTree}

theorem entries_flatten (separates : separator ≠ "") (named : name ≠ "")
    (distinct : tree.Distinct)
    (separable : ∀ leaf ∈ tree.leaves, Theme.Separable separator leaf.1) :
    (tree.flatten separator name).entries = tree.namedLeaves separator name := by
  rw [flatten_eq]
  refine Entries.dedup_of_nodup (Entries.nodup_keys_rename (tree.nodup_paths_leaves distinct) ?_)
  intro leaf here other there
  exact pathName_injective separates named (separable leaf here) (separable other there)

/--
Flattening under a name makes as many entries as there are leaves.  They hold the values of the
leaves in declaration order under different names, and each name spells the path of its leaf.
-/
theorem flatten_loses_no_leaf (named : name ≠ "") (separates : separator ≠ "")
    (distinct : tree.Distinct)
    (separable : ∀ leaf ∈ tree.leaves, Theme.Separable separator leaf.1) :
    let flat := tree.flatten separator name
    flat.size = tree.leafCount ∧
      flat.entries.map Prod.snd = tree.leaves.map Prod.snd ∧
      flat.keys.Nodup ∧
      flat.keys.map (keyPath? separator name) = tree.leaves.map fun leaf => some leaf.1 := by
  intro flat
  have entries : flat.entries = tree.namedLeaves separator name :=
    entries_flatten separates named distinct separable
  refine ⟨?_, ?_, flat.distinct, ?_⟩
  · rw [OrderedMap.size, entries, namedLeaves, List.length_map, length_leaves]
  · rw [entries, namedLeaves, List.map_map]
    rfl
  · rw [OrderedMap.keys, Entries.keys, entries, namedLeaves, List.map_map, List.map_map]
    refine List.map_congr_left fun leaf member => ?_
    exact keyPath?_pathName separates named (separable leaf member)

end Separable

/-- A tree with empty keys, and with a key that starts another one. -/
def sparse : TokenTree :=
  .group [("", .leaf (.text "a")),
    ("x", .group [("", .leaf (.text "b")), ("y", .leaf (.text "c"))]),
    ("xy", .group [("", .group [("", .leaf (.text "d"))])])]

/-- Empty keys leave dashes at the end of a name, and the name still spells its path. -/
theorem flatten_sparse :
    ("--x" ≠ "" ∧ "--" ≠ "" ∧ sparse.Distinct ∧
      ∀ leaf ∈ sparse.leaves, Theme.Separable "--" leaf.1) ∧
    (sparse.flatten "--" "--x").keys = ["--x--", "--x--x--", "--x--x--y", "--x--xy----"] ∧
      (sparse.flatten "--" "--x").keys.map (keyPath? "--" "--x") =
        [some [""], some ["x", ""], some ["x", "y"], some ["xy", "", ""]] := by
  have distinct : sparse.Distinct := by
    simp [sparse, Distinct, DistinctChildren, Entries.keys]
  have separable : ∀ leaf ∈ sparse.leaves, Theme.Separable "--" leaf.1 := by decide
  have paths := (@flatten_loses_no_leaf "--" "--x" sparse (by decide) (by decide) distinct
    separable).2.2.2
  exact ⟨⟨by decide, by decide, distinct, separable⟩, by decide, paths⟩

end TokenTree
end DesignTokens
