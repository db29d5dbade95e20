import DesignTokens.TokenValue

/-!
# Token trees

A token tree is a leaf with a value or a group of named subtrees.  An object that has the leaf
field is a leaf, whatever else it holds; other objects and arrays are groups of the containers in
them.  Flattening names every leaf by its path of keys.  A name that is composed twice keeps its
first place and takes the later value.
-/

namespace DesignTokens

/-- A tree of tokens. -/
inductive TokenTree where
  /-- A single token. -/
  | leaf (value : TokenValue)
  /-- Named subtrees in declaration order. -/
  | group (children : List (String × TokenTree))
  deriving Repr

/-- Named token values in traversal order. -/
abbrev FlatTokens := OrderedMap String TokenValue

namespace TokenTree

instance : Inhabited TokenTree := ⟨.group []⟩

/-- The group without subtrees. -/
def empty : TokenTree := .group []

/-- The group of the given subtrees, where a repeated key keeps its place and its last subtree. -/
def ofChildren (children : List (String × TokenTree)) : TokenTree :=
  .group (Entries.dedup children)

mutual

/-- The tree of a JSON value; scalars outside leaves are dropped. -/
def ofJson (leafField marker : String) : Json → TokenTree
  | .object members =>
      match Entries.get? leafField members with
      | some value => .leaf (TokenValue.ofJson marker value)
      | none => ofChildren (ofMembers leafField marker members)
  | .array items => ofChildren (ofItems leafField marker 0 items)
  | _ => empty

/-- The trees of the containers among the members of an object. -/
def ofMembers (leafField marker : String) : List (String × Json) → List (String × TokenTree)
  | [] => []
  | (key, value) :: members =>
      if value.isContainer then
        (key, ofJson leafField marker value) :: ofMembers leafField marker members
      else ofMembers leafField marker members

/-- The trees of the containers among the items of an array, under their positions. -/
def ofItems (leafField marker : String) (position : Nat) :
    List Json → List (String × TokenTree)
  | [] => []
  | item :: items =>
      if item.isContainer then
        (toString position, ofJson leafField marker item) ::
          ofItems leafField marker (position + 1) items
      else ofItems leafField marker (position + 1) items

end

/-- The subtree of a group under a key. -/
def get? (key : String) : TokenTree → Option TokenTree
  | .group children => Entries.get? key children
  | .leaf _ => none

/-- The value of the leaf at a path of keys. -/
def leafAt? : List String → TokenTree → Option TokenValue
  | [], .leaf value => some value
  | [], .group _ => none
  | key :: path, tree => (tree.get? key).bind (leafAt? path)

mutual

/-- The number of leaves. -/
def leafCount : TokenTree → Nat
  | .leaf _ => 1
  | .group children => leafCountChildren children

/-- The number of leaves below all of the given subtrees. -/
def leafCountChildren : List (String × TokenTree) → Nat
  | [] => 0
  | (_, child) :: children => leafCount child + leafCountChildren children

end

mutual

/-- The leaves with their paths of keys, depth first in declaration order. -/
def leaves : TokenTree → List (List String × TokenValue)
  | .leaf value => [([], value)]
  | .group children => leavesChildren children

/-- The leaves of named subtrees, each path starting with the name. -/
def leavesChildren : List (String × TokenTree) → List (List String × TokenValue)
  | [] => []
  | (key, child) :: children =>
      (leaves child).map (fun leaf => (key :: leaf.1, leaf.2)) ++ leavesChildren children

end

mutual

/-- No group in the tree repeats a key. -/
def Distinct : TokenTree → Prop
  | .leaf _ => True
  | .group children => (Entries.keys children).Nodup ∧ DistinctChildren children

/-- No group in the subtrees repeats a key. -/
def DistinctChildren : List (String × TokenTree) → Prop
  | [] => True
  | (_, child) :: children => Distinct child ∧ DistinctChildren children

end

/-- The name of a child below the name of its group; below no name it is the bare key. -/
def childName (separator name key : String) : String :=
  if name = "" then key else name ++ separator ++ key

mutual

/-- Insert the leaves of the tree called `name` into a flat map. -/
def flattenInto (separator name : String) (flat : FlatTokens) : TokenTree → FlatTokens
  | .leaf value => flat.insert name value
  | .group children => flattenChildren separator name flat children

/-- Insert the leaves of the subtrees of a group called `name` into a flat map. -/
def flattenChildren (separator name : String) (flat : FlatTokens) :
    List (String × TokenTree) → FlatTokens
  | [] => flat
  | (key, child) :: children =>
      flattenChildren separator name
        (flattenInto separator (childName separator name key) flat child) children

end

/-- The leaves of a tree called `name`, each under its composed name. -/
def flatten (separator name : String) (tree : TokenTree) : FlatTokens :=
  flattenInto separator name .empty tree

end TokenTree
end DesignTokens
