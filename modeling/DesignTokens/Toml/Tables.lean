import DesignTokens.Toml.Value

/-!
# Building tables

A TOML document adds entries under dotted keys and opens tables by headers.  A table can be
opened by one header only, and a table that dotted keys built stays closed to headers: the form of
every table remembers how it came about.  Whatever would redefine a value or a table is refused.
-/

namespace DesignTokens
namespace Toml

/-- A dotted key. -/
structure Key where
  /-- The keys of the tables on the way. -/
  parents : List String
  /-- The last key. -/
  name : String
  deriving DecidableEq, Repr

/-- A key with its value. -/
structure Pair where
  /-- The key, which may be dotted. -/
  key : Key
  /-- The value. -/
  value : Toml

/-- What opens a block of a document. -/
inductive Header where
  /-- A table. -/
  | table (key : Key)
  /-- A further element of an array of tables. -/
  | element (key : Key)
  deriving DecidableEq, Repr

/-- A header with the pairs below it. -/
structure Block where
  /-- The header. -/
  header : Header
  /-- The pairs below it. -/
  pairs : List Pair

/-- How a table came about. -/
inductive Form where
  /-- A header or braces opened it. -/
  | explicit
  /-- It stands on the way to a header. -/
  | implied
  /-- It stands on the way of a dotted key. -/
  | dotted
  deriving DecidableEq, Repr

/-- What stands under a key while tables are built. -/
inductive Node where
  /-- A finished value. -/
  | value (value : Toml)
  /-- A table that may grow. -/
  | table (form : Form) (children : List (String × Node))
  /-- An array of tables, the last of which may grow. -/
  | tables (elements : List (List (String × Node)))

namespace Node

mutual

/-- The value of a node. -/
def toToml : Node → Toml
  | .value finished => finished
  | .table _ children => .table (childrenToToml children)
  | .tables elements => .array (elementsToToml elements)

/-- The members of a table. -/
def childrenToToml : List (String × Node) → List (String × Toml)
  | [] => []
  | (key, child) :: children => (key, toToml child) :: childrenToToml children

/-- The elements of an array of tables. -/
def elementsToToml : List (List (String × Node)) → List Toml
  | [] => []
  | children :: elements => .table (childrenToToml children) :: elementsToToml elements

end

/-- The form of a table that comes about on the way. -/
def formOnTheWay (dotted : Bool) : Form := if dotted then .dotted else .implied

/--
Change the table at a path, making the missing tables on the way.  A dotted key does not pass
through a table that a header opened, and nothing passes through a finished value.
-/
def changeAt? (dotted : Bool)
    (change : Form → List (String × Node) → Option (List (String × Node))) :
    List String → Form → List (String × Node) → Option (List (String × Node))
  | [], form, children => change form children
  | key :: path, _, children =>
      match Entries.get? key children with
      | none =>
          let form := formOnTheWay dotted
          (changeAt? dotted change path form []).map fun changed =>
            Entries.insert key (.table form changed) children
      | some (.value _) => none
      | some (.table form inner) =>
          if dotted ∧ form = .explicit then none
          else
            (changeAt? dotted change path form inner).map fun changed =>
              Entries.insert key (.table form changed) children
      | some (.tables elements) =>
          match elements.getLast? with
          | none => none
          | some last =>
              (changeAt? dotted change path .explicit last).map fun changed =>
                Entries.insert key (.tables (elements.dropLast ++ [changed])) children

/-- Add a value under a key that is not there yet. -/
def addNew? (name : String) (value : Toml) (children : List (String × Node)) :
    Option (List (String × Node)) :=
  match Entries.get? name children with
  | none => some (Entries.insert name (.value value) children)
  | some _ => none

/-- Add a pair to an open table; a dotted key ends in a table that dotted keys built. -/
def addPair? (children : List (String × Node)) (pair : Pair) : Option (List (String × Node)) :=
  changeAt? true
    (fun form inner =>
      if pair.key.parents = [] ∨ form = .dotted then addNew? pair.key.name pair.value inner
      else none)
    pair.key.parents .explicit children

/-- Add pairs to an open table in order. -/
def addPairs? (children : List (String × Node)) (pairs : List Pair) :
    Option (List (String × Node)) :=
  pairs.foldlM addPair? children

/-- Open a table that no header opened yet, and add pairs to it. -/
def openTable? (name : String) (pairs : List Pair) (children : List (String × Node)) :
    Option (List (String × Node)) :=
  let opened (inner : List (String × Node)) :=
    (addPairs? inner pairs).map fun filled =>
      Entries.insert name (.table .explicit filled) children
  match Entries.get? name children with
  | none => opened []
  | some (.table .implied inner) => opened inner
  | some _ => none

/-- Add an element with pairs to an array of tables. -/
def addElement? (name : String) (pairs : List Pair) (children : List (String × Node)) :
    Option (List (String × Node)) :=
  let added (elements : List (List (String × Node))) :=
    (addPairs? [] pairs).map fun filled =>
      Entries.insert name (.tables (elements ++ [filled])) children
  match Entries.get? name children with
  | none => added []
  | some (.tables elements) => added elements
  | some _ => none

/-- Add a block to a document. -/
def addBlock? (children : List (String × Node)) (block : Block) :
    Option (List (String × Node)) :=
  match block.header with
  | .table key =>
      changeAt? false (fun _ => openTable? key.name block.pairs) key.parents .explicit children
  | .element key =>
      changeAt? false (fun _ => addElement? key.name block.pairs) key.parents .explicit children

end Node

/-- The table of pairs in braces. -/
def ofPairs? (pairs : List Pair) : Option Toml :=
  (Node.addPairs? [] pairs).map fun children => .table (Node.childrenToToml children)

/-- The table of a document: pairs and then blocks. -/
def ofBlocks? (pairs : List Pair) (blocks : List Block) : Option Toml := do
  let children ← Node.addPairs? [] pairs
  let children ← blocks.foldlM Node.addBlock? children
  return .table (Node.childrenToToml children)

end Toml
end DesignTokens
