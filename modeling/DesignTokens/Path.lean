import DesignTokens.Text.Pieces

/-!
# Paths

A path keeps the spelling it was given.  Its components ignore repeated slashes, slashes at the
end and points, except for a point at the very front; two paths name the same place for a store
if their components agree.
-/

namespace DesignTokens

/-- A path as it is spelled. -/
structure Path where
  /-- The spelling. -/
  text : String
  deriving DecidableEq, Repr

namespace Path

/-- The parts that a path consists of. -/
inductive Component where
  /-- The slash in front of an absolute path. -/
  | root
  /-- A point in front of a relative path. -/
  | current
  /-- Two points. -/
  | parent
  /-- A name. -/
  | normal (name : String)
  deriving DecidableEq, Repr

/-- Whether a path starts at the root. -/
def isAbsolute (path : Path) : Bool := path.text.toList.head? = some '/'

/-- What stands between the slashes of a path. -/
def pieces (path : Path) : List String := Text.split "/" path.text

/-- The component of a piece that is not in front. -/
def Component.ofPiece? (piece : String) : Option Component :=
  if piece = "" ∨ piece = "." then none
  else if piece = ".." then some .parent
  else some (.normal piece)

/-- The components of the first piece. -/
def Component.ofFirst (piece : String) : Option Component :=
  if piece = "." then some .current else ofPiece? piece

/-- The components of a path. -/
def components (path : Path) : List Component :=
  if path.isAbsolute then .root :: path.pieces.filterMap Component.ofPiece?
  else
    match path.pieces with
    | [] => []
    | first :: rest => (Component.ofFirst first).toList ++ rest.filterMap Component.ofPiece?

/-- Whether two paths have the same components. -/
def Same (left right : Path) : Prop := left.components = right.components

instance (left right : Path) : Decidable (Same left right) :=
  inferInstanceAs (Decidable (left.components = right.components))

@[refl]
theorem Same.refl (path : Path) : Same path path := rfl

@[symm]
theorem Same.symm {left right : Path} (same : Same left right) : Same right left :=
  Eq.symm same

theorem Same.trans {left middle right : Path} (first : Same left middle)
    (second : Same middle right) : Same left right :=
  Eq.trans first second

/-- A path below another one; an absolute path stands for itself. -/
def join (base path : Path) : Path :=
  if path.isAbsolute then path
  else if base.text = "" ∨ base.text.toList.getLast? = some '/' then ⟨base.text ++ path.text⟩
  else ⟨base.text ++ "/" ++ path.text⟩

/-- Pieces up to the last one that is a component, each with whether it is one. -/
def dropTail (pieces : List (String × Bool)) : List (String × Bool) :=
  (pieces.reverse.dropWhile fun piece => !piece.2).reverse

/-- The pieces behind the root slash, each with whether it is a component. -/
def markedPieces (path : Path) : List (String × Bool) :=
  let inner (piece : String) := (piece, (Component.ofPiece? piece).isSome)
  if path.isAbsolute then (path.pieces.drop 1).map inner
  else
    match path.pieces with
    | [] => []
    | first :: rest => (first, (Component.ofFirst first).isSome) :: rest.map inner

/-- The path without its last component, if it has one besides the root. -/
def parent? (path : Path) : Option Path :=
  match (dropTail path.markedPieces).reverse with
  | [] => none
  | _ :: before =>
      let kept := "/".intercalate ((dropTail before.reverse).map Prod.fst)
      some ⟨if path.isAbsolute then "/" ++ kept else kept⟩

/-- A path and the paths above it, nearest first, at most `count` of them. -/
def ancestorsUpTo : Nat → Path → List Path
  | 0, _ => []
  | count + 1, path =>
      path ::
        match path.parent? with
        | some parent => ancestorsUpTo count parent
        | none => []

/-- A path and the paths above it, nearest first. -/
def ancestors (path : Path) : List Path :=
  path.ancestorsUpTo (path.pieces.length + 1)

end Path
end DesignTokens
