import DesignTokens.Proofs.PathComponents

/-!
# Paths below others

Joining a relative path to another one joins their components and puts a slash between their
spellings if it is needed.  A single name below a path is one more component.
-/

namespace DesignTokens
namespace Path

/-- A relative path without points. -/
structure Plain (path : Path) : Prop where
  /-- The path is below wherever it starts. -/
  relative : path.isAbsolute = false
  /-- The path consists of names. -/
  named : ∀ component ∈ path.components, ∃ name, component = .normal name

theorem Plain.lead_eq {path : Path} (plain : path.Plain) : path.lead = [] := by
  unfold lead
  rw [if_neg (by simp [plain.relative])]
  split
  · rename_i point
    have first : Component.current ∈ path.components := by
      simp [components_eq_names, lead, plain.relative, point]
    obtain ⟨name, same⟩ := plain.named _ first
    cases same
  · rfl

section Join

variable {base path : Path}

theorem exists_pieces_of_slash (slash : base.text.toList.getLast? = some '/') :
    ∃ front : Path, base.pieces = front.pieces ++ [""] ∧ base.text = front.text ++ "/" := by
  obtain ⟨front, cut⟩ := List.getLast?_eq_some_iff.mp slash
  have text : base.text = String.ofList front ++ "/" := by
    have joined : (String.ofList front ++ "/").toList = front ++ ['/'] := by simp
    rw [← String.toList_inj, cut, joined]
  refine ⟨⟨String.ofList front⟩, ?_, text⟩
  have pieces := pieces_append_slash (String.ofList front) ""
  rw [String.append_empty, ← text] at pieces
  exact pieces

/-- A path below another one has the pieces of both, except for an empty one between them. -/
theorem pieces_join (filled : base.text ≠ "") (relative : path.isAbsolute = false) :
    ∃ front, front ≠ [] ∧ (base.pieces = front ∨ base.pieces = front ++ [""]) ∧
      (base.join path).pieces = front ++ path.pieces := by
  unfold join
  rw [if_neg (by simp [relative])]
  by_cases slash : base.text.toList.getLast? = some '/'
  · rw [if_pos (Or.inr slash)]
    obtain ⟨front, pieces, text⟩ := exists_pieces_of_slash slash
    refine ⟨front.pieces, front.pieces_ne_nil, Or.inr pieces, ?_⟩
    rw [text]
    exact pieces_append_slash front.text path.text
  · rw [if_neg (not_or.mpr ⟨filled, slash⟩)]
    exact ⟨base.pieces, base.pieces_ne_nil, Or.inl rfl, pieces_append_slash base.text path.text⟩

theorem isAbsolute_join (filled : base.text ≠ "") (relative : path.isAbsolute = false) :
    (base.join path).isAbsolute = base.isAbsolute := by
  obtain ⟨head, rest, spelled⟩ := List.exists_cons_of_ne_nil
    (show base.text.toList ≠ [] by simpa using filled)
  unfold join
  rw [if_neg (by simp [relative])]
  split
  · simp [isAbsolute, spelled]
  · simp [isAbsolute, spelled]

theorem join_of_empty (empty : base.text = "") : base.join path = path := by
  unfold join
  simp [empty]

theorem join_of_isAbsolute (absolute : path.isAbsolute = true) : base.join path = path := by
  rw [join, if_pos absolute]

theorem lead_join (filled : base.text ≠ "") (relative : path.isAbsolute = false) :
    (base.join path).lead = base.lead := by
  obtain ⟨front, some, pieces, joined⟩ := pieces_join filled relative
  have head : (base.join path).pieces.head? = base.pieces.head? := by
    rw [joined, List.head?_append_of_ne_nil _ some]
    rcases pieces with same | same
    · rw [same]
    · rw [same, List.head?_append_of_ne_nil _ some]
  rw [lead, lead, isAbsolute_join filled relative, head]

theorem names_join (filled : base.text ≠ "") (relative : path.isAbsolute = false) :
    (base.join path).names = base.names ++ path.names := by
  obtain ⟨front, _, pieces, joined⟩ := pieces_join filled relative
  unfold names
  rw [joined, List.filter_append]
  rcases pieces with same | same
  · rw [same]
  · simp [same]

theorem components_join_of_filled (filled : base.text ≠ "") (relative : path.isAbsolute = false) :
    (base.join path).components =
      base.components ++ path.names.filterMap Component.ofPiece? := by
  rw [components_eq_names, lead_join filled relative, names_join filled relative,
    List.filterMap_append, ← List.append_assoc, ← components_eq_names]

theorem components_join (plain : path.Plain) :
    (base.join path).components = base.components ++ path.components := by
  by_cases empty : base.text = ""
  · rw [join_of_empty empty, components_eq_nil_iff.mpr empty, List.nil_append]
  · rw [components_join_of_filled empty plain.relative, components_eq_names path, plain.lead_eq,
      List.nil_append]

/-- What is put between a path and a relative path below it. -/
def gap (base : Path) : String :=
  if base.text = "" ∨ base.text.toList.getLast? = some '/' then "" else "/"

theorem join_of_relative (relative : path.isAbsolute = false) :
    base.join path = ⟨base.text ++ base.gap ++ path.text⟩ := by
  unfold join gap
  rw [if_neg (by simp [relative])]
  split
  · rw [String.append_empty]
  · rfl

theorem gap_join {directory : Path} (relative : directory.isAbsolute = false) :
    (base.join directory).gap = if directory.text = "" then "" else directory.gap := by
  rw [join_of_relative relative]
  split
  · rename_i empty
    rw [empty, String.append_empty]
    unfold gap
    by_cases closed : base.text = "" ∨ base.text.toList.getLast? = some '/'
    · rw [if_pos closed, String.append_empty, if_pos closed]
    · rw [if_neg closed, if_pos (Or.inr (by simp))]
  · rename_i filled
    have some : directory.text.toList ≠ [] := by simpa using filled
    unfold gap
    rw [String.toList_append, List.getLast?_append_of_ne_nil _ some]
    simp [filled]

/-- It does not matter which of three paths are joined first. -/
theorem join_join {root directory : Path} (relative : path.isAbsolute = false) :
    (root.join directory).join path = root.join (directory.join path) := by
  by_cases empty : directory.text = ""
  · have plain : directory.isAbsolute = false := by simp [isAbsolute, empty]
    rw [join_of_empty empty, join_of_relative relative, gap_join plain, if_pos empty,
      join_of_relative plain, join_of_relative relative, empty]
    simp
  · have spelled := isAbsolute_join empty relative
    cases absolute : directory.isAbsolute with
    | true => rw [join_of_isAbsolute absolute, join_of_isAbsolute (spelled.trans absolute)]
    | false =>
        rw [join_of_relative relative, gap_join absolute, if_neg empty,
          join_of_relative (spelled.trans absolute), join_of_relative absolute,
          join_of_relative relative]
        simp [String.append_assoc]

/-- A path leads to one place from two spellings of a place. -/
theorem Same.join {other : Path} (same : base.Same other) (path : Path) :
    (base.join path).Same (other.join path) := by
  have empty_iff : base.text = "" ↔ other.text = "" := by
    rw [← components_eq_nil_iff, ← components_eq_nil_iff, same]
  cases absolute : path.isAbsolute with
  | true => rw [join_of_isAbsolute absolute, join_of_isAbsolute absolute]
  | false =>
      by_cases empty : base.text = ""
      · rw [join_of_empty empty, join_of_empty (empty_iff.mp empty)]
      · have filled : other.text ≠ "" := fun blank => empty (empty_iff.mpr blank)
        rw [Same, components_join_of_filled empty absolute,
          components_join_of_filled filled absolute, same]

end Join

/-! ## Single names -/

/-- A text that is one name as a path. -/
structure IsName (name : String) : Prop where
  /-- No slash cuts the text. -/
  slashless : '/' ∉ name.toList
  /-- The text is not empty. -/
  filled : name ≠ ""
  /-- The text is not the point of the same directory. -/
  notCurrent : name ≠ "."
  /-- The text is not the two points of the directory above. -/
  notParent : name ≠ ".."

namespace IsName

variable {name : String}

theorem pieces (isName : IsName name) : (⟨name⟩ : Path).pieces = [name] := by
  have cut := pieces_intercalate (List.cons_ne_nil name []) fun piece member =>
    List.mem_singleton.mp member ▸ isName.slashless
  simpa using cut

theorem components (isName : IsName name) : (⟨name⟩ : Path).components = [.normal name] := by
  have pieces := isName.pieces
  have relative : (⟨name⟩ : Path).isAbsolute = false := by
    by_contra absolute
    rw [Bool.not_eq_false] at absolute
    rw [pieces_of_isAbsolute absolute] at pieces
    exact isName.filled (List.cons.inj pieces).1.symm
  have named : Component.ofPiece? name = some (.normal name) :=
    Component.ofPiece?_eq_normal_iff.mpr
      ⟨rfl, isName.filled, isName.notCurrent, isName.notParent⟩
  unfold Path.components
  simp [relative, pieces, Component.ofFirst, isName.notCurrent, named]

theorem plain (isName : IsName name) : (⟨name⟩ : Path).Plain where
  relative := by
    by_contra absolute
    rw [Bool.not_eq_false, isAbsolute, decide_eq_true_iff] at absolute
    exact isName.slashless (List.mem_of_mem_head? absolute)
  named := by
    intro component member
    rw [isName.components] at member
    exact ⟨name, List.mem_singleton.mp member⟩

/-- A name below a path is one more component. -/
theorem components_join (isName : IsName name) (base : Path) :
    (base.join ⟨name⟩).components = base.components ++ [.normal name] := by
  rw [Path.components_join isName.plain, isName.components]

/-- Names below two paths are at one place only if they are one name below one place. -/
theorem same_join_iff {other : String} (isName : IsName name) (otherName : IsName other)
    {base below : Path} :
    (base.join ⟨name⟩).Same (below.join ⟨other⟩) ↔ base.Same below ∧ name = other := by
  rw [Same, Same, isName.components_join, otherName.components_join]
  constructor
  · intro same
    obtain ⟨front, last⟩ := List.append_inj' same rfl
    exact ⟨front, by simpa using last⟩
  · rintro ⟨front, rfl⟩
    rw [front]

/-- A name with an extension is a name. -/
theorem withExtension (isName : IsName name) {extension : String}
    (slashless : '/' ∉ extension.toList) : IsName (name ++ "." ++ extension) := by
  obtain ⟨head, rest, chars⟩ := List.exists_cons_of_ne_nil
    (show name.toList ≠ [] by simpa using isName.filled)
  have spelled : (name ++ "." ++ extension).toList =
      head :: (rest ++ '.' :: extension.toList) := by
    simp [chars]
  have slashlessName := isName.slashless
  rw [chars] at slashlessName
  refine ⟨?_, ?_, ?_, ?_⟩
  · rw [spelled]
    simpa [slashless] using slashlessName
  · rw [Ne, ← String.toList_inj, spelled]
    simp
  · rw [Ne, ← String.toList_inj, spelled]
    simp
  · intro parent
    rw [← String.toList_inj, spelled] at parent
    obtain ⟨rfl, tail⟩ := List.cons.inj parent
    -- Behind the first point only the one of the extension is left.
    have single : rest = [] := by
      cases rest with
      | nil => rfl
      | cons next rest => simp at tail
    rw [single] at chars
    exact isName.notCurrent (String.toList_inj.mp chars)

end IsName

end Path
end DesignTokens
