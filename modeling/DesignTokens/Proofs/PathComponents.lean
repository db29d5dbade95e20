import DesignTokens.Proofs.FileOperations
import DesignTokens.Proofs.Pieces
import Mathlib.Data.List.DropRight

/-!
# The components of paths

The pieces between the slashes of a path spell its components.  The parent of a path has all of its
components but the last and is spelled as the path begins.
-/

namespace DesignTokens
namespace Path

/-! ## Pieces -/

theorem pieces_eq (path : Path) :
    path.pieces = (Text.piecesFrom ['/'] 0 path.text.toList).map String.ofList :=
  Text.split_eq (by decide) path.text

theorem pieces_ne_nil (path : Path) : path.pieces ≠ [] := by
  rw [pieces_eq, Ne, List.map_eq_nil_iff]
  exact Text.piecesFrom_ne_nil _ _

theorem slash_not_mem_of_mem_pieces {path : Path} {piece : String} (member : piece ∈ path.pieces) :
    '/' ∉ piece.toList := by
  rw [pieces_eq] at member
  obtain ⟨chars, cut, rfl⟩ := List.mem_map.mp member
  rw [String.toList_ofList]
  exact Text.not_mem_of_mem_piecesFrom_char cut

theorem intercalate_pieces (path : Path) : "/".intercalate path.pieces = path.text := by
  rw [← String.toList_inj, String.toList_intercalate, pieces_eq, List.map_map]
  have same : String.toList ∘ String.ofList = id := funext fun _ => String.toList_ofList
  rw [same, List.map_id]
  exact Text.intercalate_piecesFrom_char '/' path.text.toList

theorem pieces_intercalate {pieces : List String} (some : pieces ≠ [])
    (free : ∀ piece ∈ pieces, '/' ∉ piece.toList) :
    (⟨"/".intercalate pieces⟩ : Path).pieces = pieces := by
  refine Text.split_intercalate (by decide) some fun piece member c inside slash => ?_
  rw [List.mem_singleton.mp slash] at inside
  exact free piece member inside

theorem pieces_append_slash (front back : String) :
    (⟨front ++ "/" ++ back⟩ : Path).pieces = (⟨front⟩ : Path).pieces ++ (⟨back⟩ : Path).pieces := by
  have spelled : (front ++ "/" ++ back).toList = front.toList ++ '/' :: back.toList := by simp
  rw [pieces_eq, pieces_eq, pieces_eq, spelled, Text.piecesFrom_char_append, List.map_append]

theorem isAbsolute_iff {path : Path} :
    path.isAbsolute = true ↔ ∃ rest, path.text = "/" ++ rest := by
  rw [isAbsolute, decide_eq_true_iff]
  constructor
  · intro head
    obtain ⟨rest, spelled⟩ := List.head?_eq_some_iff.mp head
    refine ⟨String.ofList rest, ?_⟩
    have joined : ("/" ++ String.ofList rest).toList = '/' :: rest := by simp
    rw [← String.toList_inj, spelled, joined]
  · rintro ⟨rest, spelled⟩
    rw [spelled, String.toList_append]
    rfl

theorem pieces_of_isAbsolute {path : Path} (absolute : path.isAbsolute = true) :
    path.pieces = "" :: path.pieces.drop 1 := by
  obtain ⟨rest, spelled⟩ := isAbsolute_iff.mp absolute
  have cut := pieces_append_slash "" rest
  rw [String.empty_append, ← spelled] at cut
  rw [cut]
  rfl

/-- Only the empty path starts with an empty piece without being absolute. -/
theorem text_eq_of_pieces {path : Path} (relative : path.isAbsolute = false) {rest : List String}
    (pieces : path.pieces = "" :: rest) : path.text = "" := by
  have joined := path.intercalate_pieces
  rw [pieces] at joined
  cases rest with
  | nil => simpa using joined.symm
  | cons next rest =>
      rw [String.intercalate_cons_cons, String.empty_append] at joined
      have absolute : path.isAbsolute = true := isAbsolute_iff.mpr ⟨_, joined.symm⟩
      rw [relative] at absolute
      exact absurd absolute (by decide)

/-! ## Spellings -/

/-- The pieces behind the root slash, each with the component that it stands for. -/
def spelling (path : Path) : List (String × Option Component) :=
  if path.isAbsolute then
    (path.pieces.drop 1).map fun piece => (piece, Component.ofPiece? piece)
  else
    match path.pieces with
    | [] => []
    | first :: rest =>
        (first, Component.ofFirst first) :: rest.map fun piece => (piece, Component.ofPiece? piece)

theorem markedPieces_eq (path : Path) :
    path.markedPieces = path.spelling.map fun entry => (entry.1, entry.2.isSome) := by
  unfold markedPieces spelling
  split
  · rw [List.map_map]
    rfl
  · cases path.pieces with
    | nil => rfl
    | cons first rest =>
        rw [List.map_cons, List.map_map]
        rfl

/-- The slash in front of an absolute path, as a component. -/
def front (path : Path) : List Component := if path.isAbsolute then [.root] else []

theorem components_eq (path : Path) :
    path.components = path.front ++ path.spelling.filterMap Prod.snd := by
  unfold components front spelling
  split
  · rename_i absolute
    have start := pieces_of_isAbsolute absolute
    generalize path.pieces = pieces at start
    rw [start, List.filterMap_map]
    rfl
  · cases path.pieces with
    | nil => rfl
    | cons first rest =>
        simp only [List.nil_append, List.filterMap_cons, List.filterMap_map]
        cases Component.ofFirst first with
        | none => rfl
        | some component => rfl

/-- A spelling up to its last component. -/
def trim (spelling : List (String × Option Component)) : List (String × Option Component) :=
  spelling.rdropWhile fun entry => entry.2.isNone

theorem filterMap_trim (spelling : List (String × Option Component)) :
    (trim spelling).filterMap Prod.snd = spelling.filterMap Prod.snd := by
  have tail : (spelling.rtakeWhile fun entry => entry.2.isNone).filterMap Prod.snd = [] := by
    rw [List.filterMap_eq_nil_iff]
    intro entry member
    have empty : entry.2.isNone = true := by simpa using List.mem_rtakeWhile_imp member
    exact Option.isNone_iff_eq_none.mp empty
  have whole := List.rdropWhile_append_rtakeWhile
    (p := fun entry : String × Option Component => entry.2.isNone) (l := spelling)
  conv_rhs => rw [← whole]
  rw [List.filterMap_append, tail, List.append_nil, trim]

/-- The last piece of a trimmed spelling is a component. -/
theorem exists_component_of_trim {spelling before : List (String × Option Component)}
    {last : String × Option Component} (kept : trim spelling = before ++ [last]) :
    ∃ component, last.2 = some component := by
  have filled : trim spelling ≠ [] := by simp [kept]
  have ends := List.rdropWhile_last_not _ _ filled
  have same : (trim spelling).getLast filled = last := by simp [kept]
  rw [show (spelling.rdropWhile _).getLast _ = last from same, Option.isNone_iff_eq_none] at ends
  exact Option.ne_none_iff_exists'.mp ends

theorem mem_spelling {path : Path} {entry : String × Option Component}
    (member : entry ∈ path.spelling) :
    entry.2 = Component.ofPiece? entry.1 ∨ entry.2 = Component.ofFirst entry.1 := by
  unfold spelling at member
  split at member
  · obtain ⟨piece, _, rfl⟩ := List.mem_map.mp member
    exact Or.inl rfl
  · split at member
    · exact absurd member List.not_mem_nil
    · rcases List.mem_cons.mp member with rfl | later
      · exact Or.inr rfl
      · obtain ⟨piece, _, rfl⟩ := List.mem_map.mp later
        exact Or.inl rfl

theorem Component.ofPiece?_eq_normal_iff {piece name : String} :
    ofPiece? piece = some (.normal name) ↔
      piece = name ∧ name ≠ "" ∧ name ≠ "." ∧ name ≠ ".." := by
  unfold ofPiece?
  split
  · rename_i skipped
    constructor
    · intro absurd
      simp at absurd
    · rintro ⟨rfl, filled, point, _⟩
      exact absurd skipped (not_or.mpr ⟨filled, point⟩)
  · rename_i kept
    obtain ⟨filled, point⟩ := not_or.mp kept
    split
    · rename_i double
      constructor
      · intro absurd
        simp at absurd
      · rintro ⟨rfl, _, _, other⟩
        exact absurd double other
    · rename_i single
      constructor
      · intro same
        obtain rfl : piece = name := by simpa using same
        exact ⟨rfl, filled, point, single⟩
      · rintro ⟨rfl, _⟩
        rfl

/-- A name in a spelling is spelled as it is. -/
theorem piece_of_mem_spelling {path : Path} {piece name : String}
    (member : (piece, some (Component.normal name)) ∈ path.spelling) :
    piece = name ∧ name ≠ "" ∧ name ≠ "." ∧ name ≠ ".." := by
  rcases mem_spelling member with same | same
  · exact Component.ofPiece?_eq_normal_iff.mp same.symm
  · unfold Component.ofFirst at same
    split at same
    · simp at same
    · exact Component.ofPiece?_eq_normal_iff.mp same.symm

/-! ## Parents -/

/-- The path that is spelled by pieces behind the root slash of another one. -/
def respelled (path : Path) (kept : List (String × Option Component)) : Path :=
  let spelled := "/".intercalate (kept.map Prod.fst)
  ⟨if path.isAbsolute then "/" ++ spelled else spelled⟩

theorem dropTail_map (spelling : List (String × Option Component)) :
    dropTail (spelling.map fun entry => (entry.1, entry.2.isSome)) =
      (trim spelling).map fun entry => (entry.1, entry.2.isSome) := by
  unfold dropTail trim List.rdropWhile
  rw [← List.map_reverse, List.dropWhile_map, ← List.map_reverse]
  congr 3
  exact funext fun entry => Option.not_isSome entry.2

theorem parent?_eq (path : Path) :
    path.parent? =
      match (trim path.spelling).reverse with
      | [] => none
      | _ :: before => some (path.respelled (trim before.reverse)) := by
  unfold parent?
  rw [markedPieces_eq, dropTail_map, ← List.map_reverse]
  cases (trim path.spelling).reverse with
  | nil => rfl
  | cons last before =>
      simp only [List.map_cons, respelled]
      rw [← List.map_reverse, dropTail_map, List.map_map]
      rfl

theorem parent?_eq_none {path : Path} (given : path.parent? = none) :
    path.components = path.front := by
  rw [parent?_eq] at given
  split at given
  case h_1 empty =>
    rw [List.reverse_eq_nil_iff] at empty
    rw [components_eq, ← filterMap_trim, empty, List.filterMap_nil, List.append_nil]
  case h_2 => simp at given

/-- A path without a parent has at most one component. -/
theorem eq_nil_of_parent?_eq_none {path : Path} {before : List Component} {component : Component}
    (given : path.parent? = none) (components : path.components = before ++ [component]) :
    before = [] := by
  rw [parent?_eq_none given] at components
  have length := congrArg List.length components
  rw [List.length_append, List.length_singleton, front] at length
  grind

/-- A parent is spelled up to the last component before the one that is left out. -/
theorem exists_of_parent?_eq_some {path above : Path} (given : path.parent? = some above) :
    ∃ before piece component, trim path.spelling = before ++ [(piece, some component)] ∧
      above = path.respelled (trim before) := by
  rw [parent?_eq] at given
  split at given
  case h_1 => simp at given
  case h_2 last before reversed =>
    have kept : trim path.spelling = before.reverse ++ [last] := by
      rw [← List.reverse_reverse (trim path.spelling), reversed, List.reverse_cons]
    obtain ⟨piece, end?⟩ := last
    obtain ⟨component, same⟩ := exists_component_of_trim kept
    rw [show end? = some component from same] at kept
    exact ⟨before.reverse, piece, component, kept, (Option.some.inj given).symm⟩

theorem spelling_of_relative {path : Path} (relative : path.isAbsolute = false) :
    path.spelling.map Prod.fst = path.pieces := by
  unfold spelling
  rw [if_neg (by simp [relative])]
  cases cut : path.pieces with
  | nil => rfl
  | cons first rest => simp [Function.comp_def]

theorem spelling_of_isAbsolute {path : Path} (absolute : path.isAbsolute = true) :
    "" :: path.spelling.map Prod.fst = path.pieces := by
  unfold spelling
  rw [if_pos absolute, List.map_map]
  conv_rhs => rw [pieces_of_isAbsolute absolute]
  simp [Function.comp_def]

theorem slash_not_mem_of_mem_spelling {path : Path} {entry : String × Option Component}
    (member : entry ∈ path.spelling) : '/' ∉ entry.1.toList := by
  have inside : entry.1 ∈ path.spelling.map Prod.fst := List.mem_map_of_mem member
  cases absolute : path.isAbsolute with
  | false =>
      rw [spelling_of_relative absolute] at inside
      exact slash_not_mem_of_mem_pieces inside
  | true =>
      have later : entry.1 ∈ path.pieces := by
        rw [← spelling_of_isAbsolute absolute]
        exact List.mem_cons_of_mem "" inside
      exact slash_not_mem_of_mem_pieces later

/-- What stands between the slashes of a path, repeated slashes counting once. -/
def names (path : Path) : List String := path.pieces.filter fun piece => piece ≠ ""

theorem names_eq (path : Path) :
    path.names = (path.spelling.map Prod.fst).filter fun piece => piece ≠ "" := by
  rw [names]
  cases absolute : path.isAbsolute with
  | false => rw [spelling_of_relative absolute]
  | true => rw [← spelling_of_isAbsolute absolute, List.filter_cons_of_neg (by simp)]

theorem intercalate_begins {front whole : List String} (begins : front <+: whole) :
    ("/".intercalate front).toList <+: ("/".intercalate whole).toList := by
  induction front generalizing whole with
  | nil => simp
  | cons first front ih =>
      cases whole with
      | nil => exact absurd begins (by simp)
      | cons head whole =>
          obtain ⟨rfl, later⟩ := List.cons_prefix_cons.mp begins
          cases front with
          | nil =>
              cases whole with
              | nil => exact List.prefix_rfl
              | cons next whole => simp [String.intercalate_cons_cons]
          | cons second front =>
              cases whole with
              | nil => exact absurd later (by simp)
              | cons next whole => simpa [String.intercalate_cons_cons] using ih later

section Respelled

variable {path : Path} {kept : List (String × Option Component)}

theorem pieces_spelled (begins : kept <+: path.spelling) (filled : kept ≠ []) :
    (⟨"/".intercalate (kept.map Prod.fst)⟩ : Path).pieces = kept.map Prod.fst := by
  refine pieces_intercalate (by simpa using filled) fun piece member => ?_
  obtain ⟨entry, inside, rfl⟩ := List.mem_map.mp member
  exact slash_not_mem_of_mem_spelling (begins.subset inside)

theorem respelled_of_isAbsolute (absolute : path.isAbsolute = true)
    (begins : kept <+: path.spelling) :
    (path.respelled kept).isAbsolute = true ∧
      (path.respelled kept).spelling = if kept = [] then [("", none)] else kept := by
  have text : (path.respelled kept).text = "/" ++ "/".intercalate (kept.map Prod.fst) := by
    simp [respelled, absolute]
  have again : (path.respelled kept).isAbsolute = true := isAbsolute_iff.mpr ⟨_, text⟩
  refine ⟨again, ?_⟩
  have pieces : (path.respelled kept).pieces =
      "" :: (⟨"/".intercalate (kept.map Prod.fst)⟩ : Path).pieces := by
    have cut := pieces_append_slash "" ("/".intercalate (kept.map Prod.fst))
    rw [String.empty_append, ← text] at cut
    exact cut
  rw [spelling, if_pos again, pieces, List.drop_one, List.tail_cons]
  split
  · rename_i empty
    rw [empty]
    rfl
  · rename_i filled
    rw [pieces_spelled begins filled, List.map_map]
    refine (List.map_congr_left fun entry member => ?_).trans (List.map_id kept)
    have inside := begins.subset member
    rw [spelling, if_pos absolute] at inside
    obtain ⟨piece, _, rfl⟩ := List.mem_map.mp inside
    rfl

/-- A relative path starts with an empty piece only if it has no other. -/
theorem eq_nil_of_pieces {rest : List String} (relative : path.isAbsolute = false)
    (cut : path.pieces = "" :: rest) : rest = [] := by
  have empty := text_eq_of_pieces relative cut
  have single : path.pieces = [""] := by
    rw [Path.pieces, empty]
    rfl
  simpa [single] using cut.symm

theorem respelled_of_relative (relative : path.isAbsolute = false)
    (begins : kept <+: path.spelling) (trimmed : trim kept = kept) :
    (path.respelled kept).isAbsolute = false ∧
      (path.respelled kept).spelling = if kept = [] then [("", none)] else kept := by
  have text : (path.respelled kept).text = "/".intercalate (kept.map Prod.fst) := by
    simp [respelled, relative]
  cases kept with
  | nil =>
      have empty : path.respelled [] = ⟨""⟩ := by simp [respelled, relative]
      rw [empty]
      exact ⟨rfl, rfl⟩
  | cons entry later =>
      have pieces := pieces_spelled begins (List.cons_ne_nil entry later)
      rw [← text] at pieces
      cases cut : path.pieces with
      | nil => exact absurd cut path.pieces_ne_nil
      | cons first rest =>
          have whole := begins
          rw [spelling, if_neg (by simp [relative]), cut] at whole
          obtain ⟨rfl, inside⟩ := List.cons_prefix_cons.mp whole
          have filled : first ≠ "" := by
            rintro rfl
            obtain rfl := eq_nil_of_pieces relative cut
            obtain rfl : later = [] := List.prefix_nil.mp inside
            exact absurd trimmed (by decide)
          have again : (path.respelled ((first, Component.ofFirst first) :: later)).isAbsolute =
              false := by
            by_contra absolute
            rw [Bool.not_eq_false] at absolute
            rw [pieces_of_isAbsolute absolute, List.map_cons] at pieces
            exact filled (List.cons.inj pieces).1.symm
          refine ⟨again, ?_⟩
          rw [spelling, if_neg (by simp [again]), pieces, if_neg (List.cons_ne_nil _ _)]
          simp only [List.map_cons, List.map_map, List.cons.injEq, true_and]
          refine (List.map_congr_left fun entry member => ?_).trans (List.map_id later)
          obtain ⟨piece, _, rfl⟩ := List.mem_map.mp (inside.subset member)
          rfl

theorem isAbsolute_respelled (begins : kept <+: path.spelling) (trimmed : trim kept = kept) :
    (path.respelled kept).isAbsolute = path.isAbsolute := by
  cases absolute : path.isAbsolute with
  | false => exact (respelled_of_relative absolute begins trimmed).1
  | true => exact (respelled_of_isAbsolute absolute begins).1

theorem spelling_respelled (begins : kept <+: path.spelling) (trimmed : trim kept = kept) :
    (path.respelled kept).spelling = if kept = [] then [("", none)] else kept := by
  cases absolute : path.isAbsolute with
  | false => exact (respelled_of_relative absolute begins trimmed).2
  | true => exact (respelled_of_isAbsolute absolute begins).2

theorem components_respelled (begins : kept <+: path.spelling) (trimmed : trim kept = kept) :
    (path.respelled kept).components = path.front ++ kept.filterMap Prod.snd := by
  have same : (path.respelled kept).front = path.front := by
    rw [front, front, isAbsolute_respelled begins trimmed]
  rw [components_eq, same, spelling_respelled begins trimmed]
  split
  · rename_i empty
    rw [empty]
    rfl
  · rfl

theorem names_respelled (begins : kept <+: path.spelling) (trimmed : trim kept = kept) :
    (path.respelled kept).names = (kept.map Prod.fst).filter fun piece => piece ≠ "" := by
  rw [names_eq, spelling_respelled begins trimmed]
  split
  · rename_i empty
    rw [empty]
    rfl
  · rfl

theorem respelled_spelling (path : Path) : (path.respelled path.spelling).text = path.text := by
  cases absolute : path.isAbsolute with
  | false => simp [respelled, absolute, spelling_of_relative absolute, intercalate_pieces]
  | true =>
      obtain ⟨rest, text⟩ := isAbsolute_iff.mp absolute
      have cut := pieces_append_slash "" rest
      rw [String.empty_append, ← text, ← spelling_of_isAbsolute absolute] at cut
      have inner : path.spelling.map Prod.fst = (⟨rest⟩ : Path).pieces := (List.cons.inj cut).2
      simp [respelled, absolute, inner, intercalate_pieces, text]

theorem respelled_begins {more : List (String × Option Component)} (begins : kept <+: more) :
    (path.respelled kept).text.toList <+: (path.respelled more).text.toList := by
  have inner := intercalate_begins (begins.map Prod.fst)
  rw [respelled, respelled]
  split
  · rw [String.toList_append, String.toList_append]
    exact List.prefix_append_right_inj _ |>.mpr inner
  · exact inner

theorem text_respelled (begins : kept <+: path.spelling) :
    (path.respelled kept).text.toList <+: path.text.toList :=
  respelled_spelling path ▸ respelled_begins begins

end Respelled

section Parent

variable {path above : Path}

theorem trim_begins (spelling : List (String × Option Component)) : trim spelling <+: spelling :=
  List.rdropWhile_prefix _ spelling

theorem trim_trim (spelling : List (String × Option Component)) :
    trim (trim spelling) = trim spelling :=
  List.rdropWhile_idempotent _ _

theorem prefix_of_trim_eq {path : Path} {before : List (String × Option Component)}
    {last : String × Option Component} (kept : trim path.spelling = before ++ [last]) :
    trim before <+: path.spelling :=
  (trim_begins before).trans
    ((List.prefix_append before [last]).trans (kept ▸ trim_begins path.spelling))

/-- A parent has all components but the last. -/
theorem components_of_parent? (given : path.parent? = some above) :
    ∃ component, path.components = above.components ++ [component] := by
  obtain ⟨before, piece, component, kept, rfl⟩ := exists_of_parent?_eq_some given
  refine ⟨component, ?_⟩
  rw [components_respelled (prefix_of_trim_eq kept) (trim_trim before), components_eq,
    ← filterMap_trim path.spelling, kept, filterMap_trim]
  simp

/-- A path that ends in a name has a parent. -/
theorem exists_parent?_of_normal {front : List Component} {name : String}
    (components : path.components = front ++ [.normal name]) :
    ∃ above, path.parent? = some above ∧ above.components = front := by
  cases up : path.parent? with
  | none =>
      have first : Component.normal name ∈ path.front := by
        rw [← parent?_eq_none up, components]
        exact List.mem_append_right front List.mem_cons_self
      unfold Path.front at first
      split at first
      · simp at first
      · simp at first
  | some above =>
      obtain ⟨component, split⟩ := components_of_parent? up
      exact ⟨above, rfl, (List.append_inj' (split.symm.trans components) rfl).1⟩

theorem length_components_of_parent? (given : path.parent? = some above) :
    path.components.length = above.components.length + 1 := by
  obtain ⟨component, components⟩ := components_of_parent? given
  rw [components, List.length_append, List.length_singleton]

/-- The parent of a path is spelled as the path begins. -/
theorem text_of_parent? (given : path.parent? = some above) :
    above.text.toList <+: path.text.toList := by
  obtain ⟨before, piece, component, kept, rfl⟩ := exists_of_parent?_eq_some given
  exact text_respelled (prefix_of_trim_eq kept)

theorem utf8ByteSize_le_of_begins {front whole : String} (begins : front.toList <+: whole.toList) :
    front.utf8ByteSize ≤ whole.utf8ByteSize := by
  obtain ⟨rest, spelled⟩ := begins
  have text : whole = front ++ String.ofList rest := by
    rw [← String.toList_inj, ← spelled, String.toList_append, String.toList_ofList]
  rw [text, String.utf8ByteSize_append]
  exact Nat.le_add_right _ _

theorem utf8ByteSize_respelled (path : Path) (before : List (String × Option Component))
    (piece : String) (component? : Option Component) :
    (path.respelled before).text.utf8ByteSize + piece.utf8ByteSize ≤
      (path.respelled (before ++ [(piece, component?)])).text.utf8ByteSize := by
  have inner : ("/".intercalate (before.map Prod.fst)).utf8ByteSize + piece.utf8ByteSize ≤
      ("/".intercalate ((before ++ [(piece, component?)]).map Prod.fst)).utf8ByteSize := by
    by_cases first : before = []
    · simp [first]
    · rw [List.map_append, String.intercalate_append_of_ne_nil (by simpa using first) (by simp)]
      simp [String.utf8ByteSize_append]
  unfold respelled
  split
  · simp only [String.utf8ByteSize_append]
    omega
  · exact inner

/-- The parent of a path that ends in a name is shorter by the name. -/
theorem utf8ByteSize_of_parent? (given : path.parent? = some above) {front : List Component}
    {name : String} (components : path.components = front ++ [.normal name]) :
    above.text.utf8ByteSize + name.utf8ByteSize ≤ path.text.utf8ByteSize := by
  obtain ⟨before, piece, component, kept, rfl⟩ := exists_of_parent?_eq_some given
  obtain rfl : component = .normal name := by
    rw [components_eq, ← filterMap_trim path.spelling, kept, List.filterMap_append,
      ← List.append_assoc] at components
    simpa using (List.append_inj' components rfl).2
  have begins : before ++ [(piece, some (.normal name))] <+: path.spelling :=
    kept ▸ trim_begins path.spelling
  obtain ⟨rfl, _⟩ := piece_of_mem_spelling
    (begins.subset (List.mem_append_right before List.mem_cons_self))
  have trimmed := utf8ByteSize_le_of_begins
    (respelled_begins (trim_begins before) : (path.respelled (trim before)).text.toList <+: _)
  have shorter := utf8ByteSize_respelled path before piece (some (.normal piece))
  have whole := utf8ByteSize_le_of_begins (text_respelled begins)
  omega

/-- A path whose last name has nothing behind it. -/
def Ends (path : Path) : Prop :=
  ∀ name, path.components.getLast? = some (.normal name) → path.names.getLast? = some name

/-- Nothing is behind the last name of a parent. -/
theorem ends_of_parent? (given : path.parent? = some above) : above.Ends := by
  obtain ⟨before, piece, component, kept, rfl⟩ := exists_of_parent?_eq_some given
  have begins := prefix_of_trim_eq kept
  intro name last
  rw [components_respelled begins (trim_trim before)] at last
  rw [names_respelled begins (trim_trim before)]
  rcases List.eq_nil_or_concat' (trim before) with empty | ⟨front, ⟨piece, end?⟩, cut⟩
  · rw [empty] at last
    unfold Path.front at last
    split at last
    · simp at last
    · simp at last
  · obtain ⟨component, same⟩ := exists_component_of_trim cut
    obtain rfl : end? = some component := same
    rw [cut] at last begins
    obtain rfl : component = .normal name := by simpa using last
    have inside := begins.subset (List.mem_append_right front List.mem_cons_self)
    obtain ⟨rfl, filled, _⟩ := piece_of_mem_spelling inside
    simp [cut, filled]

end Parent

/-! ## Names -/

/-- What a path starts with in front of its names. -/
def lead (path : Path) : List Component :=
  if path.isAbsolute then [.root]
  else if path.pieces.head? = some "." then [.current]
  else []

theorem filterMap_names (path : Path) :
    path.names.filterMap Component.ofPiece? = path.pieces.filterMap Component.ofPiece? := by
  rw [names, List.filterMap_filter]
  refine List.filterMap_congr fun piece _ => ?_
  split
  · rfl
  · rename_i empty
    obtain rfl : piece = "" := by simpa using empty
    rfl

theorem components_eq_names (path : Path) :
    path.components = path.lead ++ path.names.filterMap Component.ofPiece? := by
  rw [filterMap_names]
  unfold components lead
  split
  · rfl
  · cases path.pieces with
    | nil => rfl
    | cons first rest =>
        by_cases point : first = "."
        · simp [point, Component.ofFirst, Component.ofPiece?]
        · simp only [List.head?_cons, Option.some.injEq, point, if_false, List.nil_append,
            Component.ofFirst, List.filterMap_cons]
          cases Component.ofPiece? first with
          | none => rfl
          | some component => rfl

/-- Only the empty path has no components. -/
theorem components_eq_nil_iff {path : Path} : path.components = [] ↔ path.text = "" := by
  constructor
  · intro empty
    unfold components at empty
    split at empty
    · simp at empty
    · rename_i relative
      cases cut : path.pieces with
      | nil => exact absurd cut path.pieces_ne_nil
      | cons first rest =>
          simp only [cut, List.append_eq_nil_iff, Option.toList_eq_nil_iff] at empty
          obtain rfl : first = "" := by
            by_contra filled
            unfold Component.ofFirst Component.ofPiece? at empty
            grind
          exact text_eq_of_pieces (by simpa using relative) cut
  · intro empty
    obtain rfl : path = ⟨""⟩ := congrArg Path.mk empty
    rfl

end Path
end DesignTokens
