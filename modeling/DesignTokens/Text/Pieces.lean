/-!
# Occurrences of one text in another

Searching, cutting and deleting go from the left and never let two occurrences overlap.  The
operations work on lists of characters by structural recursion; the last section lifts them to
strings.
-/

namespace DesignTokens
namespace Text

/-- What follows `pattern` in a text that begins with it. -/
def after? : List Char → List Char → Option (List Char)
  | [], text => some text
  | _ :: _, [] => none
  | p :: pattern, c :: text => if p = c then after? pattern text else none

theorem after?_eq_some_iff {pattern text rest : List Char} :
    after? pattern text = some rest ↔ text = pattern ++ rest := by
  induction pattern generalizing text with
  | nil => simp [after?]
  | cons p pattern ih =>
      cases text with
      | nil => simp [after?]
      | cons c text =>
          by_cases same : p = c
          · simp [after?, same, ih]
          · simp [after?, same, Ne.symm same]

@[simp]
theorem after?_append (pattern rest : List Char) : after? pattern (pattern ++ rest) = some rest :=
  after?_eq_some_iff.mpr rfl

/-- Whether `pattern` stands somewhere in a text. -/
def occurs (pattern : List Char) : List Char → Bool
  | [] => pattern.isEmpty
  | c :: text => (after? pattern (c :: text)).isSome || occurs pattern text

theorem occurs_iff {pattern text : List Char} :
    occurs pattern text = true ↔ ∃ front back, text = front ++ pattern ++ back := by
  induction text with
  | nil => simp [occurs, List.isEmpty_iff]
  | cons c text ih =>
      simp only [occurs, Bool.or_eq_true, Option.isSome_iff_exists, after?_eq_some_iff, ih]
      constructor
      · rintro (⟨rest, starts⟩ | ⟨front, back, inside⟩)
        · exact ⟨[], rest, by simpa using starts⟩
        · exact ⟨c :: front, back, by simp [inside]⟩
      · rintro ⟨front, back, inside⟩
        cases front with
        | nil => exact .inl ⟨back, by simpa using inside⟩
        | cons head front =>
            simp only [List.cons_append, List.cons.injEq] at inside
            exact .inr ⟨front, back, inside.2⟩

/--
The pieces of a text between the occurrences of a nonempty separator, where the next `skip`
characters still belong to an occurrence.
-/
def piecesFrom (separator : List Char) : Nat → List Char → List (List Char)
  | _, [] => [[]]
  | skip + 1, _ :: text => piecesFrom separator skip text
  | 0, c :: text =>
      if (after? separator (c :: text)).isSome then
        [] :: piecesFrom separator (separator.length - 1) text
      else
        (piecesFrom separator 0 text).modifyHead (c :: ·)

/--
The pieces of a text around a separator.  An empty separator stands between any two characters
and at both ends.
-/
def pieces (separator text : List Char) : List (List Char) :=
  if separator.isEmpty then [] :: (text.map ([·]) ++ [[]]) else piecesFrom separator 0 text

/-- The text without the occurrences of a nonempty pattern. -/
def erased (pattern text : List Char) : List Char :=
  (piecesFrom pattern 0 text).flatten

/-- The text without the first occurrence of a nonempty pattern. -/
def erasedFirst (pattern : List Char) : List Char → List Char
  | [] => []
  | c :: text =>
      match after? pattern (c :: text) with
      | some rest => rest
      | none => c :: erasedFirst pattern text

/-! ## Strings -/

/-- Whether `pattern` stands somewhere in `text`. -/
def contains (text pattern : String) : Bool :=
  occurs pattern.toList text.toList

/-- The pieces of `text` around `separator`. -/
def split (separator text : String) : List String :=
  (pieces separator.toList text.toList).map String.ofList

/-- `text` without the occurrences of a nonempty `pattern`. -/
def erase (pattern text : String) : String :=
  String.ofList (erased pattern.toList text.toList)

/-- `text` without the first occurrence of a nonempty `pattern`. -/
def eraseFirst (pattern text : String) : String :=
  String.ofList (erasedFirst pattern.toList text.toList)

end Text
end DesignTokens
