import DesignTokens.Text.Pieces

/-!
# Cutting what was joined

Segments without a character of the separator are recovered when their join is cut, and so are the
lines of a text whose lines all end in a line break.  The text in front of the first occurrence of
a two-character separator is the first piece, even if it has one of the two characters.
-/

namespace DesignTokens
namespace Text

/-- No character of the text belongs to the separator. -/
def Avoids (separator text : List Char) : Prop :=
  ∀ c ∈ text, c ∉ separator

theorem after?_eq_none {separator text : List Char} {c : Char} (nonempty : separator ≠ [])
    (absent : c ∉ separator) : after? separator (c :: text) = none := by
  cases separator with
  | nil => exact absurd rfl nonempty
  | cons p separator =>
      have differ : p ≠ c := fun same => absent (same ▸ List.mem_cons_self)
      simp [after?, differ]

theorem piecesFrom_cons {separator text : List Char} {c : Char}
    (stays : after? separator (c :: text) = none) :
    piecesFrom separator 0 (c :: text) = (piecesFrom separator 0 text).modifyHead (c :: ·) := by
  simp [piecesFrom, stays]

theorem piecesFrom_length (separator front text : List Char) :
    piecesFrom separator front.length (front ++ text) = piecesFrom separator 0 text := by
  induction front with
  | nil => rfl
  | cons c front ih => exact ih

theorem piecesFrom_separator {separator : List Char} (nonempty : separator ≠ [])
    (text : List Char) :
    piecesFrom separator 0 (separator ++ text) = [] :: piecesFrom separator 0 text := by
  cases separator with
  | nil => exact absurd rfl nonempty
  | cons p separator =>
      have starts : after? (p :: separator) (p :: (separator ++ text)) = some text :=
        after?_append (p :: separator) text
      simp [piecesFrom, starts, piecesFrom_length]

/-- Characters outside the separator stay in front of the first piece behind them. -/
theorem piecesFrom_avoids_append {separator front : List Char} (nonempty : separator ≠ [])
    (avoids : Avoids separator front) (text : List Char) :
    piecesFrom separator 0 (front ++ text) =
      (piecesFrom separator 0 text).modifyHead (front ++ ·) := by
  induction front with
  | nil =>
      have same : (([] : List Char) ++ ·) = id := rfl
      rw [same, List.modifyHead_id]
      rfl
  | cons c front ih =>
      have stays : after? separator (c :: (front ++ text)) = none :=
        after?_eq_none nonempty (avoids c List.mem_cons_self)
      rw [List.cons_append, piecesFrom_cons stays,
        ih fun d member => avoids d (List.mem_cons_of_mem c member), List.modifyHead_modifyHead]
      rfl

theorem piecesFrom_avoids_separator {separator front : List Char} (nonempty : separator ≠ [])
    (avoids : Avoids separator front) (text : List Char) :
    piecesFrom separator 0 (front ++ (separator ++ text)) =
      front :: piecesFrom separator 0 text := by
  rw [piecesFrom_avoids_append nonempty avoids, piecesFrom_separator nonempty]
  simp

theorem piecesFrom_avoids {separator text : List Char} (nonempty : separator ≠ [])
    (avoids : Avoids separator text) : piecesFrom separator 0 text = [text] := by
  have cut := piecesFrom_avoids_append nonempty avoids []
  simpa [piecesFrom] using cut

theorem piecesFrom_intercalate {separator : List Char} {segments : List (List Char)}
    (nonempty : separator ≠ []) (some : segments ≠ [])
    (avoids : ∀ segment ∈ segments, Avoids separator segment) :
    piecesFrom separator 0 (separator.intercalate segments) = segments := by
  induction segments with
  | nil => exact absurd rfl some
  | cons segment segments ih =>
      have first : Avoids separator segment := avoids segment List.mem_cons_self
      cases segments with
      | nil => simpa using piecesFrom_avoids nonempty first
      | cons next segments =>
          have others : ∀ segment ∈ next :: segments, Avoids separator segment :=
            fun segment member => avoids segment (List.mem_cons_of_mem _ member)
          rw [List.intercalate_cons_cons, List.append_assoc,
            piecesFrom_avoids_separator nonempty first, ih (by simp) others]

/-- Before its first occurrence a separator of two different characters cannot overlap itself. -/
theorem piecesFrom_pair {a b : Char} (differ : a ≠ b) {front : List Char}
    (absent : occurs [a, b] front = false) (text : List Char) :
    piecesFrom [a, b] 0 (front ++ ([a, b] ++ text)) = front :: piecesFrom [a, b] 0 text := by
  induction front with
  | nil => exact piecesFrom_separator (by simp) text
  | cons c front ih =>
      rw [occurs, Bool.or_eq_false_iff] at absent
      obtain ⟨here, later⟩ := absent
      have stays : after? [a, b] (c :: (front ++ ([a, b] ++ text))) = none := by
        cases front with
        | nil => simp [after?, differ.symm]
        | cons d front => simpa [after?] using here
      rw [List.cons_append, piecesFrom_cons stays, ih later]
      rfl

/-! ## Occurrences -/

theorem occurs_of_length_lt {separator text : List Char}
    (shorter : text.length < separator.length) : occurs separator text = false := by
  rw [Bool.eq_false_iff, Ne, occurs_iff]
  rintro ⟨front, back, rfl⟩
  simp only [List.length_append] at shorter
  omega

/-- A text that does not start with the separator does so with more behind it only across its end. -/
theorem length_of_after?_append {separator text more rest : List Char}
    (stays : after? separator text = none) (starts : after? separator (text ++ more) = some rest) :
    text.length < separator.length := by
  refine Nat.lt_of_not_le fun longer => ?_
  rw [after?_eq_some_iff] at starts
  have begins : separator <+: text :=
    List.prefix_of_prefix_length_le (starts ▸ List.prefix_append separator rest)
      (List.prefix_append text more) longer
  obtain ⟨tail, whole⟩ := begins
  rw [after?_eq_some_iff.mpr whole.symm] at stays
  simp at stays

/-- A text without the separator is one piece. -/
theorem piecesFrom_of_absent {separator text : List Char}
    (absent : occurs separator text = false) : piecesFrom separator 0 text = [text] := by
  induction text with
  | nil => rfl
  | cons c text ih =>
      rw [occurs, Bool.or_eq_false_iff] at absent
      obtain ⟨here, later⟩ := absent
      rw [piecesFrom_cons (by simpa using here), ih later]
      rfl

/-- Cutting finds a separator that does not even start in front of its place. -/
theorem piecesFrom_absent_separator {separator front : List Char} (nonempty : separator ≠ [])
    (absent : occurs separator (front ++ separator.dropLast) = false) (text : List Char) :
    piecesFrom separator 0 (front ++ (separator ++ text)) =
      front :: piecesFrom separator 0 text := by
  induction front with
  | nil => exact piecesFrom_separator nonempty text
  | cons c front ih =>
      rw [List.cons_append, occurs, Bool.or_eq_false_iff] at absent
      obtain ⟨here, later⟩ := absent
      have stays : after? separator (c :: (front ++ (separator ++ text))) = none := by
        rw [Option.eq_none_iff_forall_ne_some]
        intro rest starts
        have last : separator.dropLast ++ separator.getLast nonempty :: text = separator ++ text := by
          rw [List.append_cons, List.dropLast_concat_getLast]
        rw [← last, ← List.append_assoc, ← List.cons_append] at starts
        have short := length_of_after?_append (by simpa using here) starts
        have filled := List.length_pos_iff.mpr nonempty
        simp only [List.length_cons, List.length_append, List.length_dropLast] at short
        omega
      rw [List.cons_append, piecesFrom_cons stays, ih later]
      rfl

/-- One separator behind a text without it makes at most two pieces. -/
theorem length_piecesFrom_append {separator text : List Char} (nonempty : separator ≠ [])
    (absent : occurs separator text = false) :
    (piecesFrom separator 0 (text ++ separator)).length ≤ 2 := by
  induction text with
  | nil =>
      have cut := piecesFrom_separator nonempty []
      rw [List.append_nil] at cut
      rw [List.nil_append, cut]
      exact Nat.le_refl 2
  | cons c text ih =>
      rw [occurs, Bool.or_eq_false_iff] at absent
      obtain ⟨here, later⟩ := absent
      cases starts : after? separator (c :: text ++ separator) with
      | none =>
          rw [List.cons_append] at starts ⊢
          rw [piecesFrom_cons starts, List.length_modifyHead]
          exact ih later
      | some rest =>
          have short := length_of_after?_append (by simpa using here) starts
          rw [after?_eq_some_iff] at starts
          have lengths := congrArg List.length starts
          simp only [List.length_append] at lengths
          have alone : piecesFrom separator 0 rest = [rest] :=
            piecesFrom_of_absent (occurs_of_length_lt (by omega))
          rw [starts, piecesFrom_separator nonempty, alone]
          exact Nat.le_refl 2

/-! ## Cutting at a single character -/

theorem piecesFrom_char_cons (separator c : Char) (text : List Char) :
    piecesFrom [separator] 0 (c :: text) =
      if separator = c then [] :: piecesFrom [separator] 0 text
      else (piecesFrom [separator] 0 text).modifyHead (c :: ·) := by
  by_cases same : separator = c
  · simp [piecesFrom, after?, same]
  · simp [piecesFrom, after?, same]

theorem piecesFrom_ne_nil (separator text : List Char) : piecesFrom separator 0 text ≠ [] := by
  induction text with
  | nil => simp [piecesFrom]
  | cons c text ih =>
      rw [piecesFrom]
      split
      · simp
      · cases pieces : piecesFrom separator 0 text with
        | nil => exact absurd pieces ih
        | cons first rest => simp

/-- The pieces around a single character are free of it. -/
theorem not_mem_of_mem_piecesFrom_char {separator : Char} {text piece : List Char}
    (member : piece ∈ piecesFrom [separator] 0 text) : separator ∉ piece := by
  induction text generalizing piece with
  | nil =>
      rw [piecesFrom, List.mem_singleton] at member
      simp [member]
  | cons c text ih =>
      rw [piecesFrom_char_cons] at member
      split at member
      · rcases List.mem_cons.mp member with rfl | later
        · exact List.not_mem_nil
        · exact ih later
      · rename_i differ
        cases pieces : piecesFrom [separator] 0 text with
        | nil => exact absurd pieces (piecesFrom_ne_nil _ _)
        | cons first rest =>
            rw [pieces] at member ih
            rcases List.mem_cons.mp member with rfl | later
            · have fresh : separator ∉ first := ih List.mem_cons_self
              simp [differ, fresh]
            · exact ih (List.mem_cons_of_mem first later)

theorem intercalate_piecesFrom_char (separator : Char) (text : List Char) :
    [separator].intercalate (piecesFrom [separator] 0 text) = text := by
  induction text with
  | nil => simp [piecesFrom]
  | cons c text ih =>
      rw [piecesFrom_char_cons]
      cases pieces : piecesFrom [separator] 0 text with
      | nil => exact absurd pieces (piecesFrom_ne_nil _ _)
      | cons first rest =>
          rw [pieces] at ih
          split
          · rename_i same
            rw [List.intercalate_cons_cons, ih, same]
            rfl
          · cases rest with
            | nil => simpa using ih
            | cons next rest =>
                rw [List.intercalate_cons_cons] at ih
                rw [List.modifyHead_cons, List.intercalate_cons_cons, ← ih]
                simp

theorem piecesFrom_char_append (separator : Char) (front back : List Char) :
    piecesFrom [separator] 0 (front ++ separator :: back) =
      piecesFrom [separator] 0 front ++ piecesFrom [separator] 0 back := by
  induction front with
  | nil => simp [piecesFrom_char_cons, piecesFrom]
  | cons c front ih =>
      rw [List.cons_append, piecesFrom_char_cons, piecesFrom_char_cons, ih]
      split
      · rfl
      · cases pieces : piecesFrom [separator] 0 front with
        | nil => exact absurd pieces (piecesFrom_ne_nil _ _)
        | cons first rest => rfl

/-! ## Characters -/

theorem mem_of_mem_piecesFrom {separator text piece : List Char} {skip : Nat} {c : Char}
    (member : piece ∈ piecesFrom separator skip text) (inside : c ∈ piece) : c ∈ text := by
  induction text generalizing skip piece with
  | nil =>
      rw [piecesFrom, List.mem_singleton] at member
      rwa [member] at inside
  | cons head text ih =>
      cases skip with
      | succ skip => exact List.mem_cons_of_mem head (ih member inside)
      | zero =>
          rw [piecesFrom] at member
          split at member
          · rcases List.mem_cons.mp member with rfl | later
            · exact absurd inside List.not_mem_nil
            · exact List.mem_cons_of_mem head (ih later inside)
          · cases cut : piecesFrom separator 0 text with
            | nil => simp [cut] at member
            | cons first rest =>
                rw [cut, List.modifyHead_cons] at member
                rcases List.mem_cons.mp member with rfl | later
                · rcases List.mem_cons.mp inside with rfl | inside
                  · exact List.mem_cons_self
                  · exact List.mem_cons_of_mem head (ih (cut ▸ List.mem_cons_self) inside)
                · exact List.mem_cons_of_mem head
                    (ih (cut ▸ List.mem_cons_of_mem first later) inside)

theorem mem_of_mem_pieces {separator text piece : List Char} {c : Char}
    (member : piece ∈ pieces separator text) (inside : c ∈ piece) : c ∈ text := by
  rw [pieces] at member
  split at member
  · rcases List.mem_cons.mp member with rfl | member
    · exact absurd inside List.not_mem_nil
    · rcases List.mem_append.mp member with single | last
      · obtain ⟨d, there, rfl⟩ := List.mem_map.mp single
        rwa [List.mem_singleton.mp inside]
      · rw [List.mem_singleton.mp last] at inside
        exact absurd inside List.not_mem_nil
  · exact mem_of_mem_piecesFrom member inside

theorem mem_of_mem_erasedFirst {pattern text : List Char} {c : Char}
    (member : c ∈ erasedFirst pattern text) : c ∈ text := by
  induction text with
  | nil => exact member
  | cons head text ih =>
      rw [erasedFirst] at member
      split at member
      case h_1 rest starts =>
        rw [after?_eq_some_iff.mp starts]
        exact List.mem_append_right pattern member
      case h_2 =>
        rcases List.mem_cons.mp member with rfl | later
        · exact List.mem_cons_self
        · exact List.mem_cons_of_mem head (ih later)

/-! ## Strings -/

theorem split_eq {separator : String} (nonempty : separator ≠ "") (text : String) :
    split separator text =
      (piecesFrom separator.toList 0 text.toList).map String.ofList := by
  have filled : separator.toList.isEmpty = false := by
    simpa [List.isEmpty_eq_false_iff] using nonempty
  simp [split, pieces, filled]

theorem mem_of_mem_split {separator text piece : String} {c : Char}
    (member : piece ∈ split separator text) (inside : c ∈ piece.toList) : c ∈ text.toList := by
  obtain ⟨chars, cut, rfl⟩ := List.mem_map.mp member
  rw [String.toList_ofList] at inside
  exact mem_of_mem_pieces cut inside

theorem eraseFirst_append {pattern : String} (nonempty : pattern ≠ "") (text : String) :
    eraseFirst pattern (pattern ++ text) = text := by
  rw [eraseFirst, String.toList_append]
  obtain ⟨c, rest, spelled⟩ := List.exists_cons_of_ne_nil
    (show pattern.toList ≠ [] by simpa using nonempty)
  have starts := after?_append pattern.toList text.toList
  rw [spelled, List.cons_append] at starts ⊢
  simp [erasedFirst, starts]

theorem mem_of_mem_eraseFirst {pattern text : String} {c : Char}
    (member : c ∈ (eraseFirst pattern text).toList) : c ∈ text.toList := by
  rw [eraseFirst, String.toList_ofList] at member
  exact mem_of_mem_erasedFirst member

theorem mem_of_mem_erase {pattern text : String} {c : Char}
    (member : c ∈ (erase pattern text).toList) : c ∈ text.toList := by
  rw [erase, String.toList_ofList] at member
  obtain ⟨piece, cut, inside⟩ := List.mem_flatten.mp member
  exact mem_of_mem_piecesFrom cut inside

/-- Cutting at a separator undoes joining, for segments without its characters. -/
theorem split_intercalate {separator : String} {segments : List String}
    (nonempty : separator ≠ "") (some : segments ≠ [])
    (avoids : ∀ segment ∈ segments, Avoids separator.toList segment.toList) :
    split separator (separator.intercalate segments) = segments := by
  have filled : separator.toList ≠ [] := by simpa using nonempty
  rw [split_eq nonempty, String.toList_intercalate,
    piecesFrom_intercalate filled (by simpa using some) (by simpa using avoids)]
  simp [Function.comp_def]

/-- A separator of one character cuts a text wherever it stands. -/
theorem split_char_append (separator : Char) (front back : String) :
    split (String.singleton separator) (front ++ String.singleton separator ++ back) =
      split (String.singleton separator) front ++ split (String.singleton separator) back := by
  have nonempty : String.singleton separator ≠ "" := by simp
  rw [split_eq nonempty, split_eq nonempty, split_eq nonempty, ← List.map_append,
    String.toList_append, String.toList_append, String.toList_singleton, List.append_assoc,
    List.singleton_append, piecesFrom_char_append]

theorem not_mem_of_mem_split_point {text piece : String} (member : piece ∈ split "." text) :
    '.' ∉ piece.toList := by
  rw [split_eq (by decide)] at member
  obtain ⟨chars, cut, rfl⟩ := List.mem_map.mp member
  rw [String.toList_ofList]
  exact not_mem_of_mem_piecesFrom_char cut

/-- Joining the pieces around the points gives the text back. -/
theorem intercalate_split_point (text : String) : ".".intercalate (split "." text) = text := by
  have joined := intercalate_piecesFrom_char '.' text.toList
  rw [split_eq (by decide), ← String.toList_inj, String.toList_intercalate, List.map_map]
  simpa [Function.comp_def] using joined

/-- A character of a join comes from the separator or from a segment. -/
theorem mem_intercalate {c : Char} {separator : String} {segments : List String}
    (member : c ∈ (separator.intercalate segments).toList) :
    c ∈ separator.toList ∨ ∃ segment ∈ segments, c ∈ segment.toList := by
  induction segments with
  | nil => simp at member
  | cons segment segments ih =>
      cases segments with
      | nil => exact Or.inr ⟨segment, List.mem_cons_self, by simpa using member⟩
      | cons next segments =>
          rw [String.intercalate_cons_cons, String.toList_append, String.toList_append] at member
          rcases List.mem_append.mp member with front | later
          · rcases List.mem_append.mp front with here | between
            · exact Or.inr ⟨segment, List.mem_cons_self, here⟩
            · exact Or.inl between
          · rcases ih later with between | ⟨other, inside, found⟩
            · exact Or.inl between
            · exact Or.inr ⟨other, List.mem_cons_of_mem segment inside, found⟩

/-- What stands in front of the first occurrence of a two-character separator. -/
theorem head?_split_pair {a b : Char} (differ : a ≠ b) {front : String}
    (absent : contains front (String.ofList [a, b]) = false) (back : String) :
    (split (String.ofList [a, b]) (front ++ String.ofList [a, b] ++ back)).head? =
      some front := by
  rw [contains, String.toList_ofList] at absent
  rw [split_eq (by simp), String.toList_append, String.toList_append, String.toList_ofList,
    List.append_assoc, piecesFrom_pair differ absent]
  simp

/-! ## Lines -/

/-- A text without a line break. -/
def OneLine (text : String) : Prop := '\n' ∉ text.toList

instance (text : String) : Decidable (OneLine text) := inferInstanceAs (Decidable (¬ _))

/-- The text of lines that all end in a line break. -/
def ofLines (lines : List String) : String :=
  String.join (lines.map (· ++ "\n"))

theorem ofLines_cons (line : String) (lines : List String) :
    ofLines (line :: lines) = line ++ "\n" ++ ofLines lines := by
  simp [ofLines]

theorem ofLines_append (front back : List String) :
    ofLines (front ++ back) = ofLines front ++ ofLines back := by
  simp [ofLines]

/-- The lines of a text, the unfinished last one included. -/
def lines (text : String) : List String := split "\n" text

/-- The lines of a text that ends in a line break, with nothing behind the last one. -/
theorem lines_ofLines {content : List String} (whole : ∀ line ∈ content, OneLine line) :
    lines (ofLines content) = content ++ [""] := by
  induction content with
  | nil => rfl
  | cons line content ih =>
      have avoids : Avoids ['\n'] line.toList := by
        intro c member same
        exact whole line List.mem_cons_self (List.mem_singleton.mp same ▸ member)
      have later := ih fun next member => whole next (List.mem_cons_of_mem line member)
      rw [lines, split_eq (by decide)] at later ⊢
      rw [ofLines_cons, String.toList_append, String.toList_append, List.append_assoc]
      have cut := piecesFrom_avoids_separator (by simp) avoids (ofLines content).toList
      rw [show "\n".toList = ['\n'] from rfl] at later ⊢
      rw [cut, List.map_cons, later, String.ofList_toList]
      rfl

end Text
end DesignTokens
