import DesignTokens.Toml.Quoted

/-!
# Quoted strings are read back

A written string is read back as the text that it stands for, whatever the text holds and however
it is quoted.  On many lines at most two bare quotes stand in a row, so the closing ones are met at
the end only, where quotes of the text in front of them are told from them by their number.
-/

namespace DesignTokens
namespace Toml
namespace Quoted

variable {lines : Bool} {mark : Char}

/-! ## Reading one character -/

theorem isPlain_of_needsEscape {c : Char} (bare : needsEscape c = false) :
    c = '\n' ∨ isPlain c = true := by
  simp only [needsEscape, Bool.or_eq_false_iff, Bool.and_eq_false_iff, decide_eq_false_iff_not,
    Nat.not_lt, ne_eq, Decidable.not_not] at bare
  obtain ⟨(large | tab) | lineBreak, delete⟩ := bare
  · exact Or.inr (by simp [isPlain, large, delete])
  · exact Or.inr (by simp [isPlain, tab])
  · exact Or.inl lineBreak

theorem basicBody_plain {c : Char} (plain : isPlain c = true) (quote : c ≠ '"')
    (backslash : c ≠ '\\') (text : List Char) :
    basicBody lines false (c :: text) = prepend c (basicBody lines false text) := by
  have lineBreak : c ≠ '\n' := by rintro rfl; exact absurd plain (by decide)
  have carriage : c ≠ '\r' := by rintro rfl; exact absurd plain (by decide)
  rw [basicBody.eq_def]
  simp [lineBreak, carriage, quote, backslash, plain]

theorem basicBody_lineBreak (text : List Char) :
    basicBody true false ('\n' :: text) = prepend '\n' (basicBody true false text) := by
  rw [basicBody.eq_def]
  simp

theorem opensGap_of_solid {c : Char} (blank : isBlank c = false) (lineBreak : c ≠ '\n')
    (carriage : c ≠ '\r') (text : List Char) : opensGap (c :: text) = false := by
  simp [opensGap, blank, lineBreak?, lineBreak, carriage]

theorem basicBody_letter {letter escaped : Char} (known : letterEscape? letter = some escaped)
    (text : List Char) :
    basicBody lines false ('\\' :: letter :: text) =
      prepend escaped (basicBody lines false text) := by
  have apart : ∀ other, letterEscape? other = none → letter ≠ other := by
    rintro other unknown rfl
    exact nomatch unknown.symm.trans known
  have solid : opensGap (letter :: text) = false :=
    opensGap_of_solid (by simp [isBlank, apart ' ' rfl, apart '\t' rfl]) (apart '\n' rfl)
      (apart '\r' rfl) text
  rw [basicBody.eq_def]
  simp [solid, known, apart 'u' rfl, apart 'U' rfl]

theorem basicBody_coded {a b c d character : Char} (known : coded? [a, b, c, d] = some character)
    (text : List Char) :
    basicBody lines false ('\\' :: 'u' :: a :: b :: c :: d :: text) =
      prepend character (basicBody lines false text) := by
  have solid := opensGap_of_solid (c := 'u') rfl (by decide) (by decide)
    (a :: b :: c :: d :: text)
  rw [basicBody.eq_def]
  simp [solid, known]

/-! ## Escapes -/

set_option maxRecDepth 4000 in
theorem coded?_upperDigits : ∀ code < 0x80,
    coded? ['0', '0', upperDigit (code / 16), upperDigit (code % 16)] = some (Char.ofNat code) := by
  decide

/-- A character is escaped by a letter or by its code, or stands for itself. -/
theorem escapeChar_cases (lineBreak : Bool) {quote : Bool} {c : Char}
    (quoted : c = '"' → quote = true) :
    (∃ letter, letterEscape? letter = some c ∧ escapeChar quote lineBreak c = ['\\', letter]) ∨
      (∃ high low, coded? ['0', '0', high, low] = some c ∧
        escapeChar quote lineBreak c = ['\\', 'u', '0', '0', high, low]) ∨
      (c = '\n' ∧ lineBreak = false ∧ escapeChar quote lineBreak c = [c]) ∨
      isPlain c = true ∧ c ≠ '"' ∧ c ≠ '\\' ∧ escapeChar quote lineBreak c = [c] := by
  unfold escapeChar
  split
  case isTrue same =>
    rw [quoted same]
    exact Or.inl ⟨'"', by rw [same]; rfl, rfl⟩
  case isFalse bare =>
  split
  case isTrue same => exact Or.inl ⟨'\\', by rw [same]; rfl, rfl⟩
  case isFalse straight =>
  split
  case isTrue same =>
    subst same
    cases lineBreak with
    | true => exact Or.inl ⟨'n', rfl, rfl⟩
    | false => exact Or.inr (Or.inr (Or.inl ⟨rfl, rfl, rfl⟩))
  split
  case isTrue same => exact Or.inl ⟨'b', by rw [same]; rfl, rfl⟩
  split
  case isTrue same => exact Or.inl ⟨'t', by rw [same]; rfl, rfl⟩
  split
  case isTrue same => exact Or.inl ⟨'f', by rw [same]; rfl, rfl⟩
  split
  case isTrue same => exact Or.inl ⟨'r', by rw [same]; rfl, rfl⟩
  split
  case isTrue control =>
    have known := coded?_upperDigits c.toNat (by omega)
    rw [Char.ofNat_toNat] at known
    exact Or.inr (Or.inl ⟨_, _, known, rfl⟩)
  case isFalse control =>
    rw [not_or, Nat.not_lt] at control
    have plain : isPlain c = true := by simp [isPlain, control]
    exact Or.inr (Or.inr (Or.inr ⟨plain, bare, straight, rfl⟩))

theorem basicBody_escapeChar {quote lineBreak : Bool} {c : Char} (quoted : c = '"' → quote = true)
    (broken : lineBreak = false → lines = true) (text : List Char) :
    basicBody lines false (escapeChar quote lineBreak c ++ text) =
      prepend c (basicBody lines false text) := by
  rcases escapeChar_cases lineBreak quoted with ⟨letter, known, same⟩ | ⟨high, low, known, same⟩ |
    ⟨rfl, bare, same⟩ | ⟨plain, bare, straight, same⟩
  · rw [same]
    exact basicBody_letter known text
  · rw [same]
    exact basicBody_coded known text
  · rw [same, broken bare]
    exact basicBody_lineBreak text
  · rw [same]
    exact basicBody_plain plain bare straight text

/-- An escaped character starts with neither a quote nor, unless it is one, a line break. -/
theorem exists_escapeChar_cons (lineBreak : Bool) {quote : Bool} {c : Char}
    (quoted : c = '"' → quote = true) :
    ∃ head tail, escapeChar quote lineBreak c = head :: tail ∧ head ≠ '"' ∧ head ≠ '\r' ∧
      (c ≠ '\n' → head ≠ '\n') := by
  rcases escapeChar_cases lineBreak quoted with ⟨letter, _, same⟩ | ⟨high, low, _, same⟩ |
    ⟨rfl, _, same⟩ | ⟨plain, bare, _, same⟩
  · exact ⟨_, _, same, by decide, by decide, fun _ => by decide⟩
  · exact ⟨_, _, same, by decide, by decide, fun _ => by decide⟩
  · exact ⟨_, _, same, by decide, by decide, id⟩
  · refine ⟨_, _, same, bare, ?_, id⟩
    rintro rfl
    exact absurd plain (by decide)

/-! ## Strings on one line -/

theorem basicBody_escapeLine (text rest : List Char) :
    basicBody false false (escapeLine text ++ '"' :: rest) = some (text, rest) := by
  induction text with
  | nil =>
      rw [escapeLine, List.flatMap_nil, List.nil_append, basicBody.eq_def]
      simp
  | cons c text ih =>
      rw [escapeLine, List.flatMap_cons, List.append_assoc,
        basicBody_escapeChar (fun _ => rfl) (show true = false → false = true from nofun),
        ← escapeLine, ih]
      rfl

theorem literalBody_plain {c : Char} (plain : isPlain c = true) (quote : c ≠ '\'')
    (text : List Char) :
    literalBody lines (c :: text) = prepend c (literalBody lines text) := by
  have lineBreak : c ≠ '\n' := by rintro rfl; exact absurd plain (by decide)
  have carriage : c ≠ '\r' := by rintro rfl; exact absurd plain (by decide)
  rw [literalBody.eq_def]
  simp [lineBreak, carriage, quote, plain]

theorem literalBody_bare {text : List Char}
    (bare : ∀ c ∈ text, isPlain c = true ∧ c ≠ '\'') (rest : List Char) :
    literalBody false (text ++ '\'' :: rest) = some (text, rest) := by
  induction text with
  | nil =>
      rw [List.nil_append, literalBody.eq_def]
      simp
  | cons c text ih =>
      obtain ⟨⟨plain, quote⟩, others⟩ := List.forall_mem_cons.mp bare
      rw [List.cons_append, literalBody_plain plain quote, ih others]
      rfl

/-! ## Strings on many lines -/

/--
How a reader with a kind of quotes takes a text for another one, behind `run` bare quotes in a row.
At most two bare quotes stand in a row, and all else reads as one character.
-/
inductive Spells (body : List Char → Option (List Char × List Char)) (quote : Char) :
    Nat → List Char → List Char → Prop where
  | nil {run : Nat} : Spells body quote run [] []
  | quote {run : Nat} {text written : List Char} (short : run < 2)
      (later : Spells body quote (run + 1) text written) :
      Spells body quote run (quote :: text) (quote :: written)
  | other {run : Nat} {c head : Char} {tail text written : List Char} (apart : head ≠ quote)
      (reads : ∀ more, body (head :: (tail ++ more)) = prepend c (body more))
      (later : Spells body quote 0 text written) :
      Spells body quote run (c :: text) (head :: (tail ++ written))

/-- Closing quotes are met where the text ends and nowhere else. -/
theorem Spells.body_eq {body : List Char → Option (List Char × List Char)} {quote : Char}
    {run : Nat} {text written : List Char} (spells : Spells body quote run text written)
    (closes : ∀ more, body (quote :: more) =
      match Text.after? [quote, quote] more with
      | some rest => some (spareQuotes quote rest)
      | none => prepend quote (body more))
    (beyond : mark ≠ quote) (rest : List Char) :
    body (written ++ quote :: quote :: quote :: mark :: rest) = some (text, mark :: rest) := by
  induction spells with
  | nil =>
      rw [List.nil_append, closes]
      simp [Text.after?, spareQuotes, beyond]
  | @quote run text written short later ih =>
      rw [List.cons_append, closes]
      -- Only quotes at the very end of the text make the reader see three in a row too early.
      cases later with
      | nil => simp [Text.after?, spareQuotes, beyond]
      | @quote _ text written shorter last =>
          cases last with
          | nil => simp [Text.after?, spareQuotes]
          | quote shortest => omega
          | @other _ c head tail text written apart =>
              have inside : Text.after? [quote, quote] (quote :: head :: (tail ++ written) ++
                  quote :: quote :: quote :: mark :: rest) = none := by
                simp [Text.after?, Ne.symm apart]
              rw [inside, ih]
              rfl
      | @other _ c head tail text written apart =>
          have inside : Text.after? [quote, quote] (head :: (tail ++ written) ++
              quote :: quote :: quote :: mark :: rest) = none := by
            simp [Text.after?, Ne.symm apart]
          rw [inside, ih]
          rfl
  | other _ reads _ ih =>
      rw [List.cons_append, List.append_assoc, reads, ih]
      rfl

theorem spells_escapeLines {run : Nat} (short : run ≤ 2) (text : List Char) :
    Spells (basicBody true false) '"' run text (escapeLines run text) := by
  -- `run` counts the quotes in front that are not escaped; the third of them always is.
  induction text generalizing run with
  | nil => exact .nil
  | cons c text ih =>
      rw [escapeLines]
      split
      case isTrue same =>
        subst same
        split
        · have reads : ∀ more, basicBody true false ('\\' :: (['"'] ++ more)) =
              prepend '"' (basicBody true false more) := basicBody_letter rfl
          exact .other (by decide) reads (ih (by omega))
        · exact .quote (by omega) (ih (by omega))
      case isFalse bare =>
        have quoted : c = '"' → false = true := fun same => absurd same bare
        obtain ⟨head, tail, same, apart, _, _⟩ := exists_escapeChar_cons false quoted
        have reads : ∀ more, basicBody true false (escapeChar false false c ++ more) =
            prepend c (basicBody true false more) := basicBody_escapeChar quoted fun _ => rfl
        rw [same] at reads ⊢
        exact .other apart reads (ih (by omega))

theorem le_longestRun (quote : Char) (run : Nat) (text : List Char) :
    run ≤ longestRun quote run text := by
  induction text generalizing run with
  | nil => exact Nat.le_refl run
  | cons c text ih =>
      rw [longestRun]
      split
      · exact Nat.le_of_succ_le (ih (run + 1))
      · exact Nat.le_max_left _ _

theorem literalBody_lineBreak (text : List Char) :
    literalBody true ('\n' :: text) = prepend '\n' (literalBody true text) := by
  rw [literalBody.eq_def]
  simp

theorem spells_literal {run : Nat} {text : List Char} (short : longestRun '\'' run text ≤ 2)
    (plain : ∀ c ∈ text, c = '\n' ∨ isPlain c = true) :
    Spells (literalBody true) '\'' run text text := by
  induction text generalizing run with
  | nil => exact .nil
  | cons c text ih =>
      obtain ⟨here, others⟩ := List.forall_mem_cons.mp plain
      rw [longestRun] at short
      split at short
      case isTrue same =>
        subst same
        have room := Nat.le_trans (le_longestRun '\'' (run + 1) text) short
        exact .quote (by omega) (ih short others)
      case isFalse bare =>
        have reads : ∀ more, literalBody true (c :: ([] ++ more)) =
            prepend c (literalBody true more) := by
          rcases here with rfl | plain
          · exact literalBody_lineBreak
          · exact literalBody_plain plain bare
        exact .other bare reads (ih (by omega) others)

theorem skipLineBreak_opening {text written : List Char}
    (start : '\n' ∉ text → ∀ c ∈ written.head?, c ≠ '\n' ∧ c ≠ '\r') :
    skipLineBreak (opening text ++ written) = written := by
  by_cases broken : '\n' ∈ text
  · simp [opening, broken, skipLineBreak, lineBreak?]
  · cases written with
    | nil => simp [opening, broken, skipLineBreak, lineBreak?]
    | cons c written =>
        obtain ⟨lineBreak, carriage⟩ := start broken c rfl
        simp [opening, broken, skipLineBreak, lineBreak?, lineBreak, carriage]

/-! ## The ways to quote -/

theorem read?_eq_readLine? {quote : Char} {more : List Char}
    (apart : Text.after? [quote, quote] more = none) :
    read? (quote :: more) = readLine? (quote :: more) := by
  unfold read?
  split
  case h_1 same =>
    cases same
    simp [Text.after?] at apart
  case h_2 same =>
    cases same
    simp [Text.after?] at apart
  case h_3 => rfl

theorem read?_basic (apart : mark ≠ '"') (text rest : List Char) :
    read? (Way.basic.quote text ++ mark :: rest) = some (text, mark :: rest) := by
  have body := basicBody_escapeLine text (mark :: rest)
  have single : read? ('"' :: (escapeLine text ++ '"' :: mark :: rest)) =
      readLine? ('"' :: (escapeLine text ++ '"' :: mark :: rest)) := by
    refine read?_eq_readLine? ?_
    cases text with
    | nil => simp [escapeLine, Text.after?, Ne.symm apart]
    | cons c text =>
        obtain ⟨head, tail, same, other, _⟩ := exists_escapeChar_cons true fun (_ : c = '"') => rfl
        simp [escapeLine, same, Text.after?, Ne.symm other]
  have shape : Way.basic.quote text ++ mark :: rest =
      '"' :: (escapeLine text ++ '"' :: mark :: rest) := by
    simp [Way.quote]
  rw [shape, single, readLine?, if_pos rfl, body]

theorem read?_literal {text : List Char} (filled : text ≠ [])
    (bare : ∀ c ∈ text, isPlain c = true ∧ c ≠ '\'') (mark : Char) (rest : List Char) :
    read? (Way.literal.quote text ++ mark :: rest) = some (text, mark :: rest) := by
  have body := literalBody_bare bare (mark :: rest)
  have single : read? ('\'' :: (text ++ '\'' :: mark :: rest)) =
      readLine? ('\'' :: (text ++ '\'' :: mark :: rest)) := by
    refine read?_eq_readLine? ?_
    cases text with
    | nil => exact absurd rfl filled
    | cons c text =>
        have other := (bare c List.mem_cons_self).2
        simp [Text.after?, Ne.symm other]
  have shape : Way.literal.quote text ++ mark :: rest =
      '\'' :: (text ++ '\'' :: mark :: rest) := by
    simp [Way.quote]
  rw [shape, single, readLine?, if_neg (by decide), if_pos rfl, body]

theorem head?_escapeLines {text rest : List Char} (unbroken : '\n' ∉ text) :
    ∀ c ∈ (escapeLines 0 text ++ '"' :: rest).head?, c ≠ '\n' ∧ c ≠ '\r' := by
  cases text with
  | nil =>
      rintro c ⟨⟩
      exact ⟨by decide, by decide⟩
  | cons c text =>
      rw [escapeLines]
      split
      case isTrue =>
        rintro c ⟨⟩
        exact ⟨by decide, by decide⟩
      case isFalse bare =>
        have quoted : c = '"' → false = true := fun same => absurd same bare
        obtain ⟨head, tail, same, _, carriage, lineBreak⟩ := exists_escapeChar_cons false quoted
        rw [same]
        rintro c ⟨⟩
        exact ⟨lineBreak (List.ne_of_not_mem_cons unbroken).symm, carriage⟩

theorem read?_basicLines (apart : mark ≠ '"') (text rest : List Char) :
    read? (Way.basicLines.quote text ++ mark :: rest) = some (text, mark :: rest) := by
  have closes : ∀ more, basicBody true false ('"' :: more) =
      match Text.after? ['"', '"'] more with
      | some rest => some (spareQuotes '"' rest)
      | none => prepend '"' (basicBody true false more) := by
    intro more
    rw [basicBody.eq_def]
    rfl
  have body := (spells_escapeLines (Nat.zero_le 2) text).body_eq closes apart rest
  have shape : Way.basicLines.quote text ++ mark :: rest = '"' :: '"' :: '"' ::
      (opening text ++ (escapeLines 0 text ++ '"' :: '"' :: '"' :: mark :: rest)) := by
    simp [Way.quote]
  rw [shape, read?, skipLineBreak_opening head?_escapeLines, body]

theorem read?_literalLines (apart : mark ≠ '\'') {text : List Char}
    (plain : ∀ c ∈ text, c = '\n' ∨ isPlain c = true) (short : longestRun '\'' 0 text ≤ 2)
    (rest : List Char) :
    read? (Way.literalLines.quote text ++ mark :: rest) = some (text, mark :: rest) := by
  have closes : ∀ more, literalBody true ('\'' :: more) =
      match Text.after? ['\'', '\''] more with
      | some rest => some (spareQuotes '\'' rest)
      | none => prepend '\'' (literalBody true more) := by
    intro more
    rw [literalBody.eq_def]
    rfl
  have body := (spells_literal short plain).body_eq closes apart rest
  have start : '\n' ∉ text →
      ∀ c ∈ (text ++ '\'' :: '\'' :: '\'' :: mark :: rest).head?, c ≠ '\n' ∧ c ≠ '\r' := by
    intro unbroken
    cases text with
    | nil =>
        rintro c ⟨⟩
        exact ⟨by decide, by decide⟩
    | cons c text =>
        rintro c ⟨⟩
        have lineBreak := (List.ne_of_not_mem_cons unbroken).symm
        refine ⟨lineBreak, ?_⟩
        rintro rfl
        exact absurd ((plain _ List.mem_cons_self).resolve_left lineBreak) (by decide)
  have shape : Way.literalLines.quote text ++ mark :: rest = '\'' :: '\'' :: '\'' ::
      (opening text ++ (text ++ '\'' :: '\'' :: '\'' :: mark :: rest)) := by
    simp [Way.quote]
  rw [shape, read?, skipLineBreak_opening start, body]

theorem not_mem_of_longestRun {quote : Char} {text : List Char}
    (none : longestRun quote 0 text = 0) : quote ∉ text := by
  induction text with
  | nil => exact List.not_mem_nil
  | cons c text ih =>
      rw [longestRun] at none
      split at none
      case isTrue =>
        have some := le_longestRun quote (0 + 1) text
        omega
      case isFalse other =>
        rw [List.mem_cons, not_or]
        exact ⟨Ne.symm other, ih (by omega)⟩

/-- A written string is read back, whatever it holds, if no quote follows it. -/
theorem read?_write (double : mark ≠ '"') (single : mark ≠ '\'') (text rest : List Char) :
    read? (write text ++ mark :: rest) = some (text, mark :: rest) := by
  have uncoded : text.any needsEscape = false → ∀ c ∈ text, c = '\n' ∨ isPlain c = true :=
    fun none c member => isPlain_of_needsEscape (by simpa using List.any_eq_false.mp none c member)
  rw [write, Way.ofText]
  split
  case isTrue => exact read?_basic double text rest
  case isFalse unfit =>
  split
  case isTrue fits =>
    simp only [Bool.and_eq_true, Bool.not_eq_true', decide_eq_true_eq, List.contains_eq_mem,
      decide_eq_false_iff_not] at fits
    obtain ⟨⟨none, singles⟩, unbroken⟩ := fits
    have filled : text ≠ [] := by
      rintro rfl
      exact unfit rfl
    refine read?_literal filled (fun c member => ⟨?_, ?_⟩) mark rest
    · refine (uncoded none c member).resolve_left ?_
      rintro rfl
      exact unbroken member
    · rintro rfl
      exact not_mem_of_longestRun singles member
  case isFalse =>
  split
  case isTrue => exact read?_basicLines double text rest
  case isFalse =>
  split
  case isTrue fits =>
    simp only [Bool.and_eq_true, Bool.not_eq_true', decide_eq_true_eq] at fits
    exact read?_literalLines single (uncoded fits.1) fits.2 rest
  case isFalse =>
  split
  · exact read?_basicLines double text rest
  · exact read?_basic double text rest

theorem exists_write_cons (text : List Char) :
    ∃ quote tail, write text = quote :: tail ∧ (quote = '"' ∨ quote = '\'') := by
  rw [write]
  cases Way.ofText text with
  | basic => exact ⟨_, _, rfl, Or.inl rfl⟩
  | literal => exact ⟨_, _, rfl, Or.inr rfl⟩
  | basicLines => exact ⟨_, _, rfl, Or.inl rfl⟩
  | literalLines => exact ⟨_, _, rfl, Or.inr rfl⟩

end Quoted
end Toml
end DesignTokens
